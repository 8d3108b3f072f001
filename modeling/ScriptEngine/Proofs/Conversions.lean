import Mathlib.Logic.Relation
import ScriptEngine.Proofs.Candidates
import ScriptEngine.Proofs.StoredValues
/-!
# Which conversions end

A value is converted part by part, each part after those before it, and the first part that has no
shape ends the conversion. Nothing remembers what is being converted already, so a conversion goes
on for ever exactly if it comes back to where it has been: to a list or an object that waits for
itself.

* `Heap.naturalWithin_succ` : one step of a conversion, the same for every kind of value.
* `Heap.Awaits` : a value and a part that its conversion comes to.
* `Heap.Endless` : values whose conversion comes to one that waits for itself.
* `Heap.naturalWithin_eq_none_iff` : no depth is enough exactly for these, and for all others one
  more than there are lists and objects.
* **`HostRun.toHost_ends_iff`** : conversion to a type ends with data or an error exactly for the
  values that are not endless.

This is `to_host` with the shape it starts from (`natural`). That the program runs out of stack
where a conversion goes on for ever is out of scope here: the run is `stuck`, which no budget
changes.
-/

namespace ScriptEngine

/-! ## One after another -/

section Sequences

variable {ε α β : Type} {f g : α → Except ε β} {a : α} {as before after : List α} {e : ε}

theorem Except.mapM_cons_eq_error_iff : (a :: as).mapM f = .error e ↔
    f a = .error e ∨ (∃ b, f a = .ok b) ∧ as.mapM f = .error e := by
  rw [List.mapM_cons]
  cases f a with
  | error e' => simp [Bind.bind, Except.bind]
  | ok b =>
    cases as.mapM f <;> simp [Bind.bind, Except.bind, Pure.pure, Except.pure]

/-- A sequence ends with the error of one of its parts, behind parts that have results. -/
theorem Except.exists_of_mapM_eq_error (he : as.mapM f = .error e) :
    ∃ before a after, as = before ++ a :: after ∧ (∀ b ∈ before, ∃ c, f b = .ok c) ∧
      f a = .error e := by
  induction as with
  | nil => cases he
  | cons a as ih =>
    rcases Except.mapM_cons_eq_error_iff.mp he with ha | ⟨hb, has⟩
    · exact ⟨[], a, as, rfl, List.forall_mem_nil _, ha⟩
    · obtain ⟨before, c, after, rfl, hbefore, hc⟩ := ih has
      exact ⟨a :: before, c, after, rfl, List.forall_mem_cons.mpr ⟨hb, hbefore⟩, hc⟩

/-- A sequence with a part that ends with the error, and no other error in front of it, ends with
the error. -/
theorem Except.mapM_append_eq_error (hbefore : ∀ b ∈ before, f b = .error e ∨ ∃ c, f b = .ok c)
    (ha : f a = .error e) : (before ++ a :: after).mapM f = .error e := by
  induction before with
  | nil => exact Except.mapM_cons_eq_error_iff.mpr (.inl ha)
  | cons b before ih =>
    obtain ⟨hb, hbefore⟩ := List.forall_mem_cons.mp hbefore
    exact Except.mapM_cons_eq_error_iff.mpr (hb.imp_right fun hok => ⟨hok, ih hbefore⟩)

/-- A sequence that does not end with the error stays as it is if only parts that do are changed. -/
theorem Except.mapM_congr_of_ne (hne : as.mapM f ≠ .error e)
    (hsame : ∀ a ∈ as, f a ≠ .error e → g a = f a) : as.mapM g = as.mapM f := by
  induction as with
  | nil => rfl
  | cons a as ih =>
    obtain ⟨ha, has⟩ := List.forall_mem_cons.mp hsame
    rw [ne_eq, Except.mapM_cons_eq_error_iff, not_or] at hne
    rw [List.mapM_cons, List.mapM_cons, ha hne.1]
    cases hfa : f a with
    | error _ => rfl
    | ok b => rw [ih (fun hrest => hne.2 ⟨⟨b, hfa⟩, hrest⟩) has]

end Sequences

namespace Heap

open Relation

variable {h : Heap} {levels more : Nat} {u v : Value}

/-! ## One step of a conversion -/

/-- What a conversion goes into: the items of a list, and what the fields of an object hold. -/
def parts (h : Heap) : Value → List Value
  | .list id => (h.list id).toList
  | .object id => (h.object id).fields.map (·.2)
  | _ => []

/-- The shape that a value has if its parts have the given ones. -/
def assemble (h : Heap) (ds : List HostData) : Value → Except (Option HostError) HostData
  | .null => .ok .null
  | .bool b => .ok (.bool b)
  | .number n => .ok (naturalNumber n)
  | .float f => .ok (.float f)
  | .string s => .ok (.string s)
  | .list _ => .ok (.list ds)
  | .object id => .ok (.map (((h.object id).fields.names.zip ds).foldl
      (fun entries (name, d) => putSorted name d entries) []))
  | .host id => .ok (.object id)
  | .hostClass id => .ok (.hostClass id)
  | v => .error (some (.conversion v.typeName "a host value"))

theorem assemble_ne_none (ds : List HostData) (v : Value) : h.assemble ds v ≠ .error none := by
  cases v <;> exact fun hnone => by cases hnone

/-- The fields of an object are converted as their values are. -/
theorem mapM_fields {ε β : Type} (f : Value → Except ε β) (fields : Fields) :
    fields.mapM (fun (name, v) => do return (name, ← f v)) =
      (do let ds ← (fields.map (·.2)).mapM f; return fields.names.zip ds) := by
  induction fields with
  | nil => rfl
  | cons field fields ih =>
    obtain ⟨name, v⟩ := field
    rw [List.mapM_cons, ih, List.map_cons, List.mapM_cons]
    cases hd : f v with
    | error _ => simp [Bind.bind, Except.bind, hd]
    | ok d =>
      cases (fields.map (·.2)).mapM f <;>
        simp [Bind.bind, Except.bind, Pure.pure, Except.pure, Fields.names, hd]

/-- A conversion converts the parts, one after another, and then assembles their shapes. -/
theorem naturalWithin_succ (levels : Nat) (v : Value) : h.naturalWithin (levels + 1) v =
    (do let ds ← (h.parts v).mapM (h.naturalWithin levels); h.assemble ds v) := by
  cases v with
  | object id =>
    simp only [naturalWithin, parts, mapM_fields]
    cases ((h.object id).fields.map (·.2)).mapM (h.naturalWithin levels) <;> rfl
  | _ => rfl

/-- What has parts is in the heap. -/
theorem mem_allContainers_of_parts (hu : u ∈ h.parts v) : v ∈ h.allContainers := by
  cases v with
  | list id =>
    refine list_mem_allContainers (Nat.lt_of_not_le fun hid => ?_)
    simp [parts, list_of_size_le hid] at hu
  | object id =>
    refine object_mem_allContainers (Nat.lt_of_not_le fun hid => ?_)
    simp [parts, object_of_size_le hid] at hu
  | _ => cases hu

/-- A depth that is enough for an answer gives the one that any greater depth gives. -/
theorem naturalWithin_mono (hne : h.naturalWithin levels v ≠ .error none) (hle : levels ≤ more) :
    h.naturalWithin more v = h.naturalWithin levels v := by
  induction levels generalizing more v with
  | zero => exact absurd rfl hne
  | succ levels ih =>
    obtain ⟨more, rfl⟩ := Nat.exists_eq_add_of_le' (Nat.lt_of_lt_of_le (Nat.succ_pos _) hle)
    rw [naturalWithin_succ] at hne
    have hparts : (h.parts v).mapM (h.naturalWithin levels) ≠ .error none := by
      intro hnone
      rw [hnone] at hne
      exact hne rfl
    rw [naturalWithin_succ, naturalWithin_succ, Except.mapM_congr_of_ne hparts
      fun u _ hu => ih hu (Nat.le_of_succ_le_succ hle)]

/-! ## Conversions that come back to where they were -/

/-- The second value is an item of the first one or held by a field of it. -/
def Holds (h : Heap) (v u : Value) : Prop := u ∈ h.parts v

/-- Some depth is enough to give the value a shape. -/
def Converts (h : Heap) (v : Value) : Prop := ∃ levels d, h.naturalWithin levels v = .ok d

/-- Converting the first value comes to the second one: a part of it behind parts that have
shapes. -/
def Awaits (h : Heap) (v u : Value) : Prop :=
  ∃ before after, h.parts v = before ++ u :: after ∧ ∀ p ∈ before, h.Converts p

/-- Converting the value comes to one that waits for itself. -/
def Endless (h : Heap) (v : Value) : Prop := ∃ u, ReflTransGen h.Awaits v u ∧ TransGen h.Awaits u u

theorem Awaits.mem_parts (hawaits : h.Awaits v u) : u ∈ h.parts v := by
  obtain ⟨before, after, hparts, -⟩ := hawaits
  rw [hparts]
  exact List.mem_append_right _ List.mem_cons_self

/-- An endless value waits for one that is endless. -/
theorem Endless.exists_awaits (hv : h.Endless v) : ∃ u, h.Awaits v u ∧ h.Endless u := by
  obtain ⟨u, hto, hcycle⟩ := hv
  rcases ReflTransGen.cases_head hto with rfl | ⟨w, hvw, hwu⟩
  · obtain ⟨w, hvw, hwv⟩ := TransGen.head'_iff.mp hcycle
    exact ⟨w, hvw, v, hwv, hcycle⟩
  · exact ⟨w, hvw, u, hwu, hcycle⟩

/-- A conversion whose depth is used up has gone into a part, where it is used up as well. -/
theorem exists_awaits_of_none (hnone : h.naturalWithin (levels + 1) v = .error none) :
    ∃ u, h.Awaits v u ∧ h.naturalWithin levels u = .error none := by
  rw [naturalWithin_succ] at hnone
  cases hparts : (h.parts v).mapM (h.naturalWithin levels) with
  | ok ds =>
    rw [hparts] at hnone
    exact absurd hnone (assemble_ne_none ds v)
  | error e =>
    rw [hparts] at hnone
    cases hnone
    obtain ⟨before, u, after, hsplit, hbefore, hu⟩ := Except.exists_of_mapM_eq_error hparts
    exact ⟨u, ⟨before, after, hsplit, fun p hp => ⟨levels, hbefore p hp⟩⟩, hu⟩

/-- Where a value has a shape, too small a depth is used up; it gives no error. -/
theorem Converts.cases (hv : h.Converts v) (levels : Nat) :
    h.naturalWithin levels v = .error none ∨ ∃ d, h.naturalWithin levels v = .ok d := by
  by_cases hne : h.naturalWithin levels v = .error none
  · exact .inl hne
  · obtain ⟨enough, d, hd⟩ := hv
    have hd' : h.naturalWithin enough v ≠ .error none := by simp [hd]
    rw [← naturalWithin_mono hne (Nat.le_max_left levels enough),
      naturalWithin_mono hd' (Nat.le_max_right levels enough)]
    exact .inr ⟨d, hd⟩

/-- No depth is enough for an endless value. -/
theorem Endless.naturalWithin_eq (hv : h.Endless v) (levels : Nat) :
    h.naturalWithin levels v = .error none := by
  induction levels generalizing v with
  | zero => rfl
  | succ levels ih =>
    obtain ⟨u, ⟨before, after, hsplit, hbefore⟩, hu⟩ := hv.exists_awaits
    rw [naturalWithin_succ, hsplit,
      Except.mapM_append_eq_error (fun p hp => (hbefore p hp).cases levels) (ih hu)]
    rfl

/-- Where the depth is used up inside values of which each waits for the next, one of them is met
again: there are fewer lists and objects than it took. -/
theorem endless_of_none {path : List Value} (hnone : h.naturalWithin levels v = .error none)
    (hnodup : path.Nodup) (hpath : path ⊆ h.allContainers)
    (hwait : ∀ u ∈ path, TransGen h.Awaits u v) (hlevels : h.containers < levels + path.length) :
    h.Endless v := by
  induction levels generalizing v path with
  | zero =>
    have := length_path_le hnodup hpath
    omega
  | succ levels ih =>
    by_cases hmem : v ∈ path
    · exact ⟨v, .refl, hwait v hmem⟩
    · obtain ⟨u, hvu, hu⟩ := exists_awaits_of_none hnone
      have hcontainer : v ∈ h.allContainers := mem_allContainers_of_parts hvu.mem_parts
      have hwait' : ∀ p ∈ v :: path, TransGen h.Awaits p u :=
        List.forall_mem_cons.mpr ⟨.single hvu, fun p hp => (hwait p hp).tail hvu⟩
      obtain ⟨w, huw, hcycle⟩ := ih hu (List.nodup_cons.mpr ⟨hmem, hnodup⟩)
        (List.cons_subset.mpr ⟨hcontainer, hpath⟩) hwait' (by rw [List.length_cons]; omega)
      exact ⟨w, .head hvu huw, hcycle⟩

/-- **One more level than there are lists and objects is not enough** exactly for endless values. -/
theorem naturalWithin_eq_none_iff :
    h.naturalWithin (h.containers + 1) v = .error none ↔ h.Endless v := by
  constructor
  · intro hnone
    exact endless_of_none hnone List.nodup_nil (List.nil_subset _) (List.forall_mem_nil _)
      (Nat.lt_succ_self _)
  · exact fun hv => hv.naturalWithin_eq _

/-- What holds nothing that holds itself is not endless. -/
theorem not_endless_of_acyclic (hacyclic : ∀ u, ReflTransGen h.Holds v u → ¬ TransGen h.Holds u u) :
    ¬ h.Endless v := by
  rintro ⟨u, hto, hcycle⟩
  have hholds : ∀ v u, h.Awaits v u → h.Holds v u := fun _ _ => Awaits.mem_parts
  exact hacyclic u (ReflTransGen.mono hholds _ _ hto) (TransGen.mono hholds _ _ hcycle)

end Heap

namespace HostRun

open Relation

variable {w : World} {v : Value}

theorem toHost_of_ok {d : HostData} (type : HostType)
    (hd : w.heap.naturalWithin (w.heap.containers + 1) v = .ok d) :
    (∃ d, toHost type v w = .ok d w) ∨ ∃ e, toHost type v w = .error e w := by
  have hnatural : natural v w = .ok d w := by rw [natural, hd]
  have hcoerced : heap (·.coerce type d) w = .ok (w.heap.coerce type d) w := rfl
  rw [toHost, Run.bind_of_ok hnatural, Run.bind_of_ok hcoerced]
  cases w.heap.coerce type d with
  | ok fitted => exact .inl ⟨fitted, rfl⟩
  | error e => exact .inr ⟨e, rfl⟩

/-- **A conversion ends**, with data or with an error of the host and the state as it was, exactly
if it does not come to a value that waits for itself. If it does, it goes deeper than any depth. In
particular every conversion ends of a value that holds nothing which holds itself. -/
theorem toHost_ends_iff (type : HostType) (v : Value) (w : World) :
    (((∃ d, toHost type v w = .ok d w) ∨ ∃ e, toHost type v w = .error e w) ↔ ¬ w.heap.Endless v) ∧
      (w.heap.Endless v → ∀ levels, w.heap.naturalWithin levels v = .error none) ∧
      ((∀ u, ReflTransGen w.heap.Holds v u → ¬ TransGen w.heap.Holds u u) →
        (∃ d, toHost type v w = .ok d w) ∨ ∃ e, toHost type v w = .error e w) := by
  have hiff : ((∃ d, toHost type v w = .ok d w) ∨ ∃ e, toHost type v w = .error e w) ↔
      ¬ w.heap.Endless v := by
    rw [← Heap.naturalWithin_eq_none_iff]
    cases hd : w.heap.naturalWithin (w.heap.containers + 1) v with
    | ok d => exact iff_of_true (toHost_of_ok type hd) (by simp)
    | error e =>
      cases e with
      | some e =>
        have hnatural : natural v w = .error e w := by rw [natural, hd]
        exact iff_of_true (.inr ⟨e, Run.bind_of_error hnatural⟩) (by simp)
      | none =>
        have hstopped : toHost type v w = .stopped .stuck := by
          simp only [toHost, Bind.bind, natural, hd]
        refine iff_of_false ?_ (by simp)
        simp [hstopped]
  exact ⟨hiff, fun hv => hv.naturalWithin_eq, fun hacyclic =>
    hiff.mpr (Heap.not_endless_of_acyclic hacyclic)⟩

/-- A list that holds itself, one that holds a function in front of itself, and one that holds an
empty list twice. -/
def selfish : World :=
  let w := World.initial .default 0 0
  let heap := { w.heap with
    lists := #[#[.list ⟨0⟩], #[.function ⟨0⟩, .list ⟨1⟩], #[.list ⟨3⟩, .list ⟨3⟩], #[]] }
  { w with heap }

/-- The first list is never converted; the second one ends with an error in front of itself, and the
third one is converted. -/
theorem toHost_ends_selfish : selfish.heap.Endless (.list ⟨0⟩) ∧
    ¬ ((∃ d, toHost .any (.list ⟨0⟩) selfish = .ok d selfish) ∨
      ∃ e, toHost .any (.list ⟨0⟩) selfish = .error e selfish) ∧
    ¬ selfish.heap.Endless (.list ⟨1⟩) ∧ ¬ selfish.heap.Endless (.list ⟨2⟩) := by
  have hself : selfish.heap.Awaits (.list ⟨0⟩) (.list ⟨0⟩) := ⟨[], [], rfl, List.forall_mem_nil _⟩
  have hendless : selfish.heap.Endless (.list ⟨0⟩) := ⟨.list ⟨0⟩, .refl, .single hself⟩
  refine ⟨hendless, mt (toHost_ends_iff .any _ _).1.mp (not_not.mpr hendless), ?_, ?_⟩
  all_goals
    rw [← Heap.naturalWithin_eq_none_iff]
    intro hnone
    cases hnone

end HostRun

end ScriptEngine
