import ScriptEngine.Proofs.Descents
/-!
# Which values are written as data

A value becomes data part by part, each part after those before it, and the first part that has no
such form ends the whole. The only thing that has none is what is inside itself. So the function of
the library that writes a value as text always comes to an end, and it fails exactly where something
that the value holds comes back to itself.

* `Heap.assembleNode` : the data of a value, given the data of its parts.
* `Heap.Encodes` : making the data of a value, without a bound on how deep it goes.
* `Heap.toNode_eq_error_iff` : which values have no form as data.
* **`Library.jsonStringify_fails_iff`** : writing a value as text ends with a text, or with the
  error exactly if the value holds something that holds itself.

This is `JSON_stringify` (`to_json`, and the text of the data). A value that is not finite becomes
null, and a value that is no data a text; neither is a failure.
-/

namespace ScriptEngine

open Interchange

/-- Where a sequence has results, every part has one. -/
theorem Except.exists_of_mapM_eq_ok {ε α β : Type} [Inhabited β] {f : α → Except ε β} {as : List α}
    {bs : List β} (h : as.mapM f = .ok bs) :
    ∃ g : α → β, (∀ a ∈ as, f a = .ok (g a)) ∧ bs = as.map g := by
  refine ⟨fun a => (f a).toOption.getD default, ?_⟩
  induction as generalizing bs with
  | nil =>
    cases h
    exact ⟨List.forall_mem_nil _, rfl⟩
  | cons a as ih =>
    rw [List.mapM_cons] at h
    cases ha : f a with
    | error e => simp [ha, Bind.bind, Except.bind] at h
    | ok b =>
      cases has : as.mapM f with
      | error e => simp [ha, has, Bind.bind, Except.bind] at h
      | ok bs' =>
        obtain ⟨hall, rfl⟩ := ih has
        have hbs : bs = b :: as.map fun a => (f a).toOption.getD default := by
          simpa [ha, has, Bind.bind, Except.bind, Pure.pure, Except.pure, eq_comm] using h
        refine ⟨List.forall_mem_cons.mpr ⟨?_, hall⟩, ?_⟩
        · simp [ha, Except.toOption]
        · simp [hbs, ha, Except.toOption]

namespace Heap

open Relation

variable {h : Heap} {levels : Nat} {path : List Value} {u v : Value} {e : RuntimeError} {n : Node}
  {r r' : Except RuntimeError Node}

/-! ## One step -/

/-- The data of a value, given the data of its parts. -/
def assembleNode (h : Heap) (ns : List Node) : Value → Node
  | .null => .null
  | .bool b => .bool b
  | .number n => .number n
  | .float f => .number (Number.widen f)
  | .string s => .string s
  | .list _ => .array ns
  | .object id => .object ((h.object id).fields.names.zip ns)
  | .host id => .string (h.describe id)
  | _ => .string callableMark

theorem toNodeWithin_of_mem (hinside : v ∈ path) :
    h.toNodeWithin (levels + 1) path v = .error (.refused .selfContaining) := by
  simp [toNodeWithin, hinside]

theorem toNodeWithin_of_not_mem (hnew : v ∉ path) :
    h.toNodeWithin (levels + 1) path v = (do
      let ns ← (h.parts v).mapM (h.toNodeWithin levels (v :: path))
      return h.assembleNode ns v) := by
  have hnotin : path.contains v = false := by simpa using hnew
  cases v with
  | object id =>
    simp only [toNodeWithin, hnotin, parts, mapM_fields]
    cases ((h.object id).fields.map (·.2)).mapM (h.toNodeWithin levels (.object id :: path)) <;> rfl
  | _ =>
    simp only [toNodeWithin, hnotin]
    rfl

/-! ## Data without a bound -/

/-- Making the data of a value inside the values on the path, as deep as it goes. The parts are
taken one after another, up to the first that has none. -/
inductive Encodes (h : Heap) : List Value → Value → Except RuntimeError Node → Prop
  | inside {path : List Value} {v : Value} (hinside : v ∈ path) :
      Encodes h path v (.error (.refused .selfContaining))
  | whole {path : List Value} {v : Value} {node : Value → Node} (hnew : v ∉ path)
      (hparts : ∀ u ∈ h.parts v, Encodes h (v :: path) u (.ok (node u))) :
      Encodes h path v (.ok (h.assembleNode ((h.parts v).map node) v))
  | broken {path before after : List Value} {u v : Value} {node : Value → Node} {e : RuntimeError}
      (hnew : v ∉ path) (hsplit : h.parts v = before ++ u :: after)
      (hbefore : ∀ p ∈ before, Encodes h (v :: path) p (.ok (node p)))
      (hpart : Encodes h (v :: path) u (.error e)) : Encodes h path v (.error e)

/-- A value has data, or the first part without data decides how it fails; there is no more than one
way. -/
theorem Encodes.unique (hr : h.Encodes path v r) (hr' : h.Encodes path v r') : r = r' := by
  induction hr generalizing r' with
  | inside hinside =>
    cases hr' with
    | inside => rfl
    | whole hnew | broken hnew => exact absurd hinside hnew
  | @whole path v node hnew hparts ih =>
    cases hr' with
    | inside hinside => exact absurd hinside hnew
    | whole _ hparts' => rw [List.map_congr_left fun u hu => Except.ok.inj (ih u hu (hparts' u hu))]
    | broken _ hsplit _ hpart =>
      cases ih _ (hsplit ▸ List.mem_append_right _ List.mem_cons_self) hpart
  | @broken path before after u v node e hnew hsplit hbefore hpart ihbefore ihpart =>
    cases hr' with
    | inside hinside => exact absurd hinside hnew
    | whole _ hparts' =>
      cases ihpart (hparts' u (hsplit ▸ List.mem_append_right _ List.mem_cons_self))
    | @broken _ before' after' u' _ node' e' _ hsplit' hbefore' hpart' =>
      -- a part with data in front of one side's failure cannot be the failure of the other side
      rcases List.append_eq_append_iff.mp (hsplit.symm.trans hsplit') with ⟨between, rfl, hu⟩ |
        ⟨between, rfl, hu⟩
      · cases between with
        | nil =>
          obtain ⟨rfl, -⟩ := List.cons.inj hu
          exact ihpart hpart'
        | cons p between =>
          obtain ⟨rfl, -⟩ := List.cons.inj hu
          cases ihpart (hbefore' u (List.mem_append_right _ List.mem_cons_self))
      · cases between with
        | nil =>
          obtain ⟨rfl, -⟩ := List.cons.inj hu
          exact ihpart hpart'
        | cons p between =>
          obtain ⟨rfl, -⟩ := List.cons.inj hu
          cases ihbefore u' (List.mem_append_right _ List.mem_cons_self) hpart'

/-- One level more than there are lists and objects is enough. -/
theorem encodes_toNode (h : Heap) (v : Value) : h.Encodes [] v (h.toNode v) := by
  refine descent_induction h.parts
    (P := fun levels path v => h.Encodes path v (h.toNodeWithin levels path v))
    (fun v hv => ?_) (fun levels path v _ hparts => ?_) v
  · obtain ⟨u, hu⟩ := List.exists_mem_of_ne_nil _ hv
    exact mem_allContainers_of_parts hu
  by_cases hinside : v ∈ path
  · rw [toNodeWithin_of_mem hinside]
    exact .inside hinside
  have hparts := hparts hinside
  rw [toNodeWithin_of_not_mem hinside]
  cases hall : (h.parts v).mapM (h.toNodeWithin levels (v :: path)) with
  | ok ns =>
    obtain ⟨node, hnode, rfl⟩ := Except.exists_of_mapM_eq_ok hall
    exact .whole hinside fun u hu => hnode u hu ▸ hparts u hu
  | error e =>
    obtain ⟨before, u, after, hsplit, hbefore, hu⟩ := Except.exists_of_mapM_eq_error hall
    choose! node hnode using hbefore
    have hdata : ∀ p ∈ before, h.Encodes (v :: path) p (.ok (node p)) := fun p hp =>
      hnode p hp ▸ hparts p (hsplit ▸ List.mem_append_left _ hp)
    exact .broken hinside hsplit hdata
      (hu ▸ hparts u (hsplit ▸ List.mem_append_right _ List.mem_cons_self))

/-- What fails, fails at something that is inside itself. -/
theorem Encodes.circular (hr : h.Encodes path v r) (he : r = .error e)
    (hpath : ∀ p ∈ path, TransGen h.Holds p v) :
    Circular h.Holds v ∧ e = .refused .selfContaining := by
  induction hr with
  | @inside path v hinside =>
    cases he
    exact ⟨.of_return (hpath v hinside), rfl⟩
  | whole => cases he
  | @broken path before after u v node e' hnew hsplit _ _ _ ih =>
    have hu : u ∈ h.parts v := hsplit ▸ List.mem_append_right before List.mem_cons_self
    have hpath' : ∀ p ∈ v :: path, TransGen h.Holds p u :=
      List.forall_mem_cons.mpr ⟨.single hu, fun p hp => (hpath p hp).tail hu⟩
    obtain ⟨hcircular, he'⟩ := ih he hpath'
    exact ⟨.head hu hcircular, he'⟩

/-- What has data holds nothing that holds itself. -/
theorem Encodes.not_circular (hr : h.Encodes path v r) (hok : r = .ok n) :
    ¬ Circular h.Holds v := by
  induction hr generalizing n with
  | inside => cases hok
  | whole _ _ ih =>
    intro hv
    obtain ⟨u, hu, hcircular⟩ := hv.exists_head
    exact ih u hu rfl hcircular
  | broken => cases hok

/-- **The values without a form as data** are those that hold something which holds itself. -/
theorem toNode_eq_error_iff :
    h.toNode v = .error e ↔ Circular h.Holds v ∧ e = .refused .selfContaining := by
  have hencodes := encodes_toNode h v
  constructor
  · exact fun he => hencodes.circular he (List.forall_mem_nil _)
  · rintro ⟨hv, rfl⟩
    cases hnode : h.toNode v with
    | ok n => exact absurd hv (hencodes.not_circular hnode)
    | error e => rw [(hencodes.circular hnode (List.forall_mem_nil _)).2]

end Heap

namespace Library

variable {v : Value} {w : World}

theorem jsonStringify_of_toNode_ok {n : Node} (hn : w.heap.toNode v = .ok n) :
    jsonStringify [v] w = .ok (.string n.write) w := by
  have hdata : (Script.heap fun h => h.toNode (argumentAt [v] 0)) w = .ok (.ok n) w :=
    Run.read_of_eq hn
  rw [jsonStringify, Run.bind_of_ok hdata]
  rfl

theorem jsonStringify_of_toNode_error {e : RuntimeError} (he : w.heap.toNode v = .error e) :
    jsonStringify [v] w = .error (.runtime e) w := by
  have hdata : (Script.heap fun h => h.toNode (argumentAt [v] 0)) w = .ok (.error e) w :=
    Run.read_of_eq he
  rw [jsonStringify, Run.bind_of_ok hdata]
  rfl

/-- **Writing a value as text comes to an end**, for every value of every heap, and changes nothing.
It ends with a text exactly if nothing that the value holds, through items of lists and fields of
objects of any kind, holds itself, however often something is held; and otherwise with the error
that says so. -/
theorem jsonStringify_fails_iff (v : Value) (w : World) :
    (∀ r, w.heap.Encodes [] v r ↔ r = w.heap.toNode v) ∧
    ((∃ text, jsonStringify [v] w = .ok (.string text) w) ↔ ¬ Circular w.heap.Holds v) ∧
    (∀ f w', jsonStringify [v] w = .error f w' ↔
      Circular w.heap.Holds v ∧ f = .runtime (.refused .selfContaining) ∧ w' = w) ∧
    (Fault.runtime (.refused .selfContaining)).message =
      "'JSON_stringify' cannot serialize a value that contains itself" := by
  have hencodes := Heap.encodes_toNode w.heap v
  refine ⟨fun r => ⟨fun hr => hr.unique hencodes, fun hr => hr ▸ hencodes⟩, ?_, ?_, rfl⟩
  · cases hn : w.heap.toNode v with
    | ok n =>
      have hv : ¬ Circular w.heap.Holds v := hencodes.not_circular hn
      exact iff_of_true ⟨_, jsonStringify_of_toNode_ok hn⟩ hv
    | error e =>
      rw [jsonStringify_of_toNode_error hn]
      exact iff_of_false nofun (not_not.mpr (Heap.toNode_eq_error_iff.mp hn).1)
  · intro f w'
    cases hn : w.heap.toNode v with
    | ok n =>
      rw [jsonStringify_of_toNode_ok hn]
      exact iff_of_false nofun fun hv => hencodes.not_circular hn hv.1
    | error e =>
      obtain ⟨hv, rfl⟩ := Heap.toNode_eq_error_iff.mp hn
      rw [jsonStringify_of_toNode_error hn]
      constructor
      · rintro ⟨⟩
        exact ⟨hv, rfl, rfl⟩
      · rintro ⟨-, rfl, rfl⟩
        rfl

end Library

end ScriptEngine
