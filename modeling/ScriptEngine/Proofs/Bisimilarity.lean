import Mathlib.Data.List.Nodup
import Mathlib.Data.List.Perm.Subperm
import ScriptEngine.Proofs.Comparison
/-!
# Equality is bisimilarity

Two values differ exactly if some finite path of positions and field names leads from them to a pair
that can be told apart by looking at it. A comparison finds such a path, and what it takes for equal
on the way hides none: a shortest path to a difference does not pass through a pair that it started
from.

* `Heap.Distinguished` : pairs that can be told apart without looking into lists and fields.
* `Heap.Apart` : pairs from which a path leads to a distinguished one.
* `Heap.equal_eq_false_iff_differ` : values are unequal exactly if a path leads from them to a pair
  that can be told apart or to host objects that are unequal.
* `Heap.equal_eq_false_iff` : values that hold no host objects are unequal exactly if they are
  apart.
* `Heap.equality_is_bisimilarity` : equality comes to an answer, which is that of bisimilarity, and
  so it is reflexive but for what is not a number, symmetric and transitive.

This is the `==` of scripts (`equals`) on all heaps, cyclic ones included. How host objects compare
is theirs to say (`host_eq`): where they are involved, only what the comparison does with their
answers is said.
-/

namespace ScriptEngine

/-! ## Numbers -/

namespace Number

open Float.Model Float.Model.UnpackedFloat

/-- What a number is compared by: the sign of a zero does not count, and what is not a number has
nothing to be compared by. -/
def comparedBy : UnpackedFloat → Option UnpackedFloat
  | .notANumber => none
  | .zero _ => some (.zero .positive)
  | x => some x

theorem isSome_comparedBy (x : UnpackedFloat) : (comparedBy x).isSome = !x.isNaN := by
  cases x <;> rfl

/-- Two numbers of the same sign, neither of them zero, compare equal only if they are the same. -/
theorem compare_finite_eq_iff (s : Sign) {m n : Nat} {e f : Int} (hm : 0 < m) (hn : 0 < n) :
    (finite s m e hm).compare (finite s n f hn) = some .eq ↔ finite s m e hm = finite s n f hn := by
  have hmagnitudes : (compare e f).then (compare m n) = .eq ↔ m = n ∧ e = f := by
    rw [Ordering.then_eq_eq, compare_eq_iff_eq, compare_eq_iff_eq, and_comm]
  rw [finite.injEq, and_iff_right rfl, ← hmagnitudes]
  cases s with
  | positive => exact Option.some_inj
  | negative => exact Option.some_inj.trans Ordering.swap_eq_eq

theorem unpacked_beq_iff (x y : UnpackedFloat) :
    x.beq y = true ↔ (comparedBy x).isSome ∧ comparedBy x = comparedBy y := by
  unfold UnpackedFloat.beq
  rw [beq_iff_eq]
  rcases x with s | _ | s | ⟨s, m, e, hm⟩ <;> rcases y with t | _ | t | ⟨t, n, f, hn⟩ <;>
    try cases s
  all_goals
    try cases t
  -- all but numbers of the same sign are told apart, or not, by their constructors
  all_goals first
    | exact iff_of_true rfl ⟨rfl, rfl⟩
    | (refine iff_of_false (fun h => ?_) (fun h => ?_)
       · cases h
       · cases h.1)
    | (refine iff_of_false (fun h => ?_) (fun h => ?_)
       · cases h
       · cases h.2)
    | exact (compare_finite_eq_iff _ hm hn).trans
        ⟨fun h => ⟨rfl, congrArg some h⟩, fun h => Option.some.inj h.2⟩

theorem beq_iff {x y : Float} : (x == y) = true ↔
    (comparedBy x.toModel.unpack).isSome ∧
      comparedBy x.toModel.unpack = comparedBy y.toModel.unpack :=
  unpacked_beq_iff x.toModel.unpack y.toModel.unpack

/-- A number equals itself unless it is not one. -/
theorem beq_self_iff {x : Float} : (x == x) = true ↔ x.isNaN = false := by
  rw [beq_iff, and_iff_left rfl, isSome_comparedBy]
  exact (Bool.not_eq_true' _).to_iff

theorem beq_comm {x y : Float} : (x == y) = (y == x) := by
  rw [Bool.eq_iff_iff, beq_iff, beq_iff]
  constructor
  · rintro ⟨hsome, heq⟩
    exact ⟨heq ▸ hsome, heq.symm⟩
  · rintro ⟨hsome, heq⟩
    exact ⟨heq ▸ hsome, heq.symm⟩

theorem beq_trans {x y z : Float} (hxy : (x == y) = true) (hyz : (y == z) = true) :
    (x == z) = true := by
  rw [beq_iff] at hxy hyz ⊢
  exact ⟨hxy.1, hxy.2.trans hyz.2⟩

end Number

/-! ## Fields -/

namespace Fields

variable {fields fields' : Fields} {name : String} {v : Value}

/-- The names of the fields. -/
def names (fields : Fields) : List String := fields.map (·.1)

theorem isSome_get? : (fields.get? name).isSome = true ↔ name ∈ fields.names := by
  unfold get? names
  rw [List.lookup_isSome_iff, List.mem_map]
  simp only [beq_iff_eq, eq_comm (a := name)]

theorem mem_of_get? (hget : fields.get? name = some v) : (name, v) ∈ fields := by
  obtain ⟨before, rest, rfl, -⟩ := List.lookup_eq_some_iff.mp hget
  simp

/-- Where names are distinct, each field is the one that its name finds. -/
theorem get?_of_mem (hnames : fields.names.Nodup) (hmem : (name, v) ∈ fields) :
    fields.get? name = some v := by
  obtain ⟨before, rest, rfl⟩ := List.mem_iff_append.mp hmem
  refine List.lookup_eq_some_iff.mpr ⟨before, rest, rfl, fun field hfield => ?_⟩
  rw [bne_iff_ne]
  rintro rfl
  rw [names, List.map_append, List.nodup_append] at hnames
  exact hnames.2.2 _ (List.mem_map_of_mem hfield) _ (by simp) rfl

/-- As many distinct names that all occur among others are the same names. -/
theorem isSome_get?_eq (hnames : fields.names.Nodup) (hlength : fields.length = fields'.length)
    (hsub : fields.names ⊆ fields'.names) (name : String) :
    (fields.get? name).isSome = (fields'.get? name).isSome := by
  have hperm : fields.names.Perm fields'.names := by
    refine (hnames.subperm hsub).perm_of_length_le ?_
    simp [names, hlength]
  rw [Bool.eq_iff_iff, isSome_get?, isSome_get?]
  exact hperm.mem_iff

/-- Fields of different numbers have a name that the others lack. -/
theorem exists_isSome_get?_ne (hnames : fields.names.Nodup) (hnames' : fields'.names.Nodup)
    (hlength : fields.length ≠ fields'.length) :
    ∃ name, (fields.get? name).isSome ≠ (fields'.get? name).isSome := by
  by_contra hall
  push Not at hall
  have hperm : fields.names.Perm fields'.names := by
    rw [List.perm_ext_iff_of_nodup hnames hnames']
    intro name
    rw [← isSome_get?, ← isSome_get?, hall name]
  have := hperm.length_eq
  simp only [names, List.length_map] at this
  exact hlength this

theorem names_put (name : String) (v : Value) (fields : Fields) :
    (fields.put name v).names = if name ∈ fields.names then fields.names
      else fields.names ++ [name] := by
  induction fields with
  | nil => rfl
  | cons field rest ih =>
    obtain ⟨k, w⟩ := field
    by_cases hk : k = name
    · subst hk
      simp [put, names]
    · have hput : names (put name v ((k, w) :: rest)) = k :: names (put name v rest) := by
        simp [put, hk, names]
      have hmem : name ∈ names ((k, w) :: rest) ↔ name ∈ names rest := by
        simp [names, eq_comm (a := name), hk]
      rw [hput, ih]
      split_ifs with hrest hcons hcons
      · rfl
      · exact absurd (hmem.mpr hrest) hcons
      · exact absurd (hmem.mp hcons) hrest
      · rfl

/-- Setting a field keeps names distinct. -/
theorem nodup_put (hnames : fields.names.Nodup) : (fields.put name v).names.Nodup := by
  rw [names_put]
  split_ifs with hmem
  · exact hnames
  · rw [List.nodup_append]
    refine ⟨hnames, List.nodup_singleton _, ?_⟩
    rintro a ha b hb rfl
    exact hmem (List.mem_singleton.mp hb ▸ ha)

theorem nodup_ofPairs (pairs : List (String × Value)) : (ofPairs pairs).names.Nodup := by
  unfold ofPairs
  have hnil : (names []).Nodup := List.nodup_nil
  generalize ([] : Fields) = fields at hnil ⊢
  induction pairs generalizing fields with
  | nil => exact hnil
  | cons pair pairs ih => exact ih _ (nodup_put hnil)

end Fields

namespace Value

/-- The kind of a value where numbers of both precisions count as one. -/
def comparedAs (v : Value) : String := if v.asNumber?.isSome then "Number" else v.typeName

/-- Whether a value is compared as a whole. -/
def isLeaf : Value → Bool
  | null | bool _ | string _ => true
  | v => v.isCallable

/-- Whether a value is a host object. -/
def isHost : Value → Bool
  | host _ => true
  | _ => false

end Value

namespace Heap

variable {h : Heap} {assumed : List (Value × Value)} {a b c u v w : Value}

/-! ## Values that are apart -/

/-- A position in a list or the name of a field. -/
inductive Place
  | item (position : Nat)
  | field (name : String)

/-- What lies at a place of a list or an object. -/
def part? (h : Heap) : Value → Place → Option Value
  | .list x, .item i => (h.list x)[i]?
  | .object x, .field name => (h.object x).fields.get? name
  | _, _ => none

/-- Pairs that can be told apart without looking at what lies in them. -/
inductive Distinguished (h : Heap) : Value → Value → Prop
  | kinds {v w : Value} (hkinds : v.comparedAs ≠ w.comparedAs) : Distinguished h v w
  | numbers {v w : Value} {x y : Float} (hv : v.asNumber? = some x) (hw : w.asNumber? = some y)
      (hne : (x == y) = false) : Distinguished h v w
  | leaves {v w : Value} (hv : v.isLeaf) (hw : w.isLeaf) (hne : v ≠ w) : Distinguished h v w
  | lengths {x y : ListId} (hsize : (h.list x).size ≠ (h.list y).size) :
      Distinguished h (.list x) (.list y)
  | instances {x y : ObjectId} (hne : x ≠ y)
      (hcls : (h.object x).cls.isSome ∨ (h.object y).cls.isSome) :
      Distinguished h (.object x) (.object y)
  | names {x y : ObjectId} {name : String}
      (hname : ((h.object x).fields.get? name).isSome ≠ ((h.object y).fields.get? name).isSome) :
      Distinguished h (.object x) (.object y)

/-- Pairs that are unequal whatever lies in them: those that can be told apart, and host objects
that the class of the first one takes for different. -/
inductive Differ (h : Heap) : Value → Value → Prop
  | told {v w : Value} (hdist : h.Distinguished v w) : Differ h v w
  | hosts {x y : HostId} (hxy : h.hostEqual x y = false) : Differ h (.host x) (.host y)

/-- The path leads from one pair to another, each of its places being there on both sides. It does
not look into what is the same list or object on both. -/
inductive Leads (h : Heap) : List Place → Value → Value → Value → Value → Prop
  | here {v w : Value} : Leads h [] v w v w
  | into {place : Place} {path : List Place} {v w v' w' v'' w'' : Value} (hne : v ≠ w)
      (hv : h.part? v place = some v') (hw : h.part? w place = some w')
      (hrest : Leads h path v' w' v'' w'') : Leads h (place :: path) v w v'' w''

/-- Some path leads to a distinguished pair. -/
def Apart (h : Heap) (a b : Value) : Prop :=
  ∃ path v w, h.Leads path a b v w ∧ h.Distinguished v w

/-- What lies in a value, however deep. -/
inductive Reaches (h : Heap) : Value → Value → Prop
  | here {v : Value} : Reaches h v v
  | into {place : Place} {v w u : Value} (hpart : h.part? v place = some w)
      (hrest : Reaches h w u) : Reaches h v u

/-- No host object lies in the value. -/
def HostFree (h : Heap) (v : Value) : Prop := ∀ id, ¬ h.Reaches v (.host id)

/-- No object has two fields of one name. -/
def DistinctFields (h : Heap) : Prop := ∀ x : ObjectId, (h.object x).fields.names.Nodup

theorem Apart.here (hdist : h.Distinguished a b) : h.Apart a b := ⟨[], a, b, .here, hdist⟩

theorem Apart.into {place : Place} (hne : a ≠ b) (ha : h.part? a place = some v)
    (hb : h.part? b place = some w) (hapart : h.Apart v w) : h.Apart a b := by
  obtain ⟨path, v', w', hleads, hdist⟩ := hapart
  exact ⟨place :: path, v', w', .into hne ha hb hleads, hdist⟩

/-! ### Distinct fields -/

theorem distinctFields_initial : Heap.initial.DistinctFields := by
  intro x
  simp [object, Heap.initial, Fields.names]

theorem DistinctFields.addObject {o : Object} (hd : h.DistinctFields) (ho : o.fields.names.Nodup) :
    (h.addObject o).2.DistinctFields := by
  intro x
  have hx := hd x
  unfold object at hx ⊢
  simp only [Heap.addObject, Array.getD_eq_getD_getElem?, Array.getElem?_push] at hx ⊢
  split_ifs with hlast
  · exact ho
  · exact hx

theorem DistinctFields.putField {x : ObjectId} {name : String} (hd : h.DistinctFields) :
    (h.putField x name v).DistinctFields := by
  intro y
  have hy := hd y
  unfold object at hy ⊢
  simp only [Heap.putField, Array.getD_eq_getD_getElem?, Array.getElem?_modify] at hy ⊢
  split_ifs with hxy
  · cases hobject : h.objects[y.index]? with
    | none => simp [Fields.names]
    | some o =>
      rw [hobject] at hy
      exact Fields.nodup_put hy
  · exact hy

/-! ### Kinds -/

/-- Two values of one kind. -/
theorem comparedAs_cases (hkind : a.comparedAs = b.comparedAs) :
    (∃ x y, a = .list x ∧ b = .list y) ∨ (∃ x y, a = .object x ∧ b = .object y) ∨
      (∃ x y, a = .host x ∧ b = .host y) ∨
      (∃ x y, a.asNumber? = some x ∧ b.asNumber? = some y) ∨ (a.isLeaf ∧ b.isLeaf) := by
  cases a <;> cases b <;>
    simp_all [Value.comparedAs, Value.asNumber?, Value.typeName, Value.isLeaf, Value.isCallable]

theorem asNumber?_of_isLeaf (hleaf : a.isLeaf) : a.asNumber? = none := by
  cases a <;> simp_all [Value.isLeaf, Value.isCallable, Value.asNumber?]

theorem equalAtoms_of_numbers {x y : Float} (hx : a.asNumber? = some x)
    (hy : b.asNumber? = some y) : h.equalAtoms a b = (x == y) := by
  cases a <;> cases b <;> simp_all [Value.asNumber?, equalAtoms]

theorem equalAtoms_of_leaves (ha : a.isLeaf) (hb : b.isLeaf) : h.equalAtoms a b = (a == b) := by
  cases a <;> cases b <;> simp_all [Value.isLeaf, Value.isCallable, equalAtoms, Value.asNumber?]

theorem equalAtoms_of_kinds (hkinds : a.comparedAs ≠ b.comparedAs) : h.equalAtoms a b = false := by
  cases a <;> cases b <;>
    simp_all [Value.comparedAs, Value.asNumber?, Value.typeName, equalAtoms]

/-- Only lists and objects have parts, and places of the two are not the same. -/
theorem part?_cases {place : Place} (ha : h.part? a place = some v)
    (hb : h.part? b place = some w) :
    (∃ x y, a = .list x ∧ b = .list y) ∨ ∃ x y, a = .object x ∧ b = .object y := by
  cases a <;> cases b <;> cases place <;> simp_all [part?]

/-! ### Distinguished pairs -/

theorem Distinguished.symm (hdist : h.Distinguished a b) : h.Distinguished b a := by
  cases hdist with
  | kinds hkinds => exact .kinds hkinds.symm
  | numbers hv hw hne => exact .numbers hw hv (Number.beq_comm ▸ hne)
  | leaves hv hw hne => exact .leaves hw hv hne.symm
  | lengths hsize => exact .lengths hsize.symm
  | instances hne hcls => exact .instances hne.symm hcls.symm
  | names hname => exact .names hname.symm

/-- Only what is not a number can be told apart from itself. -/
theorem distinguished_self_iff :
    h.Distinguished a a ↔ ∃ x, a.asNumber? = some x ∧ x.isNaN = true := by
  constructor
  · intro hdist
    cases hdist with
    | kinds hkinds => exact absurd rfl hkinds
    | leaves _ _ hne => exact absurd rfl hne
    | lengths hsize => exact absurd rfl hsize
    | instances hne => exact absurd rfl hne
    | names hname => exact absurd rfl hname
    | numbers hv hw hne =>
      rename_i x y
      obtain rfl : x = y := Option.some.inj (hv.symm.trans hw)
      refine ⟨x, hv, ?_⟩
      rw [← Bool.not_eq_false, ← Number.beq_self_iff, hne]
      exact Bool.false_ne_true
  · rintro ⟨x, hx, hnan⟩
    refine .numbers hx hx ?_
    rw [← Bool.not_eq_true, Number.beq_self_iff, hnan]
    exact Bool.noConfusion

/-- What tells two values apart tells one of them apart from any third. -/
theorem Distinguished.between (hdist : h.Distinguished a c) (b : Value) :
    h.Distinguished a b ∨ h.Distinguished b c := by
  by_cases hab : a.comparedAs = b.comparedAs
  swap
  · exact .inl (.kinds hab)
  by_cases hbc : b.comparedAs = c.comparedAs
  swap
  · exact .inr (.kinds hbc)
  cases hdist with
  | kinds hkinds => exact absurd (hab.trans hbc) hkinds
  | @numbers _ _ x z hx hz hne =>
    rcases comparedAs_cases hab with ⟨_, _, rfl, -⟩ | ⟨_, _, rfl, -⟩ | ⟨_, _, rfl, -⟩ |
      ⟨_, y, -, hy⟩ | ⟨hleaf, -⟩
    · cases hx
    · cases hx
    · cases hx
    · cases hxy : x == y with
      | false => exact .inl (.numbers hx hy hxy)
      | true =>
        refine .inr (.numbers hy hz ?_)
        by_contra hyz
        rw [Number.beq_trans hxy (Bool.not_eq_false _ ▸ hyz)] at hne
        cases hne
    · rw [asNumber?_of_isLeaf hleaf] at hx
      cases hx
  | leaves ha hc hne =>
    rcases comparedAs_cases hab with ⟨_, _, rfl, -⟩ | ⟨_, _, rfl, -⟩ | ⟨_, _, rfl, -⟩ |
      ⟨_, _, hx, -⟩ | ⟨-, hb⟩
    · cases ha
    · cases ha
    · cases ha
    · rw [asNumber?_of_isLeaf ha] at hx
      cases hx
    · by_cases heq : a = b
      · exact .inr (.leaves hb hc (heq ▸ hne))
      · exact .inl (.leaves ha hb heq)
  | @lengths x z hsize =>
    obtain ⟨y, rfl⟩ : ∃ y, b = .list y := by
      cases b <;> simp_all [Value.comparedAs, Value.asNumber?, Value.typeName]
    by_cases hxy : (h.list x).size = (h.list y).size
    · exact .inr (.lengths (hxy ▸ hsize))
    · exact .inl (.lengths hxy)
  | @instances x z hne hcls =>
    obtain ⟨y, rfl⟩ : ∃ y, b = .object y := by
      cases b <;> simp_all [Value.comparedAs, Value.asNumber?, Value.typeName]
    by_cases hxy : x = y
    · subst hxy
      exact .inr (.instances hne hcls)
    by_cases hyz : y = z
    · subst hyz
      exact .inl (.instances hne hcls)
    · rcases hcls with hx | hz
      · exact .inl (.instances hxy (.inl hx))
      · exact .inr (.instances hyz (.inr hz))
  | @names x z name hname =>
    obtain ⟨y, rfl⟩ : ∃ y, b = .object y := by
      cases b <;> simp_all [Value.comparedAs, Value.asNumber?, Value.typeName]
    by_cases hxy : ((h.object x).fields.get? name).isSome = ((h.object y).fields.get? name).isSome
    · exact .inr (.names (hxy ▸ hname))
    · exact .inl (.names hxy)

/-- Where a place is there in one of two lists or objects only, the two can be told apart. -/
theorem distinguished_of_part? {place : Place} (hkind : a.comparedAs = b.comparedAs)
    (ha : h.part? a place = some v) (hb : h.part? b place = none) : h.Distinguished a b := by
  rcases comparedAs_cases hkind with ⟨x, y, rfl, rfl⟩ | ⟨x, y, rfl, rfl⟩ | ⟨_, _, rfl, -⟩ |
    ⟨_, _, hx, -⟩ | ⟨hleaf, -⟩
  · refine .lengths fun hsize => ?_
    cases place with
    | field name => cases ha
    | item i =>
      simp only [part?] at ha hb
      rw [Array.getElem?_eq_none_iff, ← hsize, ← Array.getElem?_eq_none_iff, ha] at hb
      cases hb
  · cases place with
    | item i => cases ha
    | field name =>
      simp only [part?] at ha hb
      have hdiffer : ((h.object x).fields.get? name).isSome ≠
          ((h.object y).fields.get? name).isSome := by
        rw [ha, hb]
        exact Bool.noConfusion
      exact .names hdiffer
  · cases place <;> cases ha
  · cases a <;> cases place <;> simp_all [part?, Value.asNumber?]
  · cases a <;> cases place <;> simp_all [part?, Value.isLeaf, Value.isCallable]

theorem hostEqual_self (h : Heap) (x : HostId) : h.hostEqual x x = true := by
  simp [hostEqual, hostEqualWithin]

/-- Only what is not a number differs from itself. -/
theorem differ_self_iff : h.Differ a a ↔ ∃ x, a.asNumber? = some x ∧ x.isNaN = true := by
  rw [← distinguished_self_iff]
  constructor
  · intro hdiffer
    cases hdiffer with
    | told hdist => exact hdist
    | hosts hxy => rw [hostEqual_self] at hxy; cases hxy
  · exact .told

/-! ### Apartness -/

theorem Leads.symm {path : List Place} (hleads : h.Leads path a b v w) :
    h.Leads path b a w v := by
  induction hleads with
  | here => exact .here
  | into hne hv hw _ ih => exact .into hne.symm hw hv ih

theorem Leads.reaches {path : List Place} (hleads : h.Leads path a b v w) : h.Reaches a v := by
  induction hleads with
  | here => exact .here
  | into _ hv _ _ ih => exact .into hv ih

theorem Apart.symm (hapart : h.Apart a b) : h.Apart b a := by
  obtain ⟨path, v, w, hleads, hdist⟩ := hapart
  exact ⟨path, w, v, hleads.symm, hdist.symm⟩

theorem apart_self_iff : h.Apart a a ↔ ∃ x, a.asNumber? = some x ∧ x.isNaN = true := by
  rw [← distinguished_self_iff]
  constructor
  · rintro ⟨path, v, w, hleads, hdist⟩
    cases hleads with
    | here => exact hdist
    | into hne => exact absurd rfl hne
  · exact .here

/-- Values that are apart are not both near to a third. The path is followed from the third value as
long as its places are there. -/
theorem Apart.between (hapart : h.Apart a c) (b : Value) : h.Apart a b ∨ h.Apart b c := by
  obtain ⟨path, v, w, hleads, hdist⟩ := hapart
  induction hleads generalizing b with
  | here => exact (hdist.between b).imp .here .here
  | @into place path a c a' c' v w hne ha hc hrest ih =>
    by_cases hab : a = b
    · subst hab
      exact .inr (.into hne ha hc ⟨path, v, w, hrest, hdist⟩)
    by_cases hbc : b = c
    · subst hbc
      exact .inl (.into hne ha hc ⟨path, v, w, hrest, hdist⟩)
    by_cases hkind : a.comparedAs = b.comparedAs
    swap
    · exact .inl (.here (.kinds hkind))
    cases hb : h.part? b place with
    | none => exact .inl (.here (distinguished_of_part? hkind ha hb))
    | some b' =>
      rcases ih b' hdist with hnear | hfar
      · exact .inl (.into hab ha hb hnear)
      · exact .inr (.into hbc hb hc hfar)

/-! ## What a comparison asks for -/

/-- The parts are what lies at the same places of two different values; one is missing exactly if
the two can be told apart. -/
structure AsksFor (h : Heap) (a b : Value) (parts : Parts) : Prop where
  ne : a ≠ b
  places : ∀ v w, some (v, w) ∈ parts → ∃ place, h.part? a place = some v ∧ h.part? b place = some w
  complete : ∀ place v w, h.part? a place = some v → h.part? b place = some w →
    some (v, w) ∈ parts
  missing : none ∈ parts ↔ h.Distinguished a b

theorem asksFor_lists {x y : ListId} (hxy : x ≠ y) (hsize : (h.list x).size = (h.list y).size) :
    h.AsksFor (.list x) (.list y) (((h.list x).toList.zip (h.list y).toList).map some) where
  ne heq := hxy (Value.list.inj heq)
  places v w hmem := by
    obtain ⟨p, hp, hsome⟩ := List.mem_map.mp hmem
    obtain rfl := Option.some.inj hsome
    obtain ⟨i, hi⟩ := List.mem_iff_getElem?.mp hp
    rw [List.getElem?_zip_eq_some, Array.getElem?_toList, Array.getElem?_toList] at hi
    exact ⟨.item i, hi⟩
  complete place v w hv hw := by
    cases place with
    | field name => cases hv
    | item i =>
      refine List.mem_map_of_mem (List.mem_iff_getElem?.mpr ⟨i, ?_⟩)
      rw [List.getElem?_zip_eq_some, Array.getElem?_toList, Array.getElem?_toList]
      exact ⟨hv, hw⟩
  missing := by
    constructor
    · simp
    · intro hdist
      cases hdist with
      | kinds hkinds => exact absurd rfl hkinds
      | numbers hv => cases hv
      | leaves hv => cases hv
      | lengths hne => exact absurd hsize hne

theorem asksFor_objects (hd : h.DistinctFields) {x y : ObjectId} (hxy : x ≠ y)
    (hx : (h.object x).cls = none) (hy : (h.object y).cls = none)
    (hlength : (h.object x).fields.length = (h.object y).fields.length) :
    h.AsksFor (.object x) (.object y) ((h.object x).fields.map fun field =>
      ((h.object y).fields.get? field.1).map fun w => (field.2, w)) where
  ne heq := hxy (Value.object.inj heq)
  places v w hmem := by
    obtain ⟨⟨name, v'⟩, hfield, hsome⟩ := List.mem_map.mp hmem
    obtain ⟨w', hw, heq⟩ := Option.map_eq_some_iff.mp hsome
    cases heq
    exact ⟨.field name, Fields.get?_of_mem (hd x) hfield, hw⟩
  complete place v w hv hw := by
    cases place with
    | item i => cases hv
    | field name =>
      refine List.mem_map.mpr ⟨(name, v), Fields.mem_of_get? hv, ?_⟩
      simp only [part?] at hw
      simp only [hw, Option.map_some]
  missing := by
    rw [List.mem_map]
    constructor
    · rintro ⟨⟨name, v⟩, hfield, hnone⟩
      have hdiffer : ((h.object x).fields.get? name).isSome ≠
          ((h.object y).fields.get? name).isSome := by
        rw [Fields.get?_of_mem (hd x) hfield, Option.map_eq_none_iff.mp hnone]
        exact Bool.noConfusion
      exact .names hdiffer
    · intro hdist
      cases hdist with
      | kinds hkinds => exact absurd rfl hkinds
      | numbers hv => cases hv
      | leaves hv => cases hv
      | instances _ hcls => simp [hx, hy] at hcls
      | names hname =>
        by_contra hall
        refine hname (Fields.isSome_get?_eq (hd x) hlength (fun name hmem => ?_) _)
        obtain ⟨field, hfield, rfl⟩ := List.mem_map.mp hmem
        by_contra hlacks
        rw [← Fields.isSome_get?, Option.not_isSome_iff_eq_none] at hlacks
        exact hall ⟨field, hfield, by rw [hlacks]; rfl⟩

theorem asksFor_of_look (hd : h.DistinctFields) {parts : Parts}
    (hlook : h.look assumed a b = .ok parts) : h.AsksFor a b parts := by
  rcases look_eq_ok hlook with ⟨x, y, rfl, rfl, hlook⟩ | ⟨x, y, rfl, rfl, hlook⟩
  · obtain ⟨hxy, -, hsize, rfl⟩ := lookLists_eq_ok.mp hlook
    exact asksFor_lists hxy hsize
  · obtain ⟨hxy, hx, hy, -, hlength, rfl⟩ := lookObjects_eq_ok.mp hlook
    exact asksFor_objects hd hxy hx hy hlength

/-- From values that are found equal at once, and not because they are assumed to be, no path leads
to a pair that differs. -/
theorem not_differ_of_look (hlook : h.look assumed a b = .error true) :
    (a, b) ∈ assumed ∨ ∀ path v w, h.Leads path a b v w → ¬ h.Differ v w := by
  have hself (hno : a.asNumber? = none) :
      ∀ path v w, h.Leads path a a v w → ¬ h.Differ v w := by
    intro path v w hleads hdiffer
    cases hleads with
    | into hne => exact hne rfl
    | here =>
      obtain ⟨x, hx, -⟩ := differ_self_iff.mp hdiffer
      rw [hno] at hx
      cases hx
  rcases look_eq_error hlook with ⟨x, y, rfl, rfl, hlook⟩ | ⟨x, y, rfl, rfl, hlook⟩ |
    ⟨hlists, hobjects, hatoms⟩
  · rcases lookLists_eq_true.mp hlook with rfl | hmem
    · exact .inr (hself rfl)
    · exact .inl hmem
  · rcases lookObjects_eq_true hlook with rfl | hmem
    · exact .inr (hself rfl)
    · exact .inl hmem
  · refine .inr fun path v w hleads hdiffer => ?_
    cases hleads with
    | into _ hv hw =>
      rcases part?_cases hv hw with ⟨x, y, rfl, rfl⟩ | ⟨x, y, rfl, rfl⟩
      · exact hlists x y rfl rfl
      · exact hobjects x y rfl rfl
    | here =>
      cases hdiffer with
      | hosts hxy => exact absurd hatoms (by simp [equalAtoms, hxy])
      | told hdist =>
        cases hdist with
        | kinds hkinds =>
          rw [equalAtoms_of_kinds hkinds] at hatoms
          cases hatoms
        | numbers hx hy hne =>
          rw [equalAtoms_of_numbers hx hy, hne] at hatoms
          cases hatoms
        | leaves ha hb hne =>
          rw [equalAtoms_of_leaves ha hb, beq_iff_eq] at hatoms
          exact hne hatoms
        | lengths => exact hlists _ _ rfl rfl
        | instances => exact hobjects _ _ rfl rfl
        | names => exact hobjects _ _ rfl rfl

/-- Values that are found unequal at once differ. -/
theorem differ_of_look (hd : h.DistinctFields) (hlook : h.look assumed a b = .error false) :
    h.Differ a b := by
  rcases look_eq_error hlook with ⟨x, y, rfl, rfl, hlook⟩ | ⟨x, y, rfl, rfl, hlook⟩ |
    ⟨hlists, hobjects, hatoms⟩
  · exact .told (.lengths (lookLists_eq_false hlook).2)
  · obtain ⟨hxy, hcls | hcls | hlength⟩ := lookObjects_eq_false hlook
    · exact .told (.instances hxy (.inl hcls))
    · exact .told (.instances hxy (.inr hcls))
    · obtain ⟨name, hname⟩ := Fields.exists_isSome_get?_ne (hd x) (hd y) hlength
      exact .told (.names hname)
  · by_cases hkind : a.comparedAs = b.comparedAs
    swap
    · exact .told (.kinds hkind)
    rcases comparedAs_cases hkind with ⟨x, y, ha, hb⟩ | ⟨x, y, ha, hb⟩ | ⟨x, y, rfl, rfl⟩ |
      ⟨x, y, hx, hy⟩ | ⟨ha, hb⟩
    · exact absurd hb (hlists x y ha)
    · exact absurd hb (hobjects x y ha)
    · exact .hosts hatoms
    · rw [equalAtoms_of_numbers hx hy] at hatoms
      exact .told (.numbers hx hy hatoms)
    · rw [equalAtoms_of_leaves ha hb, beq_eq_false_iff_ne] at hatoms
      exact .told (.leaves ha hb hatoms)

/-! ## Equality and apartness -/

/-- A comparison that answers no has found a path to a difference. -/
theorem Compares.exists_differ {answer : Bool} (hd : h.DistinctFields)
    (hc : Compares h assumed a b answer) (hanswer : answer = false) :
    ∃ path v w, h.Leads path a b v w ∧ h.Differ v w := by
  induction hc with
  | settled hlook =>
    subst hanswer
    exact ⟨[], _, _, .here, differ_of_look hd hlook⟩
  | same => cases hanswer
  | missing hlook =>
    exact ⟨[], _, _, .here, .told ((asksFor_of_look hd hlook).missing.mp (by simp))⟩
  | differ hlook _ _ _ ih =>
    have hasks := asksFor_of_look hd hlook
    obtain ⟨place, hv, hw⟩ := hasks.places _ _ (List.mem_append_right _ List.mem_cons_self)
    obtain ⟨path, v', w', hleads, hdiffer⟩ := ih rfl
    exact ⟨place :: path, v', w', .into hasks.ne hv hw hleads, hdiffer⟩

/-- Some path of no more than `n` places leads to a pair that differs. -/
def DifferWithin (h : Heap) (n : Nat) (a b : Value) : Prop :=
  ∃ path v w, path.length ≤ n ∧ h.Leads path a b v w ∧ h.Differ v w

theorem DifferWithin.mono {n m : Nat} (hnm : n ≤ m) (hdiffer : h.DifferWithin n a b) :
    h.DifferWithin m a b := by
  obtain ⟨path, v, w, hlength, hrest⟩ := hdiffer
  exact ⟨path, v, w, hlength.trans hnm, hrest⟩

/-- A comparison that answers yes has overlooked no path to a difference, if what it takes for equal
has none that is as short. -/
theorem Compares.not_differWithin (hd : h.DistinctFields) (n : Nat)
    (hc : Compares h assumed a b true) (hassumed : ∀ p ∈ assumed, ¬ h.DifferWithin n p.1 p.2) :
    ¬ h.DifferWithin n a b := by
  -- A path to a difference goes through a part. From there it is shorter, and for shorter paths the
  -- pair itself is known to have none, so that it may join what is taken for equal.
  induction n using Nat.strong_induction_on generalizing assumed a b with
  | _ n ih =>
    rintro ⟨path, v, w, hlength, hleads, hdiffer⟩
    cases hc with
    | settled hlook =>
      rcases not_differ_of_look hlook with hmem | hnear
      · exact hassumed _ hmem ⟨path, v, w, hlength, hleads, hdiffer⟩
      · exact hnear path v w hleads hdiffer
    | same hlook hsame =>
      have hasks := asksFor_of_look hd hlook
      cases hleads with
      | here =>
        cases hdiffer with
        | told hdist =>
          have hnone := hasks.missing.mpr hdist
          simp at hnone
        | hosts => cases hlook
      | @into place path _ _ v' w' _ _ hne hv hw hrest =>
        have hless : path.length < n := hlength
        have hshorter : ∀ p ∈ assumed, ¬ h.DifferWithin path.length p.1 p.2 :=
          fun p hp hwithin => hassumed p hp (hwithin.mono hless.le)
        have hpair : ¬ h.DifferWithin path.length a b :=
          ih path.length hless (.same hlook hsame) hshorter
        obtain ⟨p, hp, hsome⟩ := List.mem_map.mp (hasks.complete place v' w' hv hw)
        obtain rfl := Option.some.inj hsome
        refine ih path.length hless (hsame _ hp) (fun q hq => ?_) ⟨path, v, w, le_rfl, hrest,
          hdiffer⟩
        rcases List.mem_cons.mp hq with rfl | hq
        · exact hpair
        · exact hshorter q hq

/-- Values are unequal exactly if some path leads from them to a pair that differs. -/
theorem equal_eq_false_iff_differ (hd : h.DistinctFields) :
    h.equal a b = false ↔ ∃ path v w, h.Leads path a b v w ∧ h.Differ v w := by
  constructor
  · exact (compares_equal h a b).exists_differ hd
  · rintro ⟨path, v, w, hrest⟩
    by_contra htrue
    have hc := compares_equal h a b
    rw [Bool.not_eq_false] at htrue
    rw [htrue] at hc
    exact hc.not_differWithin hd path.length (List.forall_mem_nil _) ⟨path, v, w, le_rfl, hrest⟩

/-- Values that hold no host objects are unequal exactly if some path leads from them to a pair that
can be told apart. -/
theorem equal_eq_false_iff (hd : h.DistinctFields) (hfree : h.HostFree a) :
    h.equal a b = false ↔ h.Apart a b := by
  rw [equal_eq_false_iff_differ hd]
  constructor
  · rintro ⟨path, v, w, hleads, hdiffer⟩
    cases hdiffer with
    | told hdist => exact ⟨path, v, w, hleads, hdist⟩
    | hosts => exact absurd hleads.reaches (hfree _)
  · rintro ⟨path, v, w, hleads, hdist⟩
    exact ⟨path, v, w, hleads, .told hdist⟩

theorem equal_eq_true_iff (hd : h.DistinctFields) (hfree : h.HostFree a) :
    h.equal a b = true ↔ ¬ h.Apart a b := by
  rw [← equal_eq_false_iff hd hfree, Bool.not_eq_false]

/-- **Equality is bisimilarity.** It comes to an answer whatever contains itself, and answers no
exactly if some path of positions and field names leads to a pair that can be told apart. So a
value equals itself unless it is not a number, and equality is symmetric and transitive. -/
theorem equality_is_bisimilarity (h : Heap) (hd : h.DistinctFields) :
    (∀ a b, Compares h [] a b (h.equal a b)) ∧
      (∀ a b, h.HostFree a → h.HostFree b → (h.equal a b = false ↔ h.Apart a b)) ∧
      (∀ a, h.HostFree a →
        (h.equal a a = true ↔ ∀ x, a.asNumber? = some x → x.isNaN = false)) ∧
      (∀ a b, h.HostFree a → h.HostFree b → h.equal a b = h.equal b a) ∧
      (∀ a b c, h.HostFree a → h.HostFree b → h.HostFree c →
        h.equal a b = true → h.equal b c = true → h.equal a c = true) := by
  refine ⟨compares_equal h, fun a b ha _ => equal_eq_false_iff hd ha, fun a ha => ?_,
    fun a b ha hb => ?_, fun a b c ha hb _ hab hbc => ?_⟩
  · rw [equal_eq_true_iff hd ha, apart_self_iff, not_exists]
    refine forall_congr' fun x => ?_
    rw [not_and, Bool.not_eq_true]
  · rw [Bool.eq_iff_iff, equal_eq_true_iff hd ha, equal_eq_true_iff hd hb]
    exact not_congr ⟨Apart.symm, Apart.symm⟩
  · rw [equal_eq_true_iff hd ha] at hab ⊢
    rw [equal_eq_true_iff hd hb] at hbc
    intro hac
    rcases hac.between b with hapart | hapart
    · exact hab hapart
    · exact hbc hapart

/-- Where no host object is stored, no other value holds one. -/
theorem hostFree_of_stored (hlists : ∀ items ∈ h.lists, ∀ w ∈ items, ¬ w.isHost)
    (hobjects : ∀ o ∈ h.objects, ∀ field ∈ o.fields, ¬ field.2.isHost) (hv : ¬ v.isHost) :
    h.HostFree v := by
  have hpart {place : Place} {v w : Value} (hw : h.part? v place = some w) : ¬ w.isHost := by
    cases v with
    | list x =>
      cases place with
      | field name => cases hw
      | item i =>
        by_cases hx : x.index < h.lists.size
        · simp only [part?, list, Array.getD, hx, ↓reduceDIte] at hw
          exact hlists _ (Array.getElem_mem hx) _ (Array.mem_of_getElem? hw)
        · simp [part?, list_of_size_le (Nat.not_lt.mp hx)] at hw
    | object x =>
      cases place with
      | item i => cases hw
      | field name =>
        by_cases hx : x.index < h.objects.size
        · simp only [part?, object, Array.getD, hx, ↓reduceDIte] at hw
          exact hobjects _ (Array.getElem_mem hx) _ (Fields.mem_of_get? hw)
        · simp [part?, object_of_size_le (Nat.not_lt.mp hx), Fields.get?] at hw
    | _ => cases place <;> cases hw
  intro id hreach
  generalize hw : Value.host id = w at hreach
  induction hreach with
  | here => exact hv (hw ▸ rfl)
  | into hstored _ ih => exact ih (hpart hstored) hw

/-- Two objects that contain themselves and have their fields in different orders. -/
def rings : Heap :=
  let first := Heap.initial.addObject
    ⟨none, Fields.ofPairs [("me", .null), ("items", .list ⟨0⟩)], []⟩
  let second := first.2.addObject
    ⟨none, Fields.ofPairs [("items", .list ⟨1⟩), ("me", .object ⟨1⟩)], []⟩
  second.2.putField first.1 "me" (.object first.1)

/-- The two objects with their lists, which contain themselves as well, and one list that does
not. -/
def loops : Heap :=
  { rings with
    lists := #[#[.string "a", .list ⟨0⟩], #[.string "a", .list ⟨1⟩], #[.string "a", .null]] }

theorem loops_distinctFields : loops.DistinctFields :=
  ((distinctFields_initial.addObject (Fields.nodup_ofPairs _)).addObject
    (Fields.nodup_ofPairs _)).putField

theorem loops_hostFree (hv : ¬ v.isHost) : loops.HostFree v :=
  hostFree_of_stored (by decide) (by decide) hv

/-- The objects that contain themselves are equal, and a list that does is apart from one that does
not. -/
theorem equality_is_bisimilarity_cyclic :
    loops.DistinctFields ∧ loops.equal (.object ⟨0⟩) (.object ⟨1⟩) = true ∧
      ¬ loops.Apart (.object ⟨0⟩) (.object ⟨1⟩) ∧ loops.Apart (.list ⟨0⟩) (.list ⟨2⟩) := by
  have hiff := (equality_is_bisimilarity loops loops_distinctFields).2.1
  have hequal : loops.equal (.object ⟨0⟩) (.object ⟨1⟩) = true := by decide +kernel
  have hunequal : loops.equal (.list ⟨0⟩) (.list ⟨2⟩) = false := by decide +kernel
  refine ⟨loops_distinctFields, hequal, fun hapart => ?_, ?_⟩
  · rw [← hiff _ _ (loops_hostFree (by decide)) (loops_hostFree (by decide)), hequal] at hapart
    cases hapart
  · exact (hiff _ _ (loops_hostFree (by decide)) (loops_hostFree (by decide))).mp hunequal

end Heap

end ScriptEngine
