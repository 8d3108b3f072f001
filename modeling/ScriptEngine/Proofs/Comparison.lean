import Mathlib.Data.Finset.Card
import Mathlib.Data.Finset.Prod
import ScriptEngine.Value.Equality
/-!
# How values are compared

A comparison answers at once, or it asks for parts to be compared, one after another up to the
first that differ; below it the two values are taken for equal. It always comes to an answer: each
comparison inside another is of a pair of containers that is not assumed yet, and there are
finitely many.

* `Heap.look` : what a comparison does first; `Heap.equalWithin_succ` says that it does no more.
* `Heap.Compares` : the comparisons that come to an answer, without a bound on how they nest.
* `Heap.compares_equal` : equality is the answer of a comparison.
-/

namespace ScriptEngine

namespace Heap

variable {h : Heap} {assumed : List (Value × Value)} {a b v w : Value}

/-! ## One step of a comparison -/

/-- Parts to compare; where the second value lacks a part there is nothing to compare. -/
abbrev Parts := List (Option (Value × Value))

/-- What the comparison of two lists does first. -/
def lookLists (h : Heap) (assumed : List (Value × Value)) (x y : ListId) : Except Bool Parts :=
  if x = y ∨ (.list x, .list y) ∈ assumed then .error true
  else if (h.list x).size = (h.list y).size then
    .ok (((h.list x).toList.zip (h.list y).toList).map some)
  else .error false

/-- What the comparison of two objects does first. -/
def lookObjects (h : Heap) (assumed : List (Value × Value)) (x y : ObjectId) : Except Bool Parts :=
  if x = y then .error true
  else if (h.object x).cls.isSome ∨ (h.object y).cls.isSome then .error false
  else if (.object x, .object y) ∈ assumed then .error true
  else if (h.object x).fields.length = (h.object y).fields.length then
    .ok ((h.object x).fields.map fun field =>
      ((h.object y).fields.get? field.1).map fun w => (field.2, w))
  else .error false

/-- Whether two values are equal that are not two lists or two objects. -/
def equalAtoms (h : Heap) (a b : Value) : Bool :=
  match a, b with
  | .host x, .host y => h.hostEqual x y
  | a, b =>
    match a.asNumber?, b.asNumber? with
    | some x, some y => x == y
    | _, _ => a == b

/-- What a comparison does first: it answers, or it asks for parts to be compared. -/
def look (h : Heap) (assumed : List (Value × Value)) (a b : Value) : Except Bool Parts :=
  match a, b with
  | .list x, .list y => h.lookLists assumed x y
  | .object x, .object y => h.lookObjects assumed x y
  | a, b => .error (h.equalAtoms a b)

/-- Whether every part is there and the same. -/
def allSame (same : Value → Value → Bool) (parts : Parts) : Bool :=
  parts.all fun part =>
    match part with
    | some (v, w) => same v w
    | none => false

/-- The answer at once, or whether the parts are the same. -/
def answerOf (same : Value → Value → Bool) : Except Bool Parts → Bool
  | .error answer => answer
  | .ok parts => allSame same parts

theorem equalWithin_lists (levels : Nat) (x y : ListId) :
    h.equalWithin (levels + 1) assumed (.list x) (.list y) =
      answerOf (h.equalWithin levels ((.list x, .list y) :: assumed))
        (h.lookLists assumed x y) := by
  unfold lookLists
  split_ifs with hsame hsize
  · rcases hsame with hxy | hmem
    · simp [equalWithin, answerOf, hxy]
    · simp [equalWithin, answerOf, hmem]
  · obtain ⟨hxy, hmem⟩ := not_or.mp hsame
    simp [equalWithin, answerOf, allSame, hxy, hmem, hsize, Function.comp_def]
  · obtain ⟨hxy, hmem⟩ := not_or.mp hsame
    simp [equalWithin, answerOf, hxy, hmem, hsize]

theorem equalWithin_objects (levels : Nat) (x y : ObjectId) :
    h.equalWithin (levels + 1) assumed (.object x) (.object y) =
      answerOf (h.equalWithin levels ((.object x, .object y) :: assumed))
        (h.lookObjects assumed x y) := by
  unfold lookObjects
  split_ifs with hxy hcls hmem hlength
  · simp [equalWithin, answerOf, hxy]
  · rcases hcls with hcls | hcls <;>
      simp [equalWithin, answerOf, hxy, Option.isNone_eq_false_iff.mpr hcls]
  all_goals
    obtain ⟨hx, hy⟩ := not_or.mp hcls
    rw [Option.not_isSome_iff_eq_none] at hx hy
  · simp [equalWithin, answerOf, hx, hy, hmem]
  · simp only [equalWithin, answerOf, allSame, hx, hy, hlength, List.all_map]
    simp only [hmem, beq_false_of_ne hxy, List.elem_eq_mem, decide_false, beq_self_eq_true,
      Option.isNone_none, Bool.false_or, Bool.true_and]
    refine congrArg (List.all _) (funext fun field => ?_)
    rw [Function.comp]
    cases (h.object y).fields.get? field.1 <;> rfl
  · simp [equalWithin, answerOf, hxy, hx, hy, hmem, hlength]

/-- A comparison does what it does first, and then compares the parts it asks for. -/
theorem equalWithin_succ (levels : Nat) :
    h.equalWithin (levels + 1) assumed a b =
      answerOf (h.equalWithin levels ((a, b) :: assumed)) (h.look assumed a b) := by
  cases a <;> cases b <;>
    first
    | exact equalWithin_lists levels _ _
    | exact equalWithin_objects levels _ _
    | simp [equalWithin, look, answerOf, equalAtoms, equalNumbers, Value.asNumber?]
  all_goals
    rw [Bool.eq_iff_iff]
    simp [and_comm]

/-! ### What a comparison can do first -/

theorem lookLists_eq_ok {x y : ListId} {parts : Parts} :
    h.lookLists assumed x y = .ok parts ↔ x ≠ y ∧ (.list x, .list y) ∉ assumed ∧
      (h.list x).size = (h.list y).size ∧
      parts = ((h.list x).toList.zip (h.list y).toList).map some := by
  unfold lookLists
  split_ifs with hsame hsize
  · simp only [false_iff]
    rintro ⟨hxy, hmem, -⟩
    exact hsame.elim hxy hmem
  · rw [not_or] at hsame
    simp [hsame, hsize, eq_comm]
  · simp [hsize]

theorem lookLists_eq_true {x y : ListId} :
    h.lookLists assumed x y = .error true ↔ x = y ∨ (.list x, .list y) ∈ assumed := by
  unfold lookLists
  split_ifs with hsame hsize <;> simp [hsame]

theorem lookLists_eq_false {x y : ListId} (hlook : h.lookLists assumed x y = .error false) :
    x ≠ y ∧ (h.list x).size ≠ (h.list y).size := by
  unfold lookLists at hlook
  split_ifs at hlook with hsame hsize
  · cases hlook
  · exact ⟨(not_or.mp hsame).1, hsize⟩

theorem lookObjects_eq_ok {x y : ObjectId} {parts : Parts} :
    h.lookObjects assumed x y = .ok parts ↔ x ≠ y ∧ (h.object x).cls = none ∧
      (h.object y).cls = none ∧ (.object x, .object y) ∉ assumed ∧
      (h.object x).fields.length = (h.object y).fields.length ∧
      parts = (h.object x).fields.map fun field =>
        ((h.object y).fields.get? field.1).map fun w => (field.2, w) := by
  unfold lookObjects
  split_ifs with hxy hcls hmem hlength
  · simp [hxy]
  · simp only [false_iff]
    rintro ⟨-, hx, hy, -⟩
    simp [hx, hy] at hcls
  · simp [hmem]
  · simp only [not_or, Option.not_isSome_iff_eq_none] at hcls
    simp [hxy, hcls, hmem, hlength, eq_comm]
  · simp [hlength]

theorem lookObjects_eq_true {x y : ObjectId} (hlook : h.lookObjects assumed x y = .error true) :
    x = y ∨ (.object x, .object y) ∈ assumed := by
  unfold lookObjects at hlook
  split_ifs at hlook with hxy hcls hmem hlength
  · exact .inl hxy
  · cases hlook
  · exact .inr hmem
  · cases hlook

theorem lookObjects_eq_false {x y : ObjectId} (hlook : h.lookObjects assumed x y = .error false) :
    x ≠ y ∧ ((h.object x).cls.isSome ∨ (h.object y).cls.isSome ∨
      (h.object x).fields.length ≠ (h.object y).fields.length) := by
  unfold lookObjects at hlook
  split_ifs at hlook with hxy hcls hmem hlength
  · cases hlook
  · exact ⟨hxy, hcls.imp_right .inl⟩
  · cases hlook
  · exact ⟨hxy, .inr (.inr hlength)⟩

/-- Only two lists or two objects are looked into. -/
theorem look_eq_ok {parts : Parts} (hlook : h.look assumed a b = .ok parts) :
    (∃ x y, a = .list x ∧ b = .list y ∧ h.lookLists assumed x y = .ok parts) ∨
      ∃ x y, a = .object x ∧ b = .object y ∧ h.lookObjects assumed x y = .ok parts := by
  unfold look at hlook
  split at hlook
  · next x y => exact .inl ⟨x, y, rfl, rfl, hlook⟩
  · next x y => exact .inr ⟨x, y, rfl, rfl, hlook⟩
  · cases hlook

theorem look_eq_error {answer : Bool} (hlook : h.look assumed a b = .error answer) :
    (∃ x y, a = .list x ∧ b = .list y ∧ h.lookLists assumed x y = .error answer) ∨
      (∃ x y, a = .object x ∧ b = .object y ∧ h.lookObjects assumed x y = .error answer) ∨
      ((∀ x y, a = .list x → b ≠ .list y) ∧ (∀ x y, a = .object x → b ≠ .object y) ∧
        h.equalAtoms a b = answer) := by
  unfold look at hlook
  split at hlook
  · next x y => exact .inl ⟨x, y, rfl, rfl, hlook⟩
  · next x y => exact .inr (.inl ⟨x, y, rfl, rfl, hlook⟩)
  · next hlists hobjects => exact .inr (.inr ⟨hlists, hobjects, Except.error.inj hlook⟩)

/-- Lists of one size are taken for equal, or their items are asked for. -/
theorem look_lists_cases (assumed : List (Value × Value)) {x y : ListId}
    (hsize : (h.list x).size = (h.list y).size) : h.look assumed (.list x) (.list y) = .error true ∨
      h.look assumed (.list x) (.list y) =
        .ok (((h.list x).toList.zip (h.list y).toList).map some) := by
  by_cases hsame : x = y ∨ (.list x, .list y) ∈ assumed
  · exact .inl (lookLists_eq_true.mpr hsame)
  · obtain ⟨hxy, hnew⟩ := not_or.mp hsame
    exact .inr (lookLists_eq_ok.mpr ⟨hxy, hnew, hsize, rfl⟩)

/-- Plain objects with as many fields are taken for equal, or their fields are asked for. -/
theorem look_objects_cases (assumed : List (Value × Value)) {x y : ObjectId}
    (hx : (h.object x).cls = none) (hy : (h.object y).cls = none)
    (hlength : (h.object x).fields.length = (h.object y).fields.length) :
    h.look assumed (.object x) (.object y) = .error true ∨
      h.look assumed (.object x) (.object y) = .ok ((h.object x).fields.map fun field =>
        ((h.object y).fields.get? field.1).map fun w => (field.2, w)) := by
  by_cases hxy : x = y
  · exact .inl (by simp [look, lookObjects, hxy])
  by_cases hmem : (.object x, .object y) ∈ assumed
  · exact .inl (by simp [look, lookObjects, hx, hy, hmem])
  · exact .inr (lookObjects_eq_ok.mpr ⟨hxy, hx, hy, hmem, hlength, rfl⟩)

/-- What is looked into is not taken for equal. -/
theorem not_mem_of_look {parts : Parts} (hlook : h.look assumed a b = .ok parts) :
    (a, b) ∉ assumed := by
  rcases look_eq_ok hlook with ⟨x, y, rfl, rfl, hlook⟩ | ⟨x, y, rfl, rfl, hlook⟩
  · exact (lookLists_eq_ok.mp hlook).2.1
  · exact (lookObjects_eq_ok.mp hlook).2.2.2.1

/-! ## Comparisons without a bound -/

/-- The comparisons that come to an answer. Parts are compared one after another up to the first
that is missing or differs. -/
inductive Compares (h : Heap) : List (Value × Value) → Value → Value → Bool → Prop
  | settled {assumed : List (Value × Value)} {a b : Value} {answer : Bool}
      (hlook : h.look assumed a b = .error answer) : Compares h assumed a b answer
  | same {assumed ps : List (Value × Value)} {a b : Value}
      (hlook : h.look assumed a b = .ok (ps.map some))
      (hsame : ∀ p ∈ ps, Compares h ((a, b) :: assumed) p.1 p.2 true) : Compares h assumed a b true
  | missing {assumed ps : List (Value × Value)} {a b : Value} {rest : Parts}
      (hlook : h.look assumed a b = .ok (ps.map some ++ none :: rest))
      (hsame : ∀ p ∈ ps, Compares h ((a, b) :: assumed) p.1 p.2 true) : Compares h assumed a b false
  | differ {assumed ps : List (Value × Value)} {a b v w : Value} {rest : Parts}
      (hlook : h.look assumed a b = .ok (ps.map some ++ some (v, w) :: rest))
      (hsame : ∀ p ∈ ps, Compares h ((a, b) :: assumed) p.1 p.2 true)
      (hdiffer : Compares h ((a, b) :: assumed) v w false) : Compares h assumed a b false

/-- Either all parts are there and the same, or there is a first one that is missing or differs. -/
theorem allSame_cases (same : Value → Value → Bool) (parts : Parts) :
    ∃ ps : List (Value × Value), (∀ p ∈ ps, same p.1 p.2 = true) ∧
      ((parts = ps.map some ∧ allSame same parts = true) ∨
        ∃ rest, allSame same parts = false ∧ (parts = ps.map some ++ none :: rest ∨
          ∃ v w, parts = ps.map some ++ some (v, w) :: rest ∧ same v w = false)) := by
  induction parts with
  | nil => exact ⟨[], List.forall_mem_nil _, .inl ⟨rfl, rfl⟩⟩
  | cons part parts ih =>
    cases part with
    | none => exact ⟨[], List.forall_mem_nil _, .inr ⟨parts, rfl, .inl rfl⟩⟩
    | some p =>
      obtain ⟨v, w⟩ := p
      cases hvw : same v w with
      | false =>
        refine ⟨[], List.forall_mem_nil _, .inr ⟨parts, ?_, .inr ⟨v, w, rfl, hvw⟩⟩⟩
        simp [allSame, hvw]
      | true =>
        have hcons : allSame same (some (v, w) :: parts) = allSame same parts := by
          simp [allSame, hvw]
        obtain ⟨ps, hps, hrest⟩ := ih
        refine ⟨(v, w) :: ps, List.forall_mem_cons.mpr ⟨hvw, hps⟩, ?_⟩
        rw [hcons]
        rcases hrest with ⟨rfl, hall⟩ | ⟨rest, hall, rfl | ⟨v', w', rfl, hdiffer⟩⟩
        · exact .inl ⟨rfl, hall⟩
        · exact .inr ⟨rest, hall, .inl rfl⟩
        · exact .inr ⟨rest, hall, .inr ⟨v', w', rfl, hdiffer⟩⟩

/-- Where the comparison of each part comes to an answer, the whole one does. -/
theorem compares_of_parts {parts : Parts} {same : Value → Value → Bool}
    (hlook : h.look assumed a b = .ok parts)
    (hparts : ∀ v w, some (v, w) ∈ parts → Compares h ((a, b) :: assumed) v w (same v w)) :
    Compares h assumed a b (allSame same parts) := by
  obtain ⟨ps, hps, hrest⟩ := allSame_cases same parts
  have hsame (hsub : ∀ p ∈ ps, some p ∈ parts) :
      ∀ p ∈ ps, Compares h ((a, b) :: assumed) p.1 p.2 true := by
    intro p hp
    rw [← hps p hp]
    exact hparts p.1 p.2 (hsub p hp)
  rcases hrest with ⟨rfl, hall⟩ | ⟨rest, hall, rfl | ⟨v, w, rfl, hdiffer⟩⟩
  · rw [hall]
    exact .same hlook (hsame fun p hp => List.mem_map_of_mem hp)
  · rw [hall]
    exact .missing hlook (hsame fun p hp => List.mem_append_left _ (List.mem_map_of_mem hp))
  · rw [hall]
    refine .differ hlook (hsame fun p hp => List.mem_append_left _ (List.mem_map_of_mem hp)) ?_
    rw [← hdiffer]
    exact hparts v w (List.mem_append_right _ List.mem_cons_self)

/-- The answer about related values is that they are equal, if a comparison of related values takes
them for equal at once or asks for parts that are related as well. -/
theorem Compares.eq_true_of_related {R : Value → Value → Prop}
    (hrelated : ∀ assumed a b, R a b → h.look assumed a b = .error true ∨
      ∃ ps : List (Value × Value), h.look assumed a b = .ok (ps.map some) ∧ ∀ p ∈ ps, R p.1 p.2)
    {answer : Bool} (hc : Compares h assumed a b answer) (hab : R a b) : answer = true := by
  induction hc with
  | @settled assumed a b answer hlook =>
    rcases hrelated assumed a b hab with htrue | ⟨ps, hok, -⟩
    · exact (Except.error.inj (htrue.symm.trans hlook)).symm
    · rw [hok] at hlook
      cases hlook
  | same => rfl
  | @missing assumed ps a b rest hlook =>
    exfalso
    rcases hrelated assumed a b hab with htrue | ⟨ps', hok, -⟩
    · rw [htrue] at hlook
      cases hlook
    · rw [hok] at hlook
      have hmem : none ∈ ps'.map some := Except.ok.inj hlook ▸ List.mem_append_right _
        List.mem_cons_self
      obtain ⟨p, -, hp⟩ := List.mem_map.mp hmem
      cases hp
  | @differ assumed ps a b v w rest hlook _ _ _ ih =>
    rcases hrelated assumed a b hab with htrue | ⟨ps', hok, hparts⟩
    · rw [htrue] at hlook
      cases hlook
    · rw [hok] at hlook
      have hmem : some (v, w) ∈ ps'.map some :=
        Except.ok.inj hlook ▸ List.mem_append_right _ List.mem_cons_self
      obtain ⟨p, hp, hvw⟩ := List.mem_map.mp hmem
      cases hvw
      exact ih (hparts _ hp)

/-! ### How deep comparisons nest -/

open Finset in
/-- The pairs of lists and the pairs of objects in the heap. -/
def containerPairs (h : Heap) : Finset (Value × Value) :=
  ((range h.lists.size ×ˢ range h.lists.size).image fun p => (.list ⟨p.1⟩, .list ⟨p.2⟩)) ∪
    (range h.objects.size ×ˢ range h.objects.size).image fun p => (.object ⟨p.1⟩, .object ⟨p.2⟩)

theorem card_containerPairs_le (h : Heap) :
    h.containerPairs.card ≤ h.lists.size * h.lists.size + h.objects.size * h.objects.size := by
  refine (Finset.card_union_le _ _).trans (Nat.add_le_add ?_ ?_)
  all_goals
    refine Finset.card_image_le.trans ?_
    rw [Finset.card_product, Finset.card_range]

/-- How many pairs of containers are not assumed. -/
def unassumed (h : Heap) (assumed : List (Value × Value)) : Nat :=
  (h.containerPairs \ assumed.toFinset).card

theorem unassumed_lt (hmem : (a, b) ∈ h.containerPairs) (hnew : (a, b) ∉ assumed) :
    h.unassumed ((a, b) :: assumed) < h.unassumed assumed := by
  unfold unassumed
  rw [List.toFinset_cons, Finset.sdiff_insert]
  refine Finset.card_erase_lt_of_mem ?_
  rw [Finset.mem_sdiff, List.mem_toFinset]
  exact ⟨hmem, hnew⟩

theorem list_of_size_le {x : ListId} (hx : h.lists.size ≤ x.index) : h.list x = #[] := by
  simp [list, Array.getD, Nat.not_lt.mpr hx]

theorem object_of_size_le {x : ObjectId} (hx : h.objects.size ≤ x.index) :
    h.object x = ⟨none, [], []⟩ := by
  simp [object, Array.getD, Nat.not_lt.mpr hx]

/-- What has parts to compare is in the heap. -/
theorem mem_containerPairs {parts : Parts} {part : Option (Value × Value)}
    (hlook : h.look assumed a b = .ok parts) (hpart : part ∈ parts) :
    (a, b) ∈ h.containerPairs := by
  unfold containerPairs
  rw [Finset.mem_union]
  rcases look_eq_ok hlook with ⟨x, y, rfl, rfl, hlook⟩ | ⟨x, y, rfl, rfl, hlook⟩
  · obtain ⟨-, -, -, rfl⟩ := lookLists_eq_ok.mp hlook
    have hx : x.index < h.lists.size := by
      by_contra hx
      simp [list_of_size_le (Nat.not_lt.mp hx)] at hpart
    have hy : y.index < h.lists.size := by
      by_contra hy
      simp [list_of_size_le (Nat.not_lt.mp hy)] at hpart
    refine .inl (Finset.mem_image.mpr ⟨(x.index, y.index), ?_, rfl⟩)
    simp [hx, hy]
  · obtain ⟨-, -, -, -, hlength, rfl⟩ := lookObjects_eq_ok.mp hlook
    have hx : x.index < h.objects.size := by
      by_contra hx
      simp [object_of_size_le (Nat.not_lt.mp hx)] at hpart
    have hy : y.index < h.objects.size := by
      by_contra hy
      rw [object_of_size_le (Nat.not_lt.mp hy)] at hlength
      simp [List.length_eq_zero_iff.mp hlength] at hpart
    refine .inr (Finset.mem_image.mpr ⟨(x.index, y.index), ?_, rfl⟩)
    simp [hx, hy]

/-- More levels than there are pairs left are enough for an answer. -/
theorem compares_equalWithin {levels : Nat} (hlevels : h.unassumed assumed < levels) :
    Compares h assumed a b (h.equalWithin levels assumed a b) := by
  induction levels generalizing assumed a b with
  | zero => exact absurd hlevels (Nat.not_lt_zero _)
  | succ levels ih =>
    rw [equalWithin_succ]
    cases hlook : h.look assumed a b with
    | error answer => exact .settled hlook
    | ok parts =>
      refine compares_of_parts hlook fun v w hpart => ih ?_
      have hless := unassumed_lt (mem_containerPairs hlook hpart) (not_mem_of_look hlook)
      omega

/-- **Equality comes to an answer**, whatever contains itself. -/
theorem compares_equal (h : Heap) (a b : Value) : Compares h [] a b (h.equal a b) := by
  refine compares_equalWithin ?_
  have hcard := card_containerPairs_le h
  simp only [unassumed, List.toFinset_nil, Finset.sdiff_empty]
  omega

/-- Values in such a relation are equal. -/
theorem equal_of_related {R : Value → Value → Prop}
    (hrelated : ∀ assumed a b, R a b → h.look assumed a b = .error true ∨
      ∃ ps : List (Value × Value), h.look assumed a b = .ok (ps.map some) ∧ ∀ p ∈ ps, R p.1 p.2)
    (hab : R a b) : h.equal a b = true :=
  (compares_equal h a b).eq_true_of_related hrelated hab

end Heap

end ScriptEngine
