import ScriptEngine.Library.Lists
import ScriptEngine.Proofs.Bisimilarity
import ScriptEngine.Proofs.Candidates
import ScriptEngine.Proofs.Ranges
import ScriptEngine.Proofs.StoredValues
/-!
# Slices of lists

The places of a slice are worked out in 64-bit integers. A number that such an integer cannot hold
becomes the nearest one, and only negative numbers have the length added, so no sum leaves their
range, and the place is the one exact arithmetic finds. Since the places of two slices that share a
number are the same, the slices up to a number and from it on are the list again.

* `Library.place` : where a number points in a list, in exact arithmetic.
* `Library.clampIndex_eq` : the 64-bit integers find it.
* `Heap.equal_lists_iff` : two lists of the same items are equal unless an item is not a number.
* **`Library.slice_laws`** : what `listSlice` answers, and that a list cut in two and put together
  is equal to itself.

A list has fewer items than 64-bit integers count. No other part of the heap changes but for the
lists that are new.
-/

namespace ScriptEngine

/-! ## Equality of lists with the same items -/

/-- A number that is not one. It is the only value that differs from itself. -/
def Value.IsNaN (v : Value) : Prop := ∃ x, v.asNumber? = some x ∧ x.isNaN = true

namespace Heap

variable {h : Heap}

/-- What a value is compared with is itself. -/
theorem equalWithin_self_iff (levels : Nat) (assumed : List (Value × Value)) (v : Value) :
    h.equalWithin (levels + 1) assumed v v = true ↔ ¬ v.IsNaN := by
  have hnumber {x : Float} : (x == x) = true ↔ ¬ ∃ y, some x = some y ∧ y.isNaN = true := by
    rw [Number.beq_self_iff, ← Bool.not_eq_true]
    simp
  cases v <;>
    simp only [equalWithin, Value.IsNaN, Value.asNumber?, equalNumbers, hostEqual_self,
      beq_self_eq_true,
      Bool.true_or, Bool.and_true, reduceCtorEq, false_and, exists_false, not_false_eq_true]
  all_goals exact hnumber

/-- **Two lists of the same items are equal** unless an item is not a number. -/
theorem equal_lists_iff {x y : ListId} (hitems : h.list x = h.list y) (hxy : x ≠ y)
    (hsome : 0 < h.lists.size) :
    h.equal (.list x) (.list y) = true ↔ ∀ v ∈ h.list y, ¬ v.IsNaN := by
  obtain ⟨levels, hlevels⟩ : ∃ levels, h.lists.size * h.lists.size + h.objects.size *
    h.objects.size = levels + 1 :=
    Nat.exists_eq_succ_of_ne_zero (by have := Nat.mul_pos hsome hsome; omega)
  have hne : (x == y) = false := beq_eq_false_iff_ne.mpr hxy
  have hzip : (h.list y).toList.zip (h.list y).toList = (h.list y).toList.map fun v => (v, v) :=
    List.zipWith_self
  rw [equal, hlevels, equalWithin, hitems]
  simp only [hne, List.contains_nil, Bool.or_false, Bool.false_or, beq_self_eq_true, Bool.true_and,
    hzip, List.all_map,
    List.all_eq_true, Function.comp, equalWithin_self_iff, Array.mem_toList_iff]

end Heap

/-! ## Places -/

namespace Library

variable {n : Nat}

/-- A whole number as a place among `n` items: a negative one counts from the end, and one outside
is the nearest end. -/
def limited (n : Nat) (i : Int) : Nat := (min (max (if i < 0 then n + i else i) 0) n).toNat

/-- The place where a number points among `n` items. What is not a number points to the first
one. -/
def place (n : Nat) (x : Float) : Nat :=
  match Number.exact x with
  | .nan => 0
  | .infinite negative => if negative then 0 else n
  | .finite negative m e =>
    let w : Int := Number.wholeMagnitude m e
    limited n (if negative then -w else w)

theorem limited_le (n : Nat) (i : Int) : limited n i ≤ n := by
  unfold limited
  omega

theorem place_le (n : Nat) (x : Float) : place n x ≤ n := by
  unfold place
  split
  · exact Nat.zero_le n
  · split <;> omega
  · exact limited_le n _

/-- The ends of the 64-bit integers do as well as the numbers beyond them. -/
theorem limited_bounded (hn : (n : Int) ≤ Number.maxInt64) (i : Int) :
    limited n (max Number.minInt64 (min Number.maxInt64 i)) = limited n i := by
  unfold limited Number.minInt64 Number.maxInt64 at *
  split_ifs <;> omega

/-- **A place is where the number points** in exact arithmetic. -/
theorem clampIndex_eq (hn : (n : Int) ≤ Number.maxInt64) (x : Float) :
    clampIndex n x = place n x := by
  change limited n (Number.toInt64 x) = place n x
  unfold place Number.toInt64
  cases Number.exact x with
  | nan => exact Nat.zero_min n
  | infinite negative =>
    cases negative with
    | false =>
      change limited n Number.maxInt64 = n
      unfold limited Number.maxInt64 at *
      omega
    | true =>
      change limited n Number.minInt64 = 0
      unfold limited Number.minInt64 Number.maxInt64 at *
      omega
  | finite negative m e => exact limited_bounded hn _

theorem toInt64_bounds (x : Float) :
    Number.minInt64 ≤ Number.toInt64 x ∧ Number.toInt64 x ≤ Number.maxInt64 :=
  Number.Exact.toInt_mem (by decide) (by decide) _

theorem place_infinity (n : Nat) : place n Number.infinity = n := by
  have hinfinite : Number.exact Number.infinity = .infinite false := rfl
  rw [place, hinfinite]
  rfl

theorem place_zero (n : Nat) : place n 0.0 = 0 := by
  have hzero : Number.exact 0.0 = .finite false 0 (-1074) := rfl
  have hwhole (e : Int) : Number.wholeMagnitude 0 e = 0 := by
    cases e with
    | ofNat k => exact Nat.zero_mul _
    | negSucc k => exact Nat.zero_div _
  rw [place, hzero]
  simp only [hwhole]
  exact Nat.zero_min n

/-! ## Slices -/

section Slices

variable {w : World} {id : ListId} {args : List Value} {start stop : Float}

/-- The arguments of `listSlice`. Without an end, the slice goes to that of the list. -/
abbrev SliceArguments (id : ListId) : List Value → Float → Float → Prop :=
  RangeArguments (.list id) Number.infinity

/-- The items of a list from one place up to another. -/
def sliceOf (w : World) (id : ListId) (start stop : Float) : Array Value :=
  (w.heap.list id).extract (place (w.heap.list id).size start) (place (w.heap.list id).size stop)

/-- The state with one list more. -/
def withList (w : World) (items : Array Value) : World :=
  { w with heap := (w.heap.addList items).2 }

theorem newList_eq (items : Array Value) (w : World) :
    Script.newList items w = .ok (.list ⟨w.heap.lists.size⟩) (withList w items) := rfl

/-- A slice is a new list of the items between the places. -/
theorem listSlice_eq (hargs : SliceArguments id args start stop)
    (hsize : ((w.heap.list id).size : Int) ≤ Number.maxInt64) :
    listSlice args w = .ok (.list ⟨w.heap.lists.size⟩) (withList w (sliceOf w id start stop)) := by
  have hlist : Script.ofExcept (listAt "listSlice" args 0) = pure id := by
    rw [listAt, wantedAt, hargs.subject_eq]
    rfl
  have hslice : listSlice args w = Script.newList ((w.heap.list id).extract
      (clampIndex (w.heap.list id).size start) (clampIndex (w.heap.list id).size stop)) w := by
    unfold listSlice
    rw [hlist, hargs.start_eq, hargs.stop_eq]
    rfl
  rw [hslice, clampIndex_eq hsize, clampIndex_eq hsize, newList_eq]
  rfl

theorem list_withList_new (w : World) (items : Array Value) :
    (withList w items).heap.list ⟨w.heap.lists.size⟩ = items :=
  (Heap.Grows.refl _).list_eq

theorem list_withList (hid : id.index < w.heap.lists.size) (items : Array Value) :
    (withList w items).heap.list id = w.heap.list id :=
  (Heap.Grows.addList w.heap items).list_of_lt hid

theorem size_withList (w : World) (items : Array Value) :
    (withList w items).heap.lists.size = w.heap.lists.size + 1 := Array.size_push ..

/-- Adding lists makes a new one of the items of both. -/
theorem add_lists {x y : ListId} {xs ys : Array Value} (hx : w.heap.list x = xs)
    (hy : w.heap.list y = ys) :
    Operators.binary .add (.list x) (.list y) w = .ok (.list ⟨w.heap.lists.size⟩)
      (withList w (xs ++ ys)) := by
  rw [← hx, ← hy]
  rfl

/-- The items up to a number and from it on are all items. -/
theorem sliceOf_append (w : World) (id : ListId) (x : Float) :
    sliceOf w id 0.0 x ++ sliceOf w id x Number.infinity = w.heap.list id := by
  have hle := place_le (w.heap.list id).size x
  rw [sliceOf, sliceOf, place_zero, place_infinity, Array.extract_append_extract, Nat.zero_min,
    Nat.max_eq_right hle,
    Array.extract_size]

/-- Whether a list is equal to its slices up to a number and from it on, put together. -/
def rejoined (id : ListId) (k : Value) : Script Value := do
  let front ← listSlice [.list id, .number 0.0, k]
  let back ← listSlice [.list id, k]
  Operators.binary .eq (← Operators.binary .add front back) (.list id)

/-- The state with the two slices and the list that they make up. -/
def afterRejoining (w : World) (id : ListId) (x : Float) : World :=
  withList (withList (withList w (sliceOf w id 0.0 x)) (sliceOf w id x Number.infinity))
    (w.heap.list id)

theorem list_afterRejoining (hid : id.index < w.heap.lists.size) (x : Float) :
    (afterRejoining w id x).heap.list id = w.heap.list id := by
  unfold afterRejoining
  rw [list_withList, list_withList, list_withList hid]
  · rw [size_withList]
    omega
  · rw [size_withList, size_withList]
    omega

theorem rejoined_eq (hid : id.index < w.heap.lists.size)
    (hsize : ((w.heap.list id).size : Int) ≤ Number.maxInt64) {k : Value} {x : Float}
    (hk : k.asNumber? = some x) : rejoined id k w =
      .ok (.bool ((afterRejoining w id x).heap.equal (.list ⟨w.heap.lists.size + 2⟩) (.list id)))
        (afterRejoining w id x) := by
  let w₁ := withList w (sliceOf w id 0.0 x)
  let w₂ := withList w₁ (sliceOf w id x Number.infinity)
  have hlist : w₁.heap.list id = w.heap.list id := list_withList hid _
  have hfront : listSlice [.list id, .number 0.0, k] w = .ok (.list ⟨w.heap.lists.size⟩) w₁ :=
    listSlice_eq (.both rfl hk) hsize
  have hback : listSlice [.list id, k] w₁ = .ok (.list ⟨w.heap.lists.size + 1⟩) w₂ := by
    rw [listSlice_eq (.toEnd hk) (hlist.symm ▸ hsize), sliceOf, hlist, size_withList]
    rfl
  have hfrontItems : w₂.heap.list ⟨w.heap.lists.size⟩ = sliceOf w id 0.0 x := by
    rw [list_withList (by rw [size_withList]; exact Nat.lt_succ_self _), list_withList_new]
  have hbackItems : w₂.heap.list ⟨w.heap.lists.size + 1⟩ = sliceOf w id x Number.infinity := by
    rw [← size_withList w (sliceOf w id 0.0 x)]
    exact list_withList_new w₁ _
  have hwhole :
      Operators.binary .add (.list ⟨w.heap.lists.size⟩) (.list ⟨w.heap.lists.size + 1⟩) w₂ =
        .ok (.list ⟨w.heap.lists.size + 2⟩) (afterRejoining w id x) := by
    rw [add_lists hfrontItems hbackItems, sliceOf_append, size_withList, size_withList]
    rfl
  unfold rejoined
  rw [Run.bind_of_ok hfront, Run.bind_of_ok hback, Run.bind_of_ok hwhole]
  rfl

theorem rejoined_ends (hid : id.index < w.heap.lists.size)
    (hsize : ((w.heap.list id).size : Int) ≤ Number.maxInt64) {k : Value} {x : Float}
    (hk : k.asNumber? = some x) :
    ∃ equal w', rejoined id k w = .ok (.bool equal) w' ∧ w'.heap.list id = w.heap.list id ∧
      (equal = true ↔ ∀ v ∈ w.heap.list id, ¬ v.IsNaN) := by
  have hlist := list_afterRejoining hid x
  have hnew : (afterRejoining w id x).heap.list ⟨w.heap.lists.size + 2⟩ =
      (afterRejoining w id x).heap.list id := by
    have hsizes : w.heap.lists.size + 2 =
        (withList (withList w (sliceOf w id 0.0 x))
          (sliceOf w id x Number.infinity)).heap.lists.size := by
      rw [size_withList, size_withList]
    rw [hlist, hsizes]
    exact list_withList_new _ _
  have hne : (⟨w.heap.lists.size + 2⟩ : ListId) ≠ id := fun h => by
    have hindex : w.heap.lists.size + 2 = id.index := congrArg ListId.index h
    omega
  have hsome : 0 < (afterRejoining w id x).heap.lists.size := by
    unfold afterRejoining
    rw [size_withList]
    exact Nat.succ_pos _
  exact ⟨_, _, rejoined_eq hid hsize hk, hlist, hlist ▸ Heap.equal_lists_iff hnew hne hsome⟩

/-- How slices of a list are taken. -/
structure SliceLaws (w : World) (id : ListId) : Prop where
  /-- A number points to a place inside or to the end. -/
  inside (x : Float) : place (w.heap.list id).size x ≤ (w.heap.list id).size
  /-- Adding the length to a negative number stays within the 64-bit integers. -/
  no_overflow (x : Float) (hneg : Number.toInt64 x < 0) :
    Number.minInt64 ≤ (w.heap.list id).size + Number.toInt64 x ∧
      (w.heap.list id).size + Number.toInt64 x ≤ Number.maxInt64
  /-- The answer is a new list of the items between the places, and all lists there were stay as
  they were. -/
  sliced {args : List Value} {start stop : Float} (hargs : SliceArguments id args start stop) :
    ∃ w', listSlice args w = .ok (.list ⟨w.heap.lists.size⟩) w' ∧
      w'.heap.list ⟨w.heap.lists.size⟩ = sliceOf w id start stop ∧
      ∀ other : ListId, other.index < w.heap.lists.size → w'.heap.list other = w.heap.list other
  /-- There are no items between places that are not in order. -/
  empty {start stop : Float}
      (hle : place (w.heap.list id).size stop ≤ place (w.heap.list id).size start) :
    sliceOf w id start stop = #[]
  /-- Cut at any number and put together, the list is equal to what it was, unless an item is not a
  number; it is unchanged all the same. -/
  rejoins {k : Value} {x : Float} (hk : k.asNumber? = some x) :
    ∃ equal w', rejoined id k w = .ok (.bool equal) w' ∧ w'.heap.list id = w.heap.list id ∧
      (equal = true ↔ ∀ v ∈ w.heap.list id, ¬ v.IsNaN)

/-- **Slices are taken without overflow and leave the list alone, and two that meet make up the
list.** No list has more items than the 64-bit integers count. -/
theorem slice_laws (hid : id.index < w.heap.lists.size)
    (hsize : ((w.heap.list id).size : Int) ≤ Number.maxInt64) :
    SliceLaws w id where
  inside := place_le _
  no_overflow x hneg := by
    have hlow := (toInt64_bounds x).1
    omega
  sliced hargs := ⟨_, listSlice_eq hargs hsize, list_withList_new w _, fun _ hother =>
    list_withList hother _⟩
  empty hle := Array.extract_eq_empty_of_le ((Nat.min_le_left _ _).trans hle)
  rejoins hk := rejoined_ends hid hsize hk

theorem slice_laws_pair :
    0 < (withList (.initial .default 0 0) #[.null, .bool true]).heap.lists.size ∧
    (((withList (.initial .default 0 0) #[.null, .bool true]).heap.list ⟨0⟩).size : Int) ≤
      Number.maxInt64 ∧
    SliceLaws (withList (.initial .default 0 0) #[.null, .bool true]) ⟨0⟩ :=
  ⟨by decide, by decide, slice_laws (by decide) (by decide)⟩

end Slices

end Library

end ScriptEngine
