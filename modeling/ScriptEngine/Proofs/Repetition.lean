import ScriptEngine.Proofs.Slices
/-!
# Repetition

A string or a list times a whole number is that many copies of it, one after another, and nothing
else: a count beyond the words of the machine is cut down to the greatest of them, but so many
copies of anything have no room, and of nothing there are none.

* `Operators.copies` : items over and over again.
* `Number.Counts` : the whole number that a double is.
* `Operators.repetitionFits_min` : cutting the count down makes no room.
* **`Operators.repetition_laws`** : what a product of a string or a list is, and that it can be
  taken in two parts.

This is the product of a string or a list and a number (`repeat`), given what the memory grants at
once. Counts that are not whole are errors of the operands.
-/

namespace ScriptEngine

/-! ## Counts -/

namespace Number

/-- The double is a whole number, and that number is `i`. -/
structure Counts (x : Float) (i : Int) : Prop where
  whole : isWhole x = true
  value : (exact x).truncate? = some i

/-- Every whole number is some number, however large. -/
theorem exists_counts {x : Float} (h : isWhole x) : ∃ i, Counts x i := by
  have hwhole : (exact x).isWhole = true := h
  cases hx : exact x with
  | nan | infinite =>
    rw [hx] at hwhole
    cases hwhole
  | finite negative m e => exact ⟨_, h, by rw [hx]; rfl⟩

theorem toWord_of_counts {x : Float} {i : Int} (h : Counts x i) :
    toWord x = min i.toNat maxWord.toNat := by
  have hvalue := h.value
  unfold toWord
  cases hx : exact x with
  | nan | infinite =>
    rw [hx] at hvalue
    cases hvalue
  | finite negative m e =>
    rw [hx] at hvalue
    have hi : (if negative then -(wholeMagnitude m e : Int) else wholeMagnitude m e) = i :=
      Option.some.inj hvalue
    change (max 0 (min maxWord _)).toNat = _
    rw [hi]
    unfold maxWord
    omega

end Number

namespace Operators

open Number (Counts maxWord)

variable {w w' : World} {x a b v : Value} {c d : Float} {i j : Int} {n : Nat} {m : Memory}

/-- Items `n` times over. -/
def copies {α : Type} (n : Nat) (items : List α) : List α := (List.replicate n items).flatten

theorem copies_succ {α : Type} (n : Nat) (items : List α) :
    copies (n + 1) items = copies n items ++ items := by
  rw [copies, List.replicate_succ', List.flatten_append, List.flatten_singleton]
  rfl

theorem copies_add {α : Type} (m n : Nat) (items : List α) :
    copies (m + n) items = copies m items ++ copies n items := by
  rw [copies, List.replicate_add, List.flatten_append]
  rfl

theorem length_copies {α : Type} (n : Nat) (items : List α) :
    (copies n items).length = items.length * n := by
  rw [copies, List.length_flatten, List.map_replicate, List.sum_replicate_nat, Nat.mul_comm]

theorem copies_nil {α : Type} (n : Nat) : copies n ([] : List α) = [] :=
  List.length_eq_zero_iff.mp (by rw [length_copies]; exact Nat.zero_mul n)

theorem repeat_append (s : String) (n : Nat) :
    Nat.repeat (· ++ s) n "" = String.ofList (copies n s.toList) := by
  induction n with
  | zero => rfl
  | succ n ih =>
    rw [copies_succ, String.ofList_append, String.ofList_toList, ← ih]
    rfl

theorem repeat_append_items (items : Array Value) (n : Nat) :
    Nat.repeat (· ++ items) n #[] = (copies n items.toList).toArray := by
  induction n with
  | zero => rfl
  | succ n ih =>
    rw [copies_succ, ← List.append_toArray, Array.toArray_toList, ← ih]
    rfl

/-! ## Room -/

theorem limit_lt_maxWord (m : Memory) : m.limit < maxWord.toNat :=
  (Nat.min_le_right _ _).trans_lt (by decide)

theorem le_bytes {size bytes : Nat} (hsize : 0 < size) (hbytes : 0 < bytes) :
    n ≤ size * n * bytes :=
  (Nat.le_mul_of_pos_left n hsize).trans (Nat.le_mul_of_pos_right _ hbytes)

/-- A count that leaves room for copies of something is a word. -/
theorem min_maxWord {size bytes : Nat} (hsize : 0 < size) (hbytes : 0 < bytes)
    (h : size * n * bytes ≤ m.limit) : min n maxWord.toNat = n :=
  Nat.min_eq_left (((le_bytes hsize hbytes).trans h).trans (limit_lt_maxWord m).le)

/-- Cutting a count down to a word makes no room where there was none. -/
theorem repetitionFits_min {size bytes : Nat} (hbytes : 0 < bytes) :
    repetitionFits m size (min n maxWord.toNat) bytes = true ↔ size * n * bytes ≤ m.limit := by
  rw [repetitionFits, Bool.and_eq_true, decide_eq_true_eq, decide_eq_true_eq]
  rcases Nat.eq_zero_or_pos size with rfl | hsize
  · simp
  constructor
  · rintro ⟨-, h⟩
    rcases Nat.le_total n maxWord.toNat with hn | hn
    · rwa [Nat.min_eq_left hn] at h
    · -- so many copies of anything have no room
      rw [Nat.min_eq_right hn] at h
      exact absurd ((le_bytes hsize hbytes).trans h) (Nat.not_le_of_lt (limit_lt_maxWord m))
  · intro h
    rw [min_maxWord hsize hbytes h]
    exact ⟨((Nat.le_mul_of_pos_right _ hbytes).trans h).trans (limit_lt_maxWord m).le, h⟩

theorem repeatText_min (m : Memory) (s : String) (n : Nat) : repeatText m s (min n maxWord.toNat) =
    if s.utf8ByteSize * n ≤ m.limit then .ok (String.ofList (copies n s.toList))
    else .error (.refused .repetitionTooLarge) := by
  have hfits : repetitionFits m s.utf8ByteSize (min n maxWord.toNat) 1 = true ↔
      s.utf8ByteSize * n ≤ m.limit := by
    rw [repetitionFits_min Nat.one_pos, Nat.mul_one]
  unfold repeatText
  by_cases h : s.utf8ByteSize * n ≤ m.limit
  · rw [if_pos h, hfits.mpr h]
    by_cases hs : s = ""
    · subst hs
      rw [String.toList_empty, copies_nil]
      rfl
    · have hsize : 0 < s.utf8ByteSize := Nat.pos_of_ne_zero fun h =>
        hs (String.utf8ByteSize_eq_zero_iff.mp h)
      rw [min_maxWord (m := m) hsize Nat.one_pos (by rwa [Nat.mul_one]), repeat_append]
      simp [String.isEmpty_iff, hs]
  · rw [if_neg h, Bool.eq_false_iff.mpr (mt hfits.mp h)]
    rfl

theorem repeatItems_min (m : Memory) (items : Array Value) (n : Nat) :
    repeatItems m items (min n maxWord.toNat) =
      if items.size * n * m.itemBytes ≤ m.limit then .ok (copies n items.toList).toArray
      else .error (.refused .repetitionTooLarge) := by
  have hbytes : 0 < m.itemBytes := m.itemBytes_pos
  have hfits : repetitionFits m items.size (min n maxWord.toNat) m.itemBytes = true ↔
      items.size * n * m.itemBytes ≤ m.limit := repetitionFits_min hbytes
  unfold repeatItems
  by_cases h : items.size * n * m.itemBytes ≤ m.limit
  · rw [if_pos h, hfits.mpr h]
    by_cases hs : items = #[]
    · rw [hs, copies_nil]
      rfl
    · have hsize : 0 < items.size := Nat.pos_of_ne_zero fun h => hs (Array.size_eq_zero_iff.mp h)
      rw [min_maxWord hsize hbytes h, repeat_append_items]
      simp [hs]
  · rw [if_neg h, Bool.eq_false_iff.mpr (mt hfits.mp h)]
    rfl

/-! ## Products -/

/-- A string, or a list of the state. -/
inductive Repeatable (w : World) : Value → Prop
  | string (s : String) : Repeatable w (.string s)
  | list {id : ListId} (hid : id.index < w.heap.lists.size) : Repeatable w (.list id)

/-- How many characters or items a value has. -/
def length (w : World) : Value → Nat
  | .string s => s.length
  | .list id => (w.heap.list id).size
  | _ => 0

/-- How many bytes a copy of a value takes. -/
def bytes (w : World) : Value → Nat
  | .string s => s.utf8ByteSize
  | .list id => (w.heap.list id).size * w.environment.memory.itemBytes
  | _ => 0

/-- How many bytes a copy can take in the state. -/
abbrev room (w : World) : Nat := w.environment.memory.limit

/-- The value `v` in the state `w'` is `n` times the value `x` in the state `w`. A list is new, and
nothing else is. -/
inductive Repeats (n : Nat) (w : World) : (x v : Value) → (w' : World) → Prop
  | string (s : String) : Repeats n w (.string s) (.string (String.ofList (copies n s.toList))) w
  | list (id : ListId) : Repeats n w (.list id) (.list ⟨w.heap.lists.size⟩)
      (Library.withList w (copies n (w.heap.list id).toList).toArray)

theorem Repeats.length_eq (h : Repeats n w x v w') : length w' v = length w x * n := by
  cases h with
  | string s =>
    rw [length, length, ← String.length_toList, String.toList_ofList, length_copies,
      String.length_toList]
  | list id =>
    rw [length, length, Library.list_withList_new, List.size_toArray, length_copies,
      Array.length_toList]

/-- What there was stays as it was. -/
theorem Repeats.unchanged (h : Repeats n w x v w') {id : ListId}
    (hid : id.index < w.heap.lists.size) :
    w'.heap.list id = w.heap.list id := by
  cases h with
  | string s => rfl
  | list _ => exact Library.list_withList hid _

/-- The two factors of a product. -/
inductive Factors (x : Value) (c : Float) : (a b : Value) → Prop
  | before : Factors x c x (.number c)
  | behind : Factors x c (.number c) x

/-- A product of a string or a list and a whole number repeats it as often as the number says, at
most a word. -/
theorem multiply_eq (hx : Repeatable w x) (hc : Counts c i) (hab : Factors x c a b) :
    binary .mul a b = repeated x (min i.toNat maxWord.toNat) := by
  have hcount : repeatCount? c = some (min i.toNat maxWord.toNat) := by
    rw [repeatCount?, if_pos hc.whole, Number.toWord_of_counts hc]
  have hrepetition : repetition? a b = some (x, min i.toNat maxWord.toNat) := by
    cases hx <;> cases hab <;> simp only [repetition?, hcount, Option.map_some]
  rw [binary, multiply, hrepetition]

theorem repeated_string (s : String) (n : Nat) (w : World) :
    repeated (.string s) (min n maxWord.toNat) w =
      if s.utf8ByteSize * n ≤ room w then .ok (.string (String.ofList (copies n s.toList))) w
      else .error (.runtime (.refused .repetitionTooLarge)) w := by
  have hstep (k : Nat) : repeated (.string s) k w =
      (do return .string (← Script.ofExcept (repeatText w.environment.memory s k)) : Script Value)
        w := rfl
  rw [hstep, repeatText_min]
  split <;> rfl

theorem repeated_list (id : ListId) (n : Nat) (w : World) :
    repeated (.list id) (min n maxWord.toNat) w =
      if (w.heap.list id).size * n * w.environment.memory.itemBytes ≤ room w then
        .ok (.list ⟨w.heap.lists.size⟩)
          (Library.withList w (copies n (w.heap.list id).toList).toArray)
      else .error (.runtime (.refused .repetitionTooLarge)) w := by
  have hstep (k : Nat) : repeated (.list id) k w =
      (Script.ofExcept (repeatItems w.environment.memory (w.heap.list id) k) >>= Script.newList)
        w := rfl
  rw [hstep, repeatItems_min]
  split <;> rfl

theorem product_string {s : String} (hc : Counts c i) (hab : Factors (.string s) c a b)
    (hroom : bytes w (.string s) * i.toNat ≤ room w) :
    binary .mul a b w = .ok (.string (String.ofList (copies i.toNat s.toList))) w := by
  rw [multiply_eq (w := w) (.string s) hc hab]
  exact (repeated_string ..).trans (if_pos hroom)

/-- A list times a number, as a new list. -/
abbrev withCopies (w : World) (id : ListId) (n : Nat) : World :=
  Library.withList w (copies n (w.heap.list id).toList).toArray

theorem product_list {id : ListId} (hid : id.index < w.heap.lists.size) (hc : Counts c i)
    (hab : Factors (.list id) c a b) (hroom : bytes w (.list id) * i.toNat ≤ room w) :
    binary .mul a b w = .ok (.list ⟨w.heap.lists.size⟩) (withCopies w id i.toNat) := by
  rw [multiply_eq (.list hid) hc hab]
  rw [bytes, Nat.mul_right_comm] at hroom
  exact (repeated_list ..).trans (if_pos hroom)

/-- **A product is made if there is room for it**, and is as many copies as the number says. -/
theorem exists_product (hx : Repeatable w x) (hc : Counts c i) (hab : Factors x c a b)
    (hroom : bytes w x * i.toNat ≤ room w) :
    ∃ v w', binary .mul a b w = .ok v w' ∧ Repeats i.toNat w x v w' := by
  cases hx with
  | string s => exact ⟨_, _, product_string hc hab hroom, .string s⟩
  | @list id hid => exact ⟨_, _, product_list hid hc hab hroom, .list id⟩

theorem product_fails (hx : Repeatable w x) (hc : Counts c i) (hab : Factors x c a b)
    (hroom : ¬bytes w x * i.toNat ≤ room w) :
    binary .mul a b w = .error (.runtime (.refused .repetitionTooLarge)) w := by
  rw [multiply_eq hx hc hab]
  cases hx with
  | string s => exact (repeated_string ..).trans (if_neg hroom)
  | @list id hid =>
    rw [bytes, Nat.mul_right_comm] at hroom
    exact (repeated_list ..).trans (if_neg hroom)

theorem bytes_eq_zero (h : length w x = 0) : bytes w x = 0 := by
  cases x with
  | string s =>
    rw [length, ← String.length_toList, List.length_eq_zero_iff, String.toList_eq_nil_iff] at h
    rw [h]
    rfl
  | list id => rw [bytes, show (w.heap.list id).size = 0 from h, Nat.zero_mul]
  | _ => rfl

/-! ## Sums of products -/

/-- The product with a sum of two numbers, and the sum of the products with them. -/
def takenApart (x : Value) (c d : Float) : Script (Value × Value) := do
  let whole ← binary .mul x (← binary .add (.number c) (.number d))
  let front ← binary .mul x (.number c)
  let back ← binary .mul x (.number d)
  return (whole, ← binary .add front back)

theorem room_of_le {k : Int} (hk : k ≤ i + j) (hroom : bytes w x * (i + j).toNat ≤ room w) :
    bytes w x * k.toNat ≤ room w :=
  (Nat.mul_le_mul_left _ (Int.toNat_le_toNat hk)).trans hroom

theorem takenApart_string {s : String} (hc : Counts c i) (hd : Counts d j)
    (hsum : Counts (c + d) (i + j)) (hi : 0 ≤ i) (hj : 0 ≤ j)
    (hroom : bytes w (.string s) * (i + j).toNat ≤ room w) :
    takenApart (.string s) c d w = .ok (.string (String.ofList (copies (i + j).toNat s.toList)),
      .string (String.ofList (copies (i + j).toNat s.toList))) w := by
  have hwhole := product_string (w := w) hsum (.before (x := .string s)) hroom
  have hfront := product_string (w := w) hc (.before (x := .string s)) (room_of_le (by omega) hroom)
  have hback := product_string (w := w) hd (.before (x := .string s)) (room_of_le (by omega) hroom)
  have hadd : binary .add (.number c) (.number d) w = .ok (.number (c + d)) w := rfl
  unfold takenApart
  rw [Run.bind_of_ok hadd, Run.bind_of_ok hwhole, Run.bind_of_ok hfront, Run.bind_of_ok hback,
    Int.toNat_add hi hj, copies_add, String.ofList_append]
  rfl

theorem takenApart_list {id : ListId} (hid : id.index < w.heap.lists.size) (hc : Counts c i)
    (hd : Counts d j) (hsum : Counts (c + d) (i + j)) (hi : 0 ≤ i) (hj : 0 ≤ j)
    (hroom : bytes w (.list id) * (i + j).toNat ≤ room w) :
    ∃ y z w', takenApart (.list id) c d w = .ok (.list y, .list z) w' ∧
      y.index < w'.heap.lists.size ∧ y ≠ z ∧
      w'.heap.list y = w'.heap.list z ∧ w'.heap.list y =
        (copies (i + j).toNat (w.heap.list id).toList).toArray := by
  let w₁ := withCopies w id (i + j).toNat
  let w₂ := withCopies w₁ id i.toNat
  let w₃ := withCopies w₂ id j.toNat
  have hsize₁ : w₁.heap.lists.size = w.heap.lists.size + 1 := Library.size_withList ..
  have hsize₂ : w₂.heap.lists.size = w₁.heap.lists.size + 1 := Library.size_withList ..
  have hsize₃ : w₃.heap.lists.size = w₂.heap.lists.size + 1 := Library.size_withList ..
  have hid₁ : id.index < w₁.heap.lists.size := hid.trans (by omega)
  have hid₂ : id.index < w₂.heap.lists.size := hid₁.trans (by omega)
  have hlist₁ : w₁.heap.list id = w.heap.list id := Library.list_withList hid _
  have hlist₂ : w₂.heap.list id = w.heap.list id := (Library.list_withList hid₁ _).trans hlist₁
  have hroom {u : World} (hmemory : u.environment.memory = w.environment.memory)
      (hlist : u.heap.list id = w.heap.list id) {k : Int} (hk : k ≤ i + j) :
      bytes u (.list id) * k.toNat ≤ room u := by
    rw [bytes, room, hlist, hmemory]
    exact room_of_le hk hroom
  have hadd : binary .add (.number c) (.number d) w = .ok (.number (c + d)) w := rfl
  have hwhole := product_list hid hsum .before (hroom (u := w) rfl rfl (Int.le_refl _))
  have hfront := product_list hid₁ hc .before (hroom (u := w₁) rfl hlist₁ (by omega))
  have hback := product_list hid₂ hd .before (hroom (u := w₂) rfl hlist₂ (by omega))
  -- the products are still there when the last one is made
  have hfrontItems : w₃.heap.list ⟨w₁.heap.lists.size⟩ =
      (copies i.toNat (w.heap.list id).toList).toArray := by
    rw [Library.list_withList (by rw [hsize₂]; exact Nat.lt_succ_self _), Library.list_withList_new,
      hlist₁]
  have hbackItems : w₃.heap.list ⟨w₂.heap.lists.size⟩ =
      (copies j.toNat (w.heap.list id).toList).toArray := by
    rw [Library.list_withList_new, hlist₂]
  have hsum' := Library.add_lists hfrontItems hbackItems
  let w₄ := Library.withList w₃ ((copies i.toNat (w.heap.list id).toList).toArray ++
    (copies j.toNat (w.heap.list id).toList).toArray)
  have hsize₄ : w₄.heap.lists.size = w₃.heap.lists.size + 1 := Library.size_withList ..
  have hwholeItems : w₄.heap.list ⟨w.heap.lists.size⟩ =
      (copies (i + j).toNat (w.heap.list id).toList).toArray := by
    rw [Library.list_withList (by simp only; omega), Library.list_withList (by simp only; omega),
      Library.list_withList (by simp only; omega), Library.list_withList_new]
  refine ⟨⟨w.heap.lists.size⟩, ⟨w₃.heap.lists.size⟩, w₄,
    ?_, by simp only; omega, fun heq => ?_, ?_, ?_⟩
  · unfold takenApart
    rw [Run.bind_of_ok hadd, Run.bind_of_ok hwhole, Run.bind_of_ok hfront, Run.bind_of_ok hback,
      Run.bind_of_ok hsum']
    rfl
  · have := congrArg ListId.index heq
    simp only at this
    omega
  · rw [hwholeItems, Library.list_withList_new, Int.toNat_add hi hj, copies_add,
      List.append_toArray]
  · exact hwholeItems

/-- The values have the same parts: they are the same string, or two lists of the same items. -/
inductive Alike (w : World) : (v u : Value) → Prop
  | string (s : String) : Alike w (.string s) (.string s)
  | list {y z : ListId} (hy : y.index < w.heap.lists.size) (hne : y ≠ z)
      (hitems : w.heap.list y = w.heap.list z) :
      Alike w (.list y) (.list z)

/-- The items of a value. A string has none. -/
def items (w : World) : Value → Array Value
  | .list id => w.heap.list id
  | _ => #[]

/-- Strings or lists of the same parts are equal unless an item is not a number. -/
theorem Alike.equal_iff {u : Value} (h : Alike w v u) :
    ∃ same, binary .eq v u w = .ok (.bool same) w ∧
      (same = true ↔ ∀ item ∈ items w v, ¬item.IsNaN) := by
  refine ⟨_, rfl, ?_⟩
  cases h with
  | string s =>
    have hself : w.heap.equal (.string s) (.string s) = (s == s) := rfl
    rw [hself, beq_self_eq_true]
    exact ⟨fun _ => by simp [items], fun _ => rfl⟩
  | @list y z hy hne hitems =>
    rw [Heap.equal_lists_iff hitems hne (Nat.zero_lt_of_lt hy), items, hitems]

theorem takenApart_alike (hx : Repeatable w x) (hc : Counts c i) (hd : Counts d j)
    (hsum : Counts (c + d) (i + j)) (hi : 0 ≤ i) (hj : 0 ≤ j)
    (hroom : bytes w x * (i + j).toNat ≤ room w) :
    ∃ v u w', takenApart x c d w = .ok (v, u) w' ∧ Alike w' v u := by
  cases hx with
  | string s => exact ⟨_, _, w, takenApart_string hc hd hsum hi hj hroom, .string _⟩
  | list hid =>
    obtain ⟨y, z, w', htaken, hy, hne, hitems, -⟩ := takenApart_list hid hc hd hsum hi hj hroom
    exact ⟨_, _, w', htaken, .list hy hne hitems⟩

/-! ## Laws -/

/-- What products of a string or a list and whole numbers are. -/
structure RepetitionLaws (w : World) (x : Value) : Prop where
  /-- A product is as many copies as the number says, none for a negative one; a list is new, and
  what there was is unchanged. Or it is too large. -/
  product {a b : Value} {c : Float} (hc : Number.isWhole c) (hab : Factors x c a b) :
      ∃ i, Counts c i ∧
    ((∃ v w', binary .mul a b w = .ok v w' ∧ Repeats i.toNat w x v w' ∧ length w' v =
      length w x * i.toNat ∧
      ∀ id : ListId, id.index < w.heap.lists.size → w'.heap.list id = w.heap.list id) ∨
    binary .mul a b w = .error (.runtime (.refused .repetitionTooLarge)) w)
  /-- There is always room for nothing. -/
  nothing {a b : Value} {c : Float} {i : Int} (hc : Counts c i) (hab : Factors x c a b)
    (hnone : length w x = 0 ∨ i ≤ 0) :
    ∃ v w', binary .mul a b w = .ok v w' ∧ Repeats i.toNat w x v w' ∧ length w' v = 0
  /-- A product with a sum of two counts has the parts of the sum of the products with them, and is
  equal to that unless an item is not a number. -/
  sum {c d : Float} {i j : Int} (hc : Counts c i) (hd : Counts d j) (hi : 0 ≤ i) (hj : 0 ≤ j)
    (hsum : Counts (c + d) (i + j)) (hmade : ∃ v w', binary .mul x (.number (c + d)) w = .ok v w') :
    ∃ v u w', takenApart x c d w = .ok (v, u) w' ∧ Alike w' v u ∧
      ∃ same, binary .eq v u w' = .ok (.bool same) w' ∧
        (same = true ↔ ∀ item ∈ items w' v, ¬item.IsNaN)

/-- **Repetition is exact at every count.** -/
theorem repetition_laws (hx : Repeatable w x) : RepetitionLaws w x where
  product {a b c} hc hab := by
    obtain ⟨i, hc⟩ := Number.exists_counts hc
    refine ⟨i, hc, ?_⟩
    by_cases hroom : bytes w x * i.toNat ≤ room w
    · obtain ⟨v, w', hmade, hrepeats⟩ := exists_product hx hc hab hroom
      exact .inl ⟨v, w', hmade, hrepeats, hrepeats.length_eq, fun _ hid => hrepeats.unchanged hid⟩
    · exact .inr (product_fails hx hc hab hroom)
  nothing {a b c i} hc hab hnone := by
    have hlength : length w x * i.toNat = 0 := by
      rcases hnone with h | h
      · rw [h, Nat.zero_mul]
      · rw [Int.toNat_of_nonpos h, Nat.mul_zero]
    have hbytes : bytes w x * i.toNat = 0 := by
      rcases hnone with h | h
      · rw [bytes_eq_zero h, Nat.zero_mul]
      · rw [Int.toNat_of_nonpos h, Nat.mul_zero]
    obtain ⟨v, w', hmade, hrepeats⟩ := exists_product hx hc hab (hbytes ▸ Nat.zero_le _)
    exact ⟨v, w', hmade, hrepeats, hrepeats.length_eq.trans hlength⟩
  sum {c d i j} hc hd hi hj hsum hmade := by
    obtain ⟨v, w', hmade⟩ := hmade
    have hroom : bytes w x * (i + j).toNat ≤ room w := by
      by_contra hroom
      rw [product_fails hx hsum .before hroom] at hmade
      cases hmade
    obtain ⟨v, u, w', htaken, halike⟩ := takenApart_alike hx hc hd hsum hi hj hroom
    exact ⟨v, u, w', htaken, halike, halike.equal_iff⟩

/-- A state with one list, of a number and null. -/
def withPair : World := Library.withList (.initial .default 0 0) #[.number 0.5, .null]

theorem repetition_laws_pair :
    Repeatable withPair (.list ⟨0⟩) ∧ RepetitionLaws withPair (.list ⟨0⟩) ∧
    ∃ v w', binary .mul (.number 3.0) (.list ⟨0⟩) withPair = .ok v w' ∧ length w' v = 6 := by
  have hpair : Repeatable withPair (.list ⟨0⟩) := .list (by decide)
  have hthree : Counts 3.0 3 := ⟨by decide, by decide⟩
  obtain ⟨v, w', hmade, hrepeats⟩ := exists_product hpair hthree .behind (by decide)
  exact ⟨hpair, repetition_laws hpair, v, w', hmade, hrepeats.length_eq⟩

/-- A state with one list, of what is not a number. -/
def withNaN : World := Library.withList (.initial .default 0 0) #[.number Number.notANumber]

/-- A list of what is not a number, taken twice, is not equal to itself taken once and once
again. -/
theorem repetition_not_sum :
    ¬∀ (w : World) (x : Value) (c d : Float) (i j : Int), Repeatable w x → Counts c i →
    Counts d j → 0 ≤ i → 0 ≤ j → Counts (c + d) (i + j) →
      (∃ v w', binary .mul x (.number (c + d)) w = .ok v w') →
    ∃ v u w', takenApart x c d w = .ok (v, u) w' ∧ binary .eq v u w' = .ok (.bool true) w' := by
  intro h
  have hone : Counts 1.0 1 := ⟨by decide, by decide⟩
  have htwo : Counts (1.0 + 1.0) (1 + 1) := ⟨by decide, by decide⟩
  have hid : (⟨0⟩ : ListId).index < withNaN.heap.lists.size := by decide
  have hroom : bytes withNaN (.list ⟨0⟩) * (1 + 1 : Int).toNat ≤ room withNaN := by decide
  obtain ⟨v, u, w', htaken, hequal⟩ := h withNaN (.list ⟨0⟩) 1.0 1.0 1 1 (.list hid) hone hone
    (by decide) (by decide)
    htwo ⟨_, _, product_list hid htwo .before hroom⟩
  obtain ⟨y, z, w'', htaken', hy, hne, hitems, hcopies⟩ :=
    takenApart_list hid hone hone htwo (by decide) (by decide) hroom
  rw [htaken'] at htaken
  cases htaken
  obtain ⟨same, hsame, hiff⟩ := (Alike.list hy hne hitems).equal_iff
  rw [hequal] at hsame
  cases hsame
  refine hiff.mp rfl (.number Number.notANumber) ?_ ⟨_, rfl, by decide⟩
  rw [items, hcopies, List.mem_toArray]
  exact List.mem_cons_self

end Operators

end ScriptEngine
