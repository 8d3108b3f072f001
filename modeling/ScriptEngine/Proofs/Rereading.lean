import ScriptEngine.Interchange.Read
import ScriptEngine.Proofs.Integers
/-!
# What is written is read back

The text of interchange data is read back as the same data: strings lose their escapes, whole
numbers are digits that stay below what a reader keeps exactly, and items are told apart by commas
that no item begins with. A whole number comes back without the sign of a zero.

* `Interchange.Takes` : a reader takes a text off the front of whatever is ahead.
* `Interchange.takes_readString`, `Interchange.takes_readNumber`, `Interchange.takes_readItems`,
  `Interchange.takes_readMembers` : the parts of the format.
* `Node.Plain` : data that nests so deep at most and has small whole numbers and distinct names.
* `Node.reread` : what becomes of its numbers.
* **`Interchange.read_write`** : a text is read back as what it was written from.
-/

namespace ScriptEngine.Interchange

variable {α β : Type} {text rest : List Char}

/-! ## Readers -/

/-- The reader takes the text off the front of what is ahead, and yields the value. -/
def Takes (r : Reader α) (text : List Char) (a : α) (rest : List Char) : Prop :=
  ∀ i, ∃ j, r ⟨text ++ rest, i⟩ = .ok (a, ⟨rest, j⟩)

namespace Takes

theorem bind {r : Reader α} {f : α → Reader β} {a : α} {b : β} {more : List Char}
    (hr : Takes r text a (more ++ rest)) (hf : Takes (f a) more b rest) :
    Takes (r >>= f) (text ++ more) b rest := by
  intro i
  obtain ⟨j, hj⟩ := hr i
  obtain ⟨k, hk⟩ := hf j
  refine ⟨k, ?_⟩
  rw [List.append_assoc]
  change (r ⟨text ++ (more ++ rest), i⟩ >>= fun p => f p.1 p.2) = _
  rw [hj]
  exact hk

/-- A reader that looks ahead first. -/
theorem look {r : Reader α} {f : α → Reader β} {a : α} {b : β} (hr : Takes r [] a (text ++ rest))
    (hf : Takes (f a) text b rest) : Takes (r >>= f) text b rest :=
  hr.bind hf

/-- A reader after which the value is made. -/
theorem map {r : Reader α} {a : α} (hr : Takes r text a rest) (f : α → β) :
    Takes (do return f (← r)) text (f a) rest := by
  intro i
  obtain ⟨j, hj⟩ := hr i
  refine ⟨j, ?_⟩
  change (r ⟨text ++ rest, i⟩ >>= fun p => pure (f p.1, p.2)) = _
  rw [hj]
  rfl

theorem pure (a : α) (rest : List Char) : Takes (pure a) [] a rest := fun i => ⟨i, rfl⟩

/-- What stands ahead is known where it is asked for. -/
theorem get {f : Input → Reader β} {b : β} (hf : ∀ i, Takes (f ⟨text ++ rest, i⟩) text b rest) :
    Takes (get >>= f) text b rest :=
  fun i => hf i i

end Takes

theorem takes_skip (c : Char) (rest : List Char) : Takes skip [c] () rest :=
  fun i => ⟨i + c.utf8Size, rfl⟩

/-- A closing mark after which the value is known. -/
theorem takes_close (c : Char) (a : α) (rest : List Char) :
    Takes (do skip; return a) [c] a rest :=
  fun i => ⟨i + c.utf8Size, rfl⟩

theorem takes_peek (rest : List Char) : Takes peek? [] rest.head? rest := fun i => ⟨i, rfl⟩

theorem takes_takeWhile {p : Char → Bool} (hp : ∀ c ∈ text, p c)
    (hrest : ∀ c ∈ rest.head?, p c = false) :
    Takes (takeWhile p) text text rest := by
  have htaken : (text ++ rest).takeWhile p = text := by
    rw [List.takeWhile_append_of_pos hp]
    cases rest with
    | nil => simp
    | cons c cs => simp [hrest c rfl]
  intro i
  refine ⟨i + byteLength text, ?_⟩
  change Except.ok ((text ++ rest).takeWhile p, (Input.mk _ _)) = _
  simp only [htaken, List.drop_left]

theorem takes_peekToken {c : Char} (hc : isBlank c = false) (rest : List Char) :
    Takes peekToken? [] (some c) (c :: rest) := by
  have hblank : ∀ d ∈ (c :: rest).head?, isBlank d = false := by
    rintro d ⟨⟩
    exact hc
  exact (takes_takeWhile (List.forall_mem_nil _) hblank).look (takes_peek _)

/-- At the end there is no next character. -/
theorem takes_peekToken_nil : Takes peekToken? [] none [] :=
  (takes_takeWhile (List.forall_mem_nil _) (by simp)).look (takes_peek _)

theorem takes_readWord (value : Node) (word rest : List Char) :
    Takes (readWord value word) word value rest := by
  induction word with
  | nil => exact .pure _ _
  | cons c cs ih =>
    refine (takes_peek (c :: (cs ++ rest))).look ?_
    simp only [List.head?_cons, beq_self_eq_true, if_true]
    exact (takes_skip c _).bind ih

/-! ## Strings -/

/-- The text of a string between its quotes. -/
def escaped (s : String) : List Char := s.toList.flatMap fun c => (escape c).toList

theorem writeString_toList (s : String) : (writeString s).toList = '"' :: (escaped s ++ ['"']) := by
  have hjoin : (String.join (s.toList.map escape)).toList = escaped s := by
    rw [String.toList_join, List.flatMap_map]
    rfl
  simp [writeString, hjoin]

/-- Two hexadecimal digits are read as the number below 256 that they were written from. -/
theorem hexValue_hexPair : ∀ n < 32,
    hexValue? '0' '0' (Nat.digitChar (n / 16)) (Nat.digitChar (n % 16)) = some n := by
  decide

/-- A character is read back from what it is written as. -/
theorem stringFrom_escape (c : Char) (cs : List Char) (i : Nat) (before : List Char) :
    ∃ j, stringFrom ((escape c).toList ++ cs) i before = stringFrom cs j (c :: before) := by
  have hchar {n : Nat} (hn : c.toNat = n) : c = Char.ofNat n := by rw [← hn, Char.ofNat_toNat]
  by_cases hquote : c = '"'
  · subst hquote
    exact ⟨i + 2, rfl⟩
  by_cases hbackslash : c = '\\'
  · subst hbackslash
    exact ⟨i + 2, rfl⟩
  by_cases hline : c = '\n'
  · subst hline
    exact ⟨i + 2, rfl⟩
  by_cases hreturn : c = '\r'
  · subst hreturn
    exact ⟨i + 2, rfl⟩
  by_cases htab : c = '\t'
  · subst htab
    exact ⟨i + 2, rfl⟩
  have hescape : escape c =
      if c.toNat = 8 then "\\b" else if c.toNat = 12 then "\\f"
      else if c.toNat < 0x20 then "\\u00" ++ hexPair c.toNat else c.toString := by
    unfold escape
    split
    · exact absurd rfl hquote
    · exact absurd rfl hbackslash
    · exact absurd rfl hline
    · exact absurd rfl hreturn
    · exact absurd rfl htab
    · rfl
  rw [hescape]
  split_ifs with hback hfeed hcontrol
  · rw [hchar hback]
    exact ⟨i + 2, rfl⟩
  · rw [hchar hfeed]
    exact ⟨i + 2, rfl⟩
  · have hhex := hexValue_hexPair c.toNat hcontrol
    have hlow : isLowHalf c.toNat = false := by
      simp only [isLowHalf, Bool.and_eq_false_iff, decide_eq_false_iff_not]
      omega
    have hhigh : isHighHalf c.toNat = false := by
      simp only [isHighHalf, Bool.and_eq_false_iff, decide_eq_false_iff_not]
      omega
    have htext : ("\\u00" ++ hexPair c.toNat).toList =
        ['\\', 'u', '0', '0', Nat.digitChar (c.toNat / 16), Nat.digitChar (c.toNat % 16)] := by
      simp [hexPair]
    refine ⟨i + 6, ?_⟩
    rw [htext]
    simp only [List.cons_append, List.nil_append]
    rw [stringFrom, hhex]
    simp [hlow, hhigh]
  · have htext : c.toString.toList = [c] := by simp
    refine ⟨i + c.utf8Size, ?_⟩
    rw [htext, List.singleton_append, stringFrom, if_neg hcontrol]
    all_goals simp_all

theorem stringFrom_escapes (s rest : List Char) (i : Nat) (before : List Char) :
    ∃ j, stringFrom (s.flatMap (fun c => (escape c).toList) ++ '"' :: rest) i before =
      .ok (String.ofList (before.reverse ++ s), ⟨rest, j⟩) := by
  induction s generalizing i before with
  | nil => exact ⟨i + 1, by simp [stringFrom]⟩
  | cons c cs ih =>
    obtain ⟨k, hk⟩ := stringFrom_escape c (cs.flatMap (fun c => (escape c).toList) ++ '"' :: rest) i
      before
    obtain ⟨j, hj⟩ := ih k (c :: before)
    refine ⟨j, ?_⟩
    rw [List.flatMap_cons, List.append_assoc, hk, hj]
    simp

/-- A string is read back up to its closing quote. -/
theorem takes_readString (s : String) (rest : List Char) :
    Takes readString (escaped s ++ ['"']) s rest := by
  intro i
  obtain ⟨j, hj⟩ := stringFrom_escapes s.toList rest i []
  refine ⟨j, ?_⟩
  change stringFrom (escaped s ++ ['"'] ++ rest) i [] = _
  rw [List.append_assoc]
  simpa [escaped] using hj

/-! ## Numbers -/

/-- Nothing comes next that could belong to a number. -/
def Stops (rest : List Char) : Prop := ∀ c ∈ rest.head?, c = ',' ∨ c = ']' ∨ c = '\x7d'

/-- Small whole numbers are written as integers. -/
theorem writeNumber_toList {x : Float} (hwhole : Number.isWhole x)
    (hsmall : (Number.toInt64 x).natAbs < 10 ^ 15) :
    (writeNumber x).toList = (if Number.toInt64 x < 0 then ['-'] else []) ++
      (Nat.repr (Number.toInt64 x).natAbs).toList := by
  have hlt : (Number.toInt64 x).natAbs < 2 ^ 63 - 1 := Nat.lt_trans hsmall (by decide)
  obtain ⟨negative, m, e, h, -, htruncated⟩ := Number.exact_of_isWhole hwhole hlt
  rw [htruncated] at hsmall ⊢
  unfold writeNumber
  rw [h, hwhole]
  simp only
  generalize Number.wholeMagnitude m e = w at hsmall ⊢
  have hw : w < Nat.pow 10 15 := by
    change w < 10 ^ 15
    split at hsmall <;> omega
  rw [Bool.true_and, if_pos (decide_eq_true hw)]
  cases negative with
  | false => simp
  | true =>
    rcases Nat.eq_zero_or_pos w with rfl | hpos
    · rfl
    · simp [hpos, hpos.ne']

/-- Digits are added up as long as the number is within the limit. -/
theorem absorb_of_le {limit : Nat} (ds : List Char) (n : Nat)
    (hle : ds.foldl (fun n d => 10 * n + (d.toNat - 48)) n ≤ limit) :
    absorb limit n ds = (ds.foldl (fun n d => 10 * n + (d.toNat - 48)) n, []) := by
  have hgrows (ds : List Char) (n : Nat) : n ≤ ds.foldl (fun n d => 10 * n + (d.toNat - 48)) n := by
    induction ds generalizing n with
    | nil => exact Nat.le_refl n
    | cons d ds ih =>
      have hstep : n ≤ 10 * n + (d.toNat - 48) := by omega
      exact hstep.trans (ih _)
  induction ds generalizing n with
  | nil => rfl
  | cons d ds ih =>
    rw [List.foldl_cons] at hle ⊢
    have hstep : n * 10 + (d.toNat - 48) ≤ limit := by
      rw [Nat.mul_comm]
      exact (hgrows ds _).trans hle
    rw [absorb]
    simp only [if_pos hstep]
    rw [Nat.mul_comm]
    exact ih _ hle

/-- No number but zero begins with a zero. -/
theorem toDigits_ne_zero_cons {n : Nat} (hn : 0 < n) (ds : List Char) :
    Nat.toDigits 10 n ≠ '0' :: ds := by
  induction n using Nat.strong_induction_on generalizing ds with
  | _ n ih =>
    by_cases hlt : n < 10
    · rw [Nat.toDigits_of_lt_base hlt]
      have hdigit : ∀ n < 10, 0 < n → Nat.digitChar n ≠ '0' := by decide
      intro heq
      exact hdigit n hlt hn (List.cons.inj heq).1
    · have hle : 10 ≤ n := Nat.le_of_not_lt hlt
      rw [Nat.toDigits_of_base_le (by decide) hle]
      intro heq
      rcases List.append_eq_cons_iff.mp heq with ⟨hnil, -⟩ | ⟨more, hcons, -⟩
      · exact Nat.toDigits_ne_nil hnil
      · exact ih (n / 10) (Nat.div_lt_self hn (by decide)) (Nat.div_pos hle (by decide)) more hcons

/-- A number begins with a digit, and with a zero only if that is all of it. -/
theorem exists_cons_repr (n : Nat) :
    ∃ d ds, (Nat.repr n).toList = d :: ds ∧ d.isDigit ∧ (d = '0' → ds = []) := by
  obtain ⟨d, ds, hcons⟩ := List.exists_cons_of_ne_nil (Number.repr_toList_ne_nil n)
  refine ⟨d, ds, hcons, Number.isDigit_of_mem_repr (hcons ▸ List.mem_cons_self), ?_⟩
  rintro rfl
  rcases Nat.eq_zero_or_pos n with rfl | hpos
  · exact (List.cons.inj hcons).2.symm
  · rw [Nat.toList_repr] at hcons
    exact absurd hcons (toDigits_ne_zero_cons hpos ds)

/-- A digit is no other character. -/
theorem ne_of_isDigit {c d : Char} (hd : d.isDigit) (hc : c.isDigit = false) : d ≠ c := by
  rintro rfl
  exact Bool.false_ne_true (hc.symm.trans hd)

theorem isBlank_eq_false_of_isDigit {d : Char} (hd : d.isDigit) : isBlank d = false := by
  simp [isBlank, ne_of_isDigit hd]

/-- The number of an integer comes from its digits and its sign. -/
theorem signed_natAbs (i : Int) :
    signed (decide (i < 0)) (Float.ofNat i.natAbs) = Float.ofInt i := by
  cases i with
  | ofNat n => rfl
  | negSucc n =>
    rw [decide_eq_true (Int.negSucc_lt_zero n)]
    rfl

/-- The digits of a number that is not too great are read back. -/
theorem takes_readNumber {n : Nat} (hn : n ≤ maxSignificand) (negative : Bool) {rest : List Char}
    (hrest : Stops rest) :
    Takes (readNumber negative) (Nat.repr n).toList (signed negative (Float.ofNat n)) rest := by
  have hdigits : ∀ c ∈ (Nat.repr n).toList, c.isDigit := fun c hc => Number.isDigit_of_mem_repr hc
  have hends : ∀ c ∈ rest.head?, c.isDigit = false := by
    intro c hc
    rcases hrest c hc with rfl | rfl | rfl <;> decide
  have habsorb : absorb maxSignificand 0 (Nat.repr n).toList = (n, []) := by
    have hvalue := Number.digitsToNat_repr n
    unfold Number.digitsToNat at hvalue
    rw [absorb_of_le (Nat.repr n).toList 0 (by rwa [hvalue]), hvalue]
  obtain ⟨d, ds, hcons, -, hzero⟩ := exists_cons_repr n
  refine Takes.get fun i => ?_
  have htext : (Nat.repr n).toList = (Nat.repr n).toList ++ [] := (List.append_nil _).symm
  rw [htext]
  refine (takes_takeWhile hdigits hends).bind ?_
  rw [habsorb, hcons]
  split
  · next hnil => cases hnil
  · next heq =>
    obtain ⟨hd, hds⟩ := List.cons.inj heq
    rw [hzero hd] at hds
    cases hds
  · refine (takes_peek rest).look ?_
    split
    · next hhead => rcases hrest _ hhead with h | h | h <;> cases h
    · next hhead => rcases hrest _ hhead with h | h | h <;> cases h
    · next hhead => rcases hrest _ hhead with h | h | h <;> cases h
    · exact .pure _ _

/-! ## Values -/

/-- Data that nests so deep at most, has small whole numbers, and no two members of one name. -/
inductive Node.Plain : (levels : Nat) → Node → Prop
  | null {levels : Nat} : Plain levels .null
  | bool {levels : Nat} (b : Bool) : Plain levels (.bool b)
  | string {levels : Nat} (s : String) : Plain levels (.string s)
  | number {levels : Nat} {x : Float} (hwhole : Number.isWhole x)
      (hsmall : (Number.toInt64 x).natAbs < 10 ^ 15) : Plain levels (.number x)
  | array {levels : Nat} {items : List Node} (hitems : ∀ n ∈ items, Plain levels n) :
      Plain (levels + 1) (.array items)
  | object {levels : Nat} {members : List (String × Node)} (hnames : (members.map (·.1)).Nodup)
      (hmembers : ∀ m ∈ members, Plain levels m.2) : Plain (levels + 1) (.object members)

theorem Node.Plain.mono {levels more : Nat} {n : Node} (hn : n.Plain levels) (hle : levels ≤ more) :
    n.Plain more := by
  induction hn generalizing more with
  | null => exact .null
  | bool b => exact .bool b
  | string s => exact .string s
  | number hwhole hsmall => exact .number hwhole hsmall
  | array hitems ih =>
    obtain ⟨more, rfl⟩ := Nat.exists_eq_add_of_le' (Nat.lt_of_lt_of_le (Nat.succ_pos _) hle)
    exact .array fun n hn => ih n hn (Nat.le_of_succ_le_succ hle)
  | object hnames hmembers ih =>
    obtain ⟨more, rfl⟩ := Nat.exists_eq_add_of_le' (Nat.lt_of_lt_of_le (Nat.succ_pos _) hle)
    exact .object hnames fun m hm => ih m hm (Nat.le_of_succ_le_succ hle)

mutual

/-- The data that is read back. The number zero comes back without its sign. -/
def Node.reread : Node → Node
  | .number x => .number (Float.ofInt (Number.toInt64 x))
  | .array items => .array (rereadItems items)
  | .object members => .object (rereadMembers members)
  | .null => .null
  | .bool b => .bool b
  | .string s => .string s

/-- Items that are read back. -/
def rereadItems : List Node → List Node
  | [] => []
  | n :: ns => n.reread :: rereadItems ns

/-- Members that are read back. -/
def rereadMembers : List (String × Node) → List (String × Node)
  | [] => []
  | (name, n) :: ns => (name, n.reread) :: rereadMembers ns

end

/-! ### Texts -/

/-- The text of a member. -/
def memberText (m : String × Node) : List Char :=
  '"' :: (escaped m.1 ++ '"' :: ':' :: m.2.write.toList)

/-- The texts one after another, each with a comma in front. -/
def afterCommas (texts : List (List Char)) : List Char := texts.flatMap (',' :: ·)

/-- The texts with commas between them. -/
def withCommas : List (List Char) → List Char
  | [] => []
  | text :: texts => text ++ afterCommas texts

theorem toList_intercalate (texts : List String) :
    (String.intercalate "," texts).toList = withCommas (texts.map String.toList) := by
  cases texts with
  | nil => rfl
  | cons t ts =>
    induction ts generalizing t with
    | nil => simp [withCommas, afterCommas]
    | cons t' ts ih =>
      rw [String.intercalate_cons_cons, String.toList_append, String.toList_append, ih]
      simp [withCommas, afterCommas]

theorem map_writeItems (items : List Node) :
    (writeItems items).map String.toList = items.map fun n => n.write.toList := by
  induction items with
  | nil => rfl
  | cons n ns ih => exact congrArg (n.write.toList :: ·) ih

theorem map_writeMembers (members : List (String × Node)) :
    (writeMembers members).map String.toList = members.map memberText := by
  induction members with
  | nil => rfl
  | cons m ms ih => simp [writeMembers, memberText, writeString_toList, ih]

theorem write_array_toList (items : List Node) :
    (Node.array items).write.toList =
      '[' :: (withCommas (items.map fun n => n.write.toList) ++ [']']) := by
  rw [Node.write, String.toList_append, String.toList_append, toList_intercalate, map_writeItems]
  rfl

theorem write_object_toList (members : List (String × Node)) :
    (Node.object members).write.toList =
      '\x7b' :: (withCommas (members.map memberText) ++ ['\x7d']) := by
  rw [Node.write, String.toList_append, String.toList_append, toList_intercalate, map_writeMembers]
  rfl

theorem rereadItems_eq_map (items : List Node) : rereadItems items = items.map Node.reread := by
  induction items with
  | nil => rfl
  | cons n ns ih => exact congrArg (n.reread :: ·) ih

theorem rereadMembers_eq_map (members : List (String × Node)) :
    rereadMembers members = members.map fun m => (m.1, m.2.reread) := by
  induction members with
  | nil => rfl
  | cons m ms ih => exact congrArg ((m.1, m.2.reread) :: ·) ih

theorem stops_cons {c : Char} (hc : c = ',' ∨ c = ']' ∨ c = '\x7d') (rest : List Char) :
    Stops (c :: rest) := by
  rintro d ⟨⟩
  exact hc

/-- Behind an item comes a comma or the end of its list. -/
theorem stops_afterCommas (texts : List (List Char)) {close : Char}
    (hclose : close = ']' ∨ close = '\x7d') (rest : List Char) :
    Stops (afterCommas texts ++ [close] ++ rest) := by
  cases texts with
  | nil => exact stops_cons (.inr hclose) rest
  | cons t ts => exact stops_cons (.inl rfl) _

/-- What the text of a value begins with. -/
theorem Node.Plain.exists_cons {levels : Nat} {n : Node} (hn : n.Plain levels) :
    ∃ c cs, n.write.toList = c :: cs ∧ isBlank c = false ∧ c ≠ ']' := by
  cases hn with
  | null => exact ⟨'n', _, rfl, rfl, by decide⟩
  | bool b =>
    cases b with
    | true => exact ⟨'t', _, rfl, rfl, by decide⟩
    | false => exact ⟨'f', _, rfl, rfl, by decide⟩
  | string s => exact ⟨'"', _, writeString_toList s, rfl, by decide⟩
  | @number _ x hwhole hsmall =>
    change ∃ c cs, (writeNumber x).toList = c :: cs ∧ _
    rw [writeNumber_toList hwhole hsmall]
    by_cases hneg : Number.toInt64 x < 0
    · rw [if_pos hneg]
      exact ⟨'-', _, rfl, rfl, by decide⟩
    · obtain ⟨d, ds, hcons, hd, -⟩ := exists_cons_repr (Number.toInt64 x).natAbs
      rw [if_neg hneg, hcons]
      exact ⟨d, ds, rfl, isBlank_eq_false_of_isDigit hd, ne_of_isDigit hd rfl⟩
  | array items => exact ⟨'[', _, write_array_toList _, rfl, by decide⟩
  | object _ members => exact ⟨'\x7b', _, write_object_toList _, rfl, by decide⟩

/-! ### Lists and objects -/

section Items

variable {item : Reader Node} {levels : Nat}

/-- What begins a text is seen in front of it. -/
theorem takes_peekToken_of_cons {c : Char} {cs : List Char} (htext : text = c :: cs)
    (hc : isBlank c = false) : Takes peekToken? [] (some c) (text ++ rest) := by
  rw [htext]
  exact takes_peekToken hc _

/-- The items behind the first one, with the commas in front of them. -/
theorem takes_laterItems (rest : List Char) {items : List Node}
    (hplain : ∀ n ∈ items, n.Plain levels)
    (hitem : ∀ n ∈ items, ∀ rest, Stops rest → Takes item n.write.toList n.reread rest)
    {limit : Nat} (hlimit : items.length < limit) :
    Takes (readItems item limit false) (afterCommas (items.map fun n => n.write.toList) ++ [']'])
      (items.map Node.reread) rest := by
  induction items generalizing limit with
  | nil =>
    obtain ⟨limit, rfl⟩ := Nat.exists_eq_add_of_lt hlimit
    refine (takes_peekToken (c := ']') rfl rest).look ?_
    exact takes_close ']' [] rest
  | cons n ns ih =>
    obtain ⟨limit, rfl⟩ := Nat.exists_eq_add_of_lt hlimit
    obtain ⟨hn, hns⟩ := List.forall_mem_cons.mp hplain
    obtain ⟨hread, hreads⟩ := List.forall_mem_cons.mp hitem
    obtain ⟨c, cs, hcons, hblank, hclose⟩ := hn.exists_cons
    have hlater := ih hns hreads (Nat.lt_of_lt_of_le (Nat.lt_succ_self _)
      (Nat.le_add_right _ limit))
    have hfirst := hread _ (stops_afterCommas (ns.map fun n => n.write.toList) (.inl rfl) rest)
    let more := n.write.toList ++ (afterCommas (ns.map fun n => n.write.toList) ++ [']'])
    have htext : afterCommas ((n :: ns).map fun n => n.write.toList) ++ [']'] = [','] ++ more := by
      simp [afterCommas, more]
    rw [htext]
    refine (takes_peekToken (c := ',') rfl (more ++ rest)).look ?_
    simp only [Bool.false_eq_true, if_false]
    refine (takes_skip ',' _).bind ?_
    have hmore : more = c :: (cs ++ (afterCommas (ns.map fun n => n.write.toList) ++ [']'])) := by
      simp [more, hcons]
    refine (takes_peekToken_of_cons hmore hblank).look ?_
    split
    · next hnone => cases hnone
    · next hsome => exact absurd (Option.some.inj hsome) hclose
    · exact hfirst.bind (hlater.map (n.reread :: ·))

/-- The items of a list up to its end. -/
theorem takes_readItems (rest : List Char) {items : List Node}
    (hplain : ∀ n ∈ items, n.Plain levels)
    (hitem : ∀ n ∈ items, ∀ rest, Stops rest → Takes item n.write.toList n.reread rest)
    {limit : Nat} (hlimit : items.length < limit) :
    Takes (readItems item limit true) (withCommas (items.map fun n => n.write.toList) ++ [']'])
      (items.map Node.reread) rest := by
  obtain ⟨limit, rfl⟩ := Nat.exists_eq_add_of_lt hlimit
  cases items with
  | nil =>
    refine (takes_peekToken (c := ']') rfl rest).look ?_
    exact takes_close ']' [] rest
  | cons n ns =>
    obtain ⟨hn, hns⟩ := List.forall_mem_cons.mp hplain
    obtain ⟨hread, hreads⟩ := List.forall_mem_cons.mp hitem
    obtain ⟨c, cs, hcons, hblank, hclose⟩ := hn.exists_cons
    have hlater :=
      takes_laterItems rest hns hreads (Nat.lt_of_lt_of_le (Nat.lt_succ_self _)
        (Nat.le_add_right _ limit))
    have hfirst := hread _ (stops_afterCommas (ns.map fun n => n.write.toList) (.inl rfl) rest)
    have htext : withCommas ((n :: ns).map fun n => n.write.toList) ++ [']'] =
        n.write.toList ++ (afterCommas (ns.map fun n => n.write.toList) ++ [']']) := by
      simp [withCommas]
    rw [htext]
    have hahead : n.write.toList ++ (afterCommas (ns.map fun n => n.write.toList) ++ [']']) =
        c :: (cs ++ (afterCommas (ns.map fun n => n.write.toList) ++ [']'])) := by
      simp [hcons]
    refine (takes_peekToken_of_cons hahead hblank).look ?_
    simp only [if_true]
    exact hfirst.bind (hlater.map (n.reread :: ·))

/-- A member is its name in quotes, a colon and its value. -/
theorem takes_readMember (name : String) (n : Node)
    (hread : Takes item n.write.toList n.reread rest) :
    Takes (readMember item) (memberText (name, n)) (name, n.reread) rest := by
  have htext : memberText (name, n) =
      ['"'] ++ ((escaped name ++ ['"']) ++ ([':'] ++ n.write.toList)) := by
    simp [memberText]
  rw [htext]
  refine (takes_skip '"' _).bind ((takes_readString name _).bind ?_)
  refine (takes_peekToken (c := ':') rfl (n.write.toList ++ rest)).look ?_
  exact (takes_skip ':' _).bind (hread.map (name, ·))

/-- The members behind the first one, with the commas in front of them. -/
theorem takes_laterMembers (rest : List Char) {members : List (String × Node)}
    (hitem : ∀ m ∈ members, ∀ rest, Stops rest → Takes item m.2.write.toList m.2.reread rest)
    {limit : Nat} (hlimit : members.length < limit) :
    Takes (readMembers item limit false) (afterCommas (members.map memberText) ++ ['\x7d'])
      (members.map fun m => (m.1, m.2.reread)) rest := by
  induction members generalizing limit with
  | nil =>
    obtain ⟨limit, rfl⟩ := Nat.exists_eq_add_of_lt hlimit
    refine (takes_peekToken (c := '\x7d') rfl rest).look ?_
    exact takes_close '\x7d' [] rest
  | cons m ms ih =>
    obtain ⟨limit, rfl⟩ := Nat.exists_eq_add_of_lt hlimit
    obtain ⟨hread, hreads⟩ := List.forall_mem_cons.mp hitem
    have hlater := ih hreads (Nat.lt_of_lt_of_le (Nat.lt_succ_self _) (Nat.le_add_right _ limit))
    have hfirst := takes_readMember m.1 m.2
      (hread _ (stops_afterCommas (ms.map memberText) (.inr rfl) rest))
    have htext : afterCommas ((m :: ms).map memberText) ++ ['\x7d'] =
        [','] ++ (memberText m ++ (afterCommas (ms.map memberText) ++ ['\x7d'])) := by
      simp [afterCommas]
    rw [htext]
    refine (takes_peekToken (c := ',') rfl _).look ?_
    simp only [Bool.false_eq_true, if_false]
    refine (takes_skip ',' _).bind ((takes_peekToken_of_cons (c := '"') rfl rfl).look ?_)
    exact hfirst.bind (hlater.map ((m.1, m.2.reread) :: ·))

/-- The members of an object up to its end. -/
theorem takes_readMembers (rest : List Char) {members : List (String × Node)}
    (hitem : ∀ m ∈ members, ∀ rest, Stops rest → Takes item m.2.write.toList m.2.reread rest)
    {limit : Nat} (hlimit : members.length < limit) :
    Takes (readMembers item limit true) (withCommas (members.map memberText) ++ ['\x7d'])
      (members.map fun m => (m.1, m.2.reread)) rest := by
  obtain ⟨limit, rfl⟩ := Nat.exists_eq_add_of_lt hlimit
  cases members with
  | nil =>
    refine (takes_peekToken (c := '\x7d') rfl rest).look ?_
    exact takes_close '\x7d' [] rest
  | cons m ms =>
    obtain ⟨hread, hreads⟩ := List.forall_mem_cons.mp hitem
    have hlater :=
      takes_laterMembers rest hreads (Nat.lt_of_lt_of_le (Nat.lt_succ_self _)
        (Nat.le_add_right _ limit))
    have hfirst := takes_readMember m.1 m.2
      (hread _ (stops_afterCommas (ms.map memberText) (.inr rfl) rest))
    have htext : withCommas ((m :: ms).map memberText) ++ ['\x7d'] =
        memberText m ++ (afterCommas (ms.map memberText) ++ ['\x7d']) := by
      simp [withCommas]
    rw [htext]
    refine (takes_peekToken_of_cons (c := '"') rfl rfl).look ?_
    exact hfirst.bind (hlater.map ((m.1, m.2.reread) :: ·))

end Items

/-! ### Values of every kind -/

/-- Members of new names are kept behind those before them. -/
theorem foldl_lastValues (before members : List (String × Node))
    (hnames : ((before ++ members).map (·.1)).Nodup) :
    members.foldl (fun kept e =>
      if kept.any (·.1 == e.1) then kept.map fun d => if d.1 == e.1 then (e.1, e.2) else d
      else kept ++ [(e.1, e.2)]) before = before ++ members := by
  induction members generalizing before with
  | nil => simp
  | cons m ms ih =>
    have hnew : before.any (·.1 == m.1) = false := by
      rw [List.any_eq_false]
      intro d hd heq
      rw [List.map_append] at hnames
      exact List.disjoint_of_nodup_append hnames (List.mem_map_of_mem hd)
        (beq_iff_eq.mp heq ▸ List.mem_cons_self)
    have hmore : before ++ m :: ms = (before ++ [m]) ++ ms := by simp
    rw [hmore] at hnames ⊢
    rw [List.foldl_cons, hnew]
    exact ih _ hnames

/-- Members of different names are all kept. -/
theorem lastValues_of_nodup {members : List (String × Node)} (hnames : (members.map (·.1)).Nodup) :
    lastValues members = members :=
  foldl_lastValues [] members hnames

/-- There are at least as many characters as there are texts that hold one. -/
theorem length_le_withCommas {texts : List (List Char)} (htexts : [] ∉ texts) :
    texts.length ≤ (withCommas texts).length := by
  cases texts with
  | nil => exact Nat.le_refl 0
  | cons t ts =>
    have hfirst : 0 < t.length := List.length_pos_of_ne_nil fun h => htexts (h ▸ List.mem_cons_self)
    have hlater : ts.length ≤ (afterCommas ts).length := by
      clear htexts
      induction ts with
      | nil => exact Nat.le_refl 0
      | cons t ts ih => simpa [afterCommas] using by omega
    simp only [withCommas, List.length_append, List.length_cons]
    omega

/-- Data is read back up to what stops its numbers. -/
theorem takes_readValue {levels : Nat} {n : Node} (hn : n.Plain levels) {rest : List Char}
    (hrest : Stops rest) : Takes (readValue (levels + 1)) n.write.toList n.reread rest := by
  induction hn generalizing rest with
  | null =>
    refine (takes_peekToken (c := 'n') rfl _).look ?_
    exact (takes_skip 'n' _).bind (takes_readWord .null ['u', 'l', 'l'] rest)
  | bool b =>
    cases b with
    | true =>
      refine (takes_peekToken (c := 't') rfl _).look ?_
      exact (takes_skip 't' _).bind (takes_readWord (.bool true) ['r', 'u', 'e'] rest)
    | false =>
      refine (takes_peekToken (c := 'f') rfl _).look ?_
      exact (takes_skip 'f' _).bind (takes_readWord (.bool false) ['a', 'l', 's', 'e'] rest)
  | string s =>
    refine (takes_peekToken_of_cons (writeString_toList s) rfl).look ?_
    rw [writeString_toList]
    exact (takes_skip '"' _).bind ((takes_readString s rest).map Node.string)
  | @number _ x hwhole hsmall =>
    have hmax : (Number.toInt64 x).natAbs ≤ maxSignificand :=
      hsmall.le.trans (by decide)
    change Takes _ (writeNumber x).toList (Node.number (.ofInt (Number.toInt64 x))) _
    rw [writeNumber_toList hwhole hsmall, ← signed_natAbs]
    by_cases hneg : Number.toInt64 x < 0
    · rw [if_pos hneg, decide_eq_true hneg]
      refine (takes_peekToken (c := '-') rfl _).look ?_
      exact (takes_skip '-' _).bind ((takes_readNumber hmax true hrest).map Node.number)
    · obtain ⟨d, ds, hcons, hd, -⟩ := exists_cons_repr (Number.toInt64 x).natAbs
      rw [if_neg hneg, decide_eq_false hneg, List.nil_append]
      refine (takes_peekToken_of_cons hcons (isBlank_eq_false_of_isDigit hd)).look ?_
      split
      · next hnone => cases hnone
      iterate 7 next hsome => exact absurd (Option.some.inj hsome) (ne_of_isDigit hd rfl)
      next hsome =>
        cases hsome
        rw [if_pos hd]
        exact (takes_readNumber hmax false hrest).map Node.number
  | @array levels items hitems ih =>
    have htexts : [] ∉ items.map fun n => n.write.toList := by
      intro hmem
      obtain ⟨n, hn, hnil⟩ := List.mem_map.mp hmem
      obtain ⟨c, cs, hcons, -⟩ := (hitems n hn).exists_cons
      exact List.cons_ne_nil c cs (hcons.symm.trans hnil)
    have hlimit : items.length < (withCommas (items.map fun n => n.write.toList) ++ [']'] ++
        rest).length + 1 := by
      have := length_le_withCommas htexts
      simp only [List.length_append, List.length_map] at this ⊢
      omega
    rw [write_array_toList, Node.reread, rereadItems_eq_map]
    refine (takes_peekToken (c := '[') rfl _).look ?_
    refine (takes_skip '[' _).bind (Takes.get fun i => ?_)
    exact (takes_readItems rest hitems (fun n hn rest hrest => ih n hn hrest) hlimit).map Node.array
  | @object levels members hnames hmembers ih =>
    have htexts : [] ∉ members.map memberText := by
      intro hmem
      obtain ⟨m, -, hnil⟩ := List.mem_map.mp hmem
      cases hnil
    have hlimit : members.length < (withCommas (members.map memberText) ++ ['\x7d'] ++
        rest).length + 1 := by
      have := length_le_withCommas htexts
      simp only [List.length_append, List.length_map] at this ⊢
      omega
    have hreread : ((members.map fun m => (m.1, m.2.reread)).map (·.1)).Nodup := by
      rwa [List.map_map]
    have hitem : ∀ m ∈ members, ∀ rest, Stops rest →
        Takes (readValue (levels + 1)) m.2.write.toList m.2.reread rest := fun m hm rest hrest =>
          ih m hm hrest
    have hread := takes_readMembers rest hitem hlimit
    rw [write_object_toList, Node.reread, rereadMembers_eq_map, ← lastValues_of_nodup hreread]
    refine (takes_peekToken (c := '\x7b') rfl _).look ?_
    refine (takes_skip '\x7b' _).bind (Takes.get fun i => ?_)
    exact hread.map fun members => Node.object (lastValues members)

/-- **A text is read back as what it was written from.** -/
theorem read_write {n : Node} (hn : n.Plain 127) : read n.write = .ok n.reread := by
  have hstops : Stops [] := by
    rintro c ⟨⟩
  have htext : n.write.toList = n.write.toList ++ [] := (List.append_nil _).symm
  have hread : Takes readText n.write.toList n.reread [] := by
    rw [htext]
    exact (takes_readValue hn hstops).bind (takes_peekToken_nil.look (.pure _ _))
  obtain ⟨j, hj⟩ := hread 0
  rw [List.append_nil] at hj
  unfold read
  rw [hj]

end ScriptEngine.Interchange
