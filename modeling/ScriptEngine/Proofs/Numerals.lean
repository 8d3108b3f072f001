import Mathlib.Data.List.TakeWhile
import ScriptEngine.Token.Scan
/-!
# Numbers as they are written and read

A finite number without a sign is written as digits, perhaps with a point and further digits. Such a
text is one token, whatever follows it that no digit, point or mark of single precision could
belong to, and the token has the value that the text is parsed to.

* `Number.isNumeral_scriptText`, `Number.isNumeral_plain32` : what is written is a numeral.
* `Number.parseBits?_numeral` : what a numeral is parsed to.
* `Token.scanNumber_append` : how a numeral is scanned.
-/

namespace ScriptEngine

namespace Number

/-- Digits, with a point in front of the last of them if there are any after it. -/
def numeral (whole fraction : List Char) : List Char :=
  whole ++ if fraction = [] then [] else '.' :: fraction

/-- A text that is a number without sign and exponent. -/
def IsNumeral (text : String) : Prop :=
  ∃ whole fraction, whole ≠ [] ∧ (∀ c ∈ whole, c.isDigit) ∧ (∀ c ∈ fraction, c.isDigit) ∧
    text.toList = numeral whole fraction

/-! ### Writing -/

theorem isDigit_of_mem_repr {n : Nat} {c : Char} (h : c ∈ (Nat.repr n).toList) : c.isDigit := by
  rw [Nat.toList_repr] at h
  exact Nat.isDigit_of_mem_toDigits (by omega) (by omega) h

theorem repr_toList_ne_nil (n : Nat) : (Nat.repr n).toList ≠ [] := by
  rw [Nat.toList_repr]
  exact Nat.toDigits_ne_nil

theorem isNumeral_of_digits {text : String} (hne : text.toList ≠ [])
    (h : ∀ c ∈ text.toList, c.isDigit) : IsNumeral text :=
  ⟨text.toList, [], hne, h, by simp, by simp [numeral]⟩

theorem isNumeral_repr (n : Nat) : IsNumeral (Nat.repr n) :=
  isNumeral_of_digits (repr_toList_ne_nil n) fun _ => isDigit_of_mem_repr

theorem isDigit_of_mem_zeros {n : Nat} {c : Char} (h : c ∈ (zeros n).toList) : c.isDigit := by
  rw [zeros, String.toList_ofList, List.mem_replicate] at h
  rw [h.2]
  decide

theorem isDigit_of_mem_between_zeros {before digits behind : Nat} {c : Char}
    (h : c ∈ (zeros before).toList ++ (Nat.repr digits).toList ++ (zeros behind).toList) :
    c.isDigit := by
  rw [List.append_assoc] at h
  rcases List.mem_append.mp h with h | h
  · exact isDigit_of_mem_zeros h
  rcases List.mem_append.mp h with h | h
  · exact isDigit_of_mem_repr h
  · exact isDigit_of_mem_zeros h

/-- A layout without an exponent has the digits in it, with zeros around them, and the point where
the power of ten wants it. -/
theorem exists_numeral_plainLayout (digits : Nat) (exponent : Int) :
    ∃ whole fraction before behind, whole ≠ [] ∧
      (plainLayout digits exponent).toList = numeral whole fraction ∧
      whole ++ fraction = (zeros before).toList ++ (Nat.repr digits).toList ++
        (zeros behind).toList ∧
      exponent = (behind : Int) - fraction.length := by
  have hne := repr_toList_ne_nil digits
  unfold plainLayout
  generalize (Nat.repr digits).toList = text at hne
  cases exponent with
  | ofNat e =>
    exact ⟨text ++ (zeros e).toList, [], 0,
      e, by simp [hne], by simp [numeral], by simp [zeros], by simp⟩
  | negSucc e =>
    simp only
    by_cases hplaces : e + 1 < text.length
    · rw [if_pos hplaces]
      refine ⟨text.take (text.length - (e + 1)), text.drop (text.length - (e + 1)), 0, 0, ?_, ?_,
        by simp [zeros], ?_⟩
      · rw [Ne, List.take_eq_nil_iff]
        rintro (h | h)
        · omega
        · exact hne h
      · have hdrop : text.drop (text.length - (e + 1)) ≠ [] := by
          rw [Ne, List.drop_eq_nil_iff]
          omega
        simp [numeral, hdrop]
      · rw [List.length_drop]
        omega
    · rw [if_neg hplaces]
      refine ⟨['0'], (zeros (e + 1 - text.length)).toList ++ text, e + 1 - text.length + 1,
        0, by simp,
        by simp [numeral, hne], by simp [zeros, List.replicate_succ], ?_⟩
      rw [List.length_append, zeros, String.toList_ofList, List.length_replicate]
      omega

/-- A layout without an exponent is a numeral, wherever the point stands. -/
theorem isNumeral_plainLayout (digits : Nat) (exponent : Int) :
    IsNumeral (plainLayout digits exponent) := by
  obtain ⟨whole, fraction, before, behind, hne, htext, hdigits, -⟩ :=
    exists_numeral_plainLayout digits exponent
  have hall : ∀ c ∈ whole ++ fraction, c.isDigit := fun c hc =>
    isDigit_of_mem_between_zeros (hdigits ▸ hc)
  exact ⟨whole, fraction, hne, fun c hc => hall c (List.mem_append_left _ hc),
    fun c hc => hall c (List.mem_append_right _ hc), htext⟩

theorem isNumeral_textOf (f : Format) (tie : Tie) (m : Nat) (e : Int) :
    IsNumeral (textOf f tie plainLayout "0" (.finite false m e)) := by
  unfold textOf
  by_cases hm : m = 0
  · simp only [hm, if_true]
    exact isNumeral_repr 0
  · simp only [hm, if_false]
    exact isNumeral_plainLayout _ _

/-- A finite number without a sign is written as a numeral. -/
theorem isNumeral_scriptText {x : Float} {m : Nat} {e : Int} (h : exact x = .finite false m e) :
    IsNumeral (scriptText x) := by
  unfold scriptText plain
  rw [h]
  simp only [Bool.false_and, Bool.false_eq_true, if_false]
  split
  · exact isNumeral_repr _
  · exact isNumeral_textOf _ _ _ _

/-- A finite single without a sign is written as a numeral. -/
theorem isNumeral_plain32 {x : Float32} {m : Nat} {e : Int}
    (h : exact32 x = .finite false m e) : IsNumeral (plain32 x) := by
  unfold plain32
  rw [h]
  exact isNumeral_textOf _ _ _ _

/-! ### Reading -/

section Digits

variable {whole fraction tail : List Char}

/-- The digits in front of what is no digit. -/
theorem takeWhile_digits (h : ∀ c ∈ whole, c.isDigit) (ht : ∀ c ∈ tail.head?, c.isDigit = false) :
    (whole ++ tail).takeWhile Char.isDigit = whole := by
  rw [List.takeWhile_append_of_pos h]
  cases tail with
  | nil => simp
  | cons c tail => simp [ht c rfl]

theorem dropWhile_digits (h : ∀ c ∈ whole, c.isDigit) (ht : ∀ c ∈ tail.head?, c.isDigit = false) :
    (whole ++ tail).dropWhile Char.isDigit = tail := by
  rw [List.dropWhile_append_of_pos h]
  cases tail with
  | nil => rfl
  | cons c tail => simp [ht c rfl]

/-- What follows the digits in front of a point is no digit. -/
theorem head_point_not_digit (ht : ∀ c ∈ tail.head?, c.isDigit = false) :
    ∀ c ∈ ((if fraction = [] then [] else '.' :: fraction) ++ tail).head?, c.isDigit = false := by
  intro c hc
  by_cases hf : fraction = []
  · exact ht c (by simpa [hf] using hc)
  · have : '.' = c := by simpa [hf] using hc
    rw [← this]
    decide

theorem decimalPart?_numeral (hne : whole ≠ []) (hw : ∀ c ∈ whole, c.isDigit)
    (hf : ∀ c ∈ fraction, c.isDigit) :
    decimalPart? (numeral whole fraction)
      = some (digitsToNat (whole ++ fraction), -(fraction.length : Int)) := by
  have hpoint : ∀ c ∈ ((if fraction = [] then [] else '.' :: fraction) ++ []).head?,
      c.isDigit = false := head_point_not_digit (by simp)
  rw [List.append_nil] at hpoint
  unfold decimalPart? numeral
  rw [takeWhile_digits hw hpoint, dropWhile_digits hw hpoint]
  by_cases hfraction : fraction = []
  · simp [hfraction, hne, exponentPart?]
  · have htake : (fraction ++ []).takeWhile Char.isDigit = fraction :=
      takeWhile_digits hf (by simp)
    have hdrop : (fraction ++ []).dropWhile Char.isDigit = [] := dropWhile_digits hf (by simp)
    rw [List.append_nil] at htake hdrop
    simp [hfraction, hne, htake, hdrop, exponentPart?]

theorem toLower_of_isDigit {c : Char} (h : c.isDigit) : c.toLower = c := by
  have hle := (Char.isDigit_iff_toNat.mp h).2
  refine dif_neg fun hupper => absurd (UInt32.le_iff_toNat_le.mp hupper.1) ?_
  exact Nat.not_le_of_lt (Nat.lt_of_le_of_lt hle (by decide))

theorem exists_digit_cons_numeral (fraction : List Char) (hne : whole ≠ [])
    (hw : ∀ c ∈ whole, c.isDigit) :
    ∃ d ds, numeral whole fraction = d :: ds ∧ d.isDigit := by
  obtain ⟨d, ds, rfl⟩ := List.exists_cons_of_ne_nil hne
  exact ⟨d, _, rfl, hw d List.mem_cons_self⟩

theorem takeSign_of_isDigit {d : Char} {ds : List Char} (hd : d.isDigit) :
    takeSign (d :: ds) = (false, d :: ds) := by
  unfold takeSign
  split
  · next h =>
    rw [(List.cons.inj h).1] at hd
    exact absurd hd (by decide)
  · next h =>
    rw [(List.cons.inj h).1] at hd
    exact absurd hd (by decide)
  · rfl

/-- A text that begins with a digit is no word, in small letters or not. -/
theorem lowered_ne {d first : Char} {ds more : List Char} (hd : d.isDigit)
    (hfirst : first.isDigit = false) :
    String.ofList ((d :: ds).map Char.toLower) ≠ String.ofList (first :: more) := by
  intro heq
  have := (List.cons.inj (String.ofList_injective heq)).1
  rw [toLower_of_isDigit hd] at this
  rw [this, hfirst] at hd
  exact Bool.noConfusion hd

/-- A numeral has no sign and is none of the words for what is not finite. -/
theorem parseBits?_numeral (f : Format) {text : String} (hne : whole ≠ [])
    (hw : ∀ c ∈ whole, c.isDigit) (hf : ∀ c ∈ fraction, c.isDigit)
    (ht : text.toList = numeral whole fraction) :
    parseBits? f text
      = some (ofDecimal f (digitsToNat (whole ++ fraction)) (-(fraction.length : Int))) := by
  have hpart := decimalPart?_numeral hne hw hf
  obtain ⟨d, ds, hcons, hd⟩ := exists_digit_cons_numeral fraction hne hw
  rw [hcons] at ht hpart
  let word := String.ofList ((d :: ds).map Char.toLower)
  have hinf : word ≠ String.ofList ['i', 'n', 'f'] := lowered_ne hd (by decide)
  have hinfinity : word ≠ String.ofList ['i', 'n', 'f', 'i', 'n', 'i', 't', 'y'] :=
    lowered_ne hd (by decide)
  have hnan : word ≠ String.ofList ['n', 'a', 'n'] := lowered_ne hd (by decide)
  unfold parseBits?
  rw [ht, takeSign_of_isDigit hd]
  simp only [beq_iff_eq, Bool.or_eq_true]
  rw [if_neg (not_or.mpr ⟨hinf, hinfinity⟩), if_neg hnan, hpart]
  rfl

end Digits

end Number

namespace Token

open Number

variable {c : Char} {more fraction tail : List Char}

/-- The number ends where the numeral does: what comes after a point that no digit follows is left
to the next token. -/
theorem numberLength_append (hw : ∀ d ∈ more, d.isDigit) (hf : ∀ d ∈ fraction, d.isDigit)
    (ht : ∀ d ∈ tail.head?, d.isDigit = false) (hpoint : fraction = [] → fractionDigits tail = []) :
    numberLength (numeral more fraction ++ tail) = (numeral more fraction).length := by
  let point := if fraction = [] then [] else '.' :: fraction
  have hwhole : (numeral more fraction ++ tail).takeWhile Char.isDigit = more := by
    rw [numeral, List.append_assoc]
    exact takeWhile_digits hw (head_point_not_digit ht)
  have hrest : (numeral more fraction ++ tail).drop more.length = point ++ tail := by
    rw [numeral, List.append_assoc]
    exact List.drop_left
  have hfraction : fractionDigits (point ++ tail) = fraction := by
    by_cases h : fraction = []
    · simpa [point, h] using hpoint h
    · simpa [point, h, fractionDigits] using takeWhile_digits hf ht
  unfold numberLength
  simp only [hwhole, hrest, hfraction]
  by_cases h : fraction = []
  · simp [numeral, h]
  · simp [numeral, h]

/-- **A numeral is a number**, with the value of its digits and its point: the text of a number is
never one that says no value. -/
theorem scanNumber_append (hc : c.isDigit) (hw : ∀ d ∈ more, d.isDigit)
    (hf : ∀ d ∈ fraction, d.isDigit) (ht : ∀ d ∈ tail.head?, d.isDigit = false)
    (hpoint : fraction = [] → fractionDigits tail = []) :
    scanNumber c (numeral more fraction ++ tail) =
      let digits := digitsToNat (c :: more ++ fraction)
      let exponent : Int := -fraction.length
      if singleMark tail then
        .found (.float (ofBits32 (ofDecimal .binary32 digits exponent)))
          ((numeral more fraction).length + 1)
      else .found (.number (ofBits (ofDecimal .binary64 digits exponent)))
        (numeral more fraction).length := by
  have hparsed (f : Format) : parseBits? f (String.ofList (c :: numeral more fraction)) =
      some (ofDecimal f (digitsToNat (c :: more ++ fraction)) (-(fraction.length : Int))) :=
    parseBits?_numeral f (List.cons_ne_nil c more) (List.forall_mem_cons.mpr ⟨hc, hw⟩) hf
      String.toList_ofList
  unfold scanNumber
  simp only [numberLength_append hw hf ht hpoint, List.take_left, List.drop_left, parse?, parse32?,
    hparsed,
    Option.map_some]

theorem head_dropWhile_not (p : Char → Bool) (cs : List Char) :
    ∀ c ∈ (cs.dropWhile p).head?, p c = false := by
  intro c hc
  have hnot := List.head?_dropWhile_not p cs
  rw [hc] at hnot
  exact hnot

/-- A text is cut behind the digits of a number that begins in it, and behind its fraction. -/
theorem exists_numeral_append (cs : List Char) : ∃ more fraction tail,
    cs = numeral more fraction ++ tail ∧ (∀ d ∈ more, d.isDigit) ∧ (∀ d ∈ fraction, d.isDigit) ∧
      (∀ d ∈ tail.head?, d.isDigit = false) ∧
      (fraction = [] → fractionDigits tail = []) := by
  have hall (ds : List Char) : ∀ d ∈ ds.takeWhile Char.isDigit, d.isDigit :=
    fun d hd => List.mem_takeWhile_imp hd
  by_cases hfraction : fractionDigits (cs.dropWhile Char.isDigit) = []
  · exact ⟨cs.takeWhile Char.isDigit, [],
      cs.dropWhile Char.isDigit, by simp [numeral], hall cs, by simp,
      head_dropWhile_not _ cs, fun _ => hfraction⟩
  · obtain ⟨ds, hds⟩ : ∃ ds, cs.dropWhile Char.isDigit = '.' :: ds := by
      generalize cs.dropWhile Char.isDigit = tail at hfraction
      unfold fractionDigits at hfraction
      split at hfraction
      · exact ⟨_, rfl⟩
      · exact absurd rfl hfraction
    have hne : ds.takeWhile Char.isDigit ≠ [] := by
      rw [hds] at hfraction
      exact hfraction
    refine ⟨cs.takeWhile Char.isDigit, ds.takeWhile Char.isDigit, ds.dropWhile Char.isDigit, ?_,
      hall cs, hall ds,
      head_dropWhile_not _ ds, fun h => absurd h hne⟩
    rw [numeral, if_neg hne, List.append_assoc, List.cons_append, List.takeWhile_append_dropWhile,
      ← hds,
      List.takeWhile_append_dropWhile]

/-- **A digit begins a number that has a value**, whatever follows it. -/
theorem exists_scanNumber (hc : c.isDigit) (cs : List Char) : ∃ digits exponent length,
    scanNumber c cs = .found (.float (ofBits32 (ofDecimal .binary32 digits exponent))) length ∨
      scanNumber c cs = .found (.number (ofBits (ofDecimal .binary64 digits exponent))) length := by
  obtain ⟨more, fraction, tail, rfl, hmore, hfraction, htail, hpoint⟩ := exists_numeral_append cs
  rw [scanNumber_append hc hmore hfraction htail hpoint]
  simp only
  split
  · exact ⟨_, _, _, .inl rfl⟩
  · exact ⟨_, _, _, .inr rfl⟩

end Token

end ScriptEngine
