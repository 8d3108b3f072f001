import ScriptEngine.Library.Arguments
import ScriptEngine.Proofs.NumberOrder
/-!
# Ranges of numbers

The numbers of a range are truncated to places. Truncation keeps their order, leaves whole numbers
alone, and stays within a length that the numbers are within.

* `Number.toWord_le_of_le`, `Number.toWord_ofNat` : truncation of numbers in order, and of whole
  numbers.
* `Number.truncate?_eq_toWord` : within a length, truncation needs no bound.
* `Library.RangeArguments` : the arguments of a native function that ask for a range.
-/

namespace ScriptEngine

/-! ## Truncation to words -/

namespace Number

variable {x y : Float}

theorem toWord_of_isNaN (hx : x.isNaN = true) : toWord x = 0 := by
  rw [toWord, toInt_of_isNaN hx]
  rfl

theorem toWord_le_of_le (hx : x.isNaN = false) (hy : y.isNaN = false) (hxy : x ≤ y) :
    toWord x ≤ toWord y :=
  Int.toNat_le_toNat (toInt_le_toInt hx hy hxy (by decide) (by decide) (by decide))

theorem toWord_of_nonneg (hx : x.isNaN = false) (hx0 : 0.0 ≤ x) :
    (toWord x : Int) = min maxWord ((exact x).units / unit) := by
  rw [le_iff rfl hx, units_literal_zero] at hx0
  have hquotient : 0 ≤ (exact x).units / unit := Int.ediv_nonneg hx0 (Int.natCast_nonneg _)
  have hmax : (0 : Int) ≤ maxWord := by decide
  rw [toWord, toInt_eq hx (by decide) (by decide) (by decide), Int.tdiv_eq_ediv_of_nonneg hx0]
  omega

/-- The numbers between zero and one truncate to zero, and no greater ones do. -/
theorem toWord_eq_zero_iff (hx : x.isNaN = false) (hx0 : 0.0 ≤ x) : toWord x = 0 ↔ x < 1.0 := by
  have hword := toWord_of_nonneg hx hx0
  rw [le_iff rfl hx, units_literal_zero] at hx0
  have hquotient : 0 ≤ (exact x).units / unit := Int.ediv_nonneg hx0 (Int.natCast_nonneg _)
  have hone : (exact x).units / unit < 1 ↔ (exact x).units < 1 * unit :=
    Int.ediv_lt_iff_lt_mul (Int.natCast_pos.mpr unit_pos)
  rw [Int.one_mul] at hone
  rw [lt_iff hx rfl, units_literal_one, ← hone]
  have hmax : (0 : Int) < maxWord := by decide
  omega

/-- A whole number that a double counts exactly truncates to itself. -/
theorem toWord_ofNat {n : Nat} (hn : n ≤ 2 ^ 53) : toWord (Float.ofNat n) = n := by
  have hmax : (2 : Int) ^ 53 ≤ maxWord := by decide
  rw [toWord, toInt_eq (isNaN_ofNat hn) (by decide) (by decide) (by decide), units_ofNat hn,
    Int.mul_tdiv_cancel _ (Int.natCast_pos.mpr unit_pos).ne']
  omega

/-- A number between zero and a length is truncated without a bound. -/
theorem truncate?_eq_toWord {n : Nat} (hn : n ≤ 2 ^ 53) (hx : x.isNaN = false) (hx0 : 0.0 ≤ x)
    (hxn : x ≤ Float.ofNat n) : (exact x).truncate? = some ↑(toWord x) := by
  have hunit : (0 : Int) < unit := Int.natCast_pos.mpr unit_pos
  have hword := toWord_of_nonneg hx hx0
  rw [le_iff rfl hx, units_literal_zero] at hx0
  rw [le_iff hx (isNaN_ofNat hn), units_ofNat hn] at hxn
  have hle : (exact x).units / unit ≤ n := by
    rw [← Int.mul_ediv_cancel (n : Int) hunit.ne']
    exact Int.ediv_le_ediv hunit hxn
  have hmax : (n : Int) ≤ maxWord := by
    have hpow : (2 : Int) ^ 53 ≤ maxWord := by decide
    omega
  rw [Int.min_eq_right (hle.trans hmax)] at hword
  cases h : exact x with
  | nan => exact absurd h (exact_ne_nan hx)
  | finite negative m e => rw [← h, truncate?_eq h, Int.tdiv_eq_ediv_of_nonneg hx0, hword]
  | infinite negative =>
    -- an infinite number is beyond every length that doubles count, or below zero
    rw [h, units_infinite] at hx0 hxn
    have hbeyond : (n * unit : Int) < beyond := mod_cast mul_unit_lt_beyond hn
    have hpos : (0 : Int) < beyond := Int.natCast_pos.mpr (scale_pos _)
    cases negative
    · exact absurd hxn (not_le.mpr hbeyond)
    · exact absurd hx0 (not_le.mpr (Int.neg_neg_of_pos hpos))

end Number

/-! ## Arguments -/

namespace Library

/-- What is to be cut and two numbers, of which the second may be left out and is then the one for
the end. -/
inductive RangeArguments (subject : Value) (last : Float) : List Value → Float → Float → Prop
  | both {a b : Value} {start stop : Float} (ha : a.asNumber? = some start)
      (hb : b.asNumber? = some stop) :
      RangeArguments subject last [subject, a, b] start stop
  | toEnd {a : Value} {start : Float} (ha : a.asNumber? = some start) :
      RangeArguments subject last [subject, a] start last

namespace RangeArguments

variable {subject : Value} {last start stop : Float} {args : List Value}

theorem numberAt_eq {function : String} {i : Nat} {x : Float}
    (h : (argumentAt args i).asNumber? = some x) :
    numberAt function args i = .ok x := by
  simp only [numberAt, wantedAt, h]

theorem subject_eq (hargs : RangeArguments subject last args start stop) :
    argumentAt args 0 = subject := by
  cases hargs <;> rfl

theorem start_eq (hargs : RangeArguments subject last args start stop) (function : String) :
    numberAt function args 1 = .ok start := by
  cases hargs with
  | both ha hb => exact numberAt_eq ha
  | toEnd ha => exact numberAt_eq ha

theorem stop_eq (hargs : RangeArguments subject last args start stop) (function : String) :
    optionalAt numberAt function args 2 last = .ok stop := by
  cases hargs with
  | @both a b _ _ ha hb =>
    have hstop : numberAt function [subject, a, b] 2 = .ok stop := numberAt_eq hb
    exact hstop
  | toEnd ha => rfl

end RangeArguments

end Library

end ScriptEngine
