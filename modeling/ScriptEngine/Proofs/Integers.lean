import Mathlib
import ScriptEngine.Proofs.WholeNumbers
import ScriptEngine.Proofs.Bisimilarity
/-!
# Integers as doubles

A whole double that is not too great is the double of the integer it truncates to. Integers are made
into doubles by rounding, so what has to be seen is that the significand of a normal number, shifted
up by any number of places, is rounded to itself.

* `Number.Normal` : the significand of a normal number with the exponent of its last place.
* `Number.Normal.unpack_pack`, `Number.Normal.roundWithAccuracy_eq` : it is read back from its
  encoding, and rounded to itself.
* `Number.unpack_of_decode` : what a finite double is made of.
* `Number.ofInt_toInt64` : from a double to an integer and back.
-/

namespace ScriptEngine.Number

open Float.Model.UnpackedFloat

theorem log2_mul_two_pow {n : Nat} (hn : n ≠ 0) (k : Nat) : (n * 2 ^ k).log2 = n.log2 + k := by
  have hk : 0 < 2 ^ k := Nat.two_pow_pos k
  have hpow (i : Nat) : 2 ^ (i + k) = 2 ^ i * 2 ^ k := Nat.pow_add 2 i k
  refine (Nat.log2_eq_iff (Nat.mul_ne_zero hn hk.ne')).mpr ⟨?_, ?_⟩
  · rw [hpow]
    exact Nat.mul_le_mul_right _ (Nat.log2_self_le hn)
  · rw [Nat.add_right_comm, hpow]
    exact Nat.mul_lt_mul_of_pos_right Nat.lt_log2_self hk

/-- A normal significand of a double with the exponent of its last place. -/
structure Normal (m : Nat) (e : Int) : Prop where
  leading : 2 ^ 52 ≤ m
  bounded : m < 2 ^ 53
  low : -1075 < e
  high : e < 972

/-- Shifting zeros out of a significand loses nothing. -/
theorem shiftRight_exact (k : Nat) : ∀ m : Nat,
    (⟨m * 2 ^ k, false, false⟩ : ExtendedMantissa) >>> k = ⟨m, false, false⟩ := by
  induction k with
  | zero =>
    intro m
    rw [Nat.pow_zero, Nat.mul_one]
    rfl
  | succ k ih =>
    intro m
    have hstep : (⟨m * 2 ^ (k + 1), false, false⟩ : ExtendedMantissa) >>> (k + 1) =
        ((⟨m * 2 * 2 ^ k, false, false⟩ : ExtendedMantissa) >>> k).shiftRightOne := by
      rw [Nat.mul_assoc, ← Nat.pow_succ']
      rfl
    rw [hstep, ih]
    simp [ExtendedMantissa.shiftRightOne]

/-- The leading one stands above the fraction. -/
theorem toNat_leading_append (fraction : BitVec 52) :
    (1#1 ++ fraction).toNat = fraction.toNat + 2 ^ 52 := by
  rw [BitVec.toNat_append, ← Nat.shiftLeft_add_eq_or_of_lt (BitVec.isLt _), Nat.add_comm]
  rfl

namespace Normal

variable {m : Nat} {e : Int} (hn : Normal m e)
include hn

theorem pos : 0 < m := Nat.lt_of_lt_of_le (Nat.two_pow_pos 52) hn.leading

theorem log2_eq : m.log2 = 52 :=
  (Nat.log2_eq_iff hn.pos.ne').mpr ⟨hn.leading, hn.bounded⟩

/-- The encoding of a normal number leaves the leading one out. -/
theorem pack_eq (s : Sign) : pack .binary64 (.finite s m e hn.pos) =
    packComponents .binary64 s (BitVec.ofNat 11 (e + 1075).toNat) (BitVec.ofNat 52 m) := by
  have hlow := hn.low
  have htoNat : (e + (Float.Model.Format.binary64.exponentBias : Int) + (52 : Nat)).toNat =
      (e + 1075).toNat := by
    have hbias : (Float.Model.Format.binary64.exponentBias : Int) = 1023 := rfl
    omega
  unfold pack
  simp only
  rw [htoNat, if_neg (by have := hn.high; omega), if_pos (by rw [hn.log2_eq]; rfl)]

/-- A normal number is read back from its encoding. -/
theorem unpack_pack (s : Sign) :
    unpack .binary64 (pack .binary64 (.finite s m e hn.pos)) = .finite s m e hn.pos := by
  obtain ⟨hleading, hbounded, hlow, hhigh⟩ := id hn
  have hexponent : (BitVec.ofNat 11 (e + 1075).toNat).toNat = (e + 1075).toNat := by
    rw [BitVec.toNat_ofNat]
    omega
  have hmantissa : (1#1 ++ BitVec.ofNat 52 m).toNat = m := by
    rw [toNat_leading_append, BitVec.toNat_ofNat]
    omega
  have hzero : BitVec.ofNat 11 (e + 1075).toNat ≠ 0#11 := fun h => by
    have := congrArg BitVec.toNat h
    rw [hexponent, BitVec.toNat_zero] at this
    omega
  have hones : BitVec.ofNat 11 (e + 1075).toNat ≠ -1#11 := fun h => by
    have hmax : (-1#11).toNat = 2047 := rfl
    have := congrArg BitVec.toNat h
    rw [hexponent, hmax] at this
    omega
  rw [hn.pack_eq]
  unfold unpack
  simp only [unpackExponent_packComponents, unpackMantissa_packComponents,
    unpackSign_packComponents, Sign.ofBitVec_toBitVec]
  rw [if_neg hones, if_neg hzero]
  congr 1
  have hbias : (Float.Model.Format.binary64.exponentBias : Int) = 1023 := rfl
  rw [hexponent, hbias]
  omega

/-- The last place of a normal number, shifted up or not, is the one it is rounded to. -/
theorem targetExponent_eq (k : Nat) : Float.Model.Format.binary64.targetExponent
    (Float.Model.totalExponent (m * 2 ^ k) (e - k)) = e := by
  have hmin : Float.Model.Format.binary64.minExponent = -1074 := by decide
  have hbits : (Float.Model.Format.binary64.mantissaBits : Int) = 53 := rfl
  have hlog := log2_mul_two_pow hn.pos.ne' k
  rw [hn.log2_eq] at hlog
  have hlow := hn.low
  unfold Float.Model.Format.targetExponent Float.Model.totalExponent
  rw [hmin, hbits, hlog]
  omega

/-- A normal number that is shifted up is shifted back. -/
theorem shiftToTargetExponent_eq (k : Nat) :
    shiftToTargetExponent .binary64 (m * 2 ^ k) (e - k) .exact = (⟨m, false, false⟩, e) := by
  unfold shiftToTargetExponent
  simp only [hn.targetExponent_eq]
  unfold shiftToExponent
  have hamount : (e - (e - (k : Int))).toNat = k := by omega
  simp only [hamount]
  rw [show e - (k : Int) + k = e by omega]
  exact congrArg (·, e) (shiftRight_exact k m)

/-- A normal number that is shifted up is rounded to itself. -/
theorem roundWithAccuracy_eq (s : Sign) (k : Nat) :
    roundWithAccuracy .binary64 s (m * 2 ^ k) (e - k) .exact = .finite s m e hn.pos := by
  have hagain : shiftToTargetExponent .binary64 m e .exact = (⟨m, false, false⟩, e) := by
    simpa using hn.shiftToTargetExponent_eq 0
  have hrounded : (⟨m, false, false⟩ : ExtendedMantissa).roundedMantissa = m := rfl
  unfold roundWithAccuracy
  simp only [hn.shiftToTargetExponent_eq k, hrounded, hagain]
  exact dif_neg hn.pos.ne'

end Normal

theorem mul_finite (f : Float.Model.Format) {s t : Sign} {m n : Nat} {d e : Int} (hm : 0 < m)
    (hn : 0 < n) : mul f (.finite s m d hm) (.finite t n e hn) =
      roundWithAccuracy f (s * t) (m * n) (d + e) .exact := rfl

section Whole

variable {m n k : Nat}

theorem pos_of_shifted (hn : Normal (n * 2 ^ k) (-k)) : 0 < n :=
  Nat.pos_of_mul_pos_right hn.pos

/-- A whole number below the end of the significands is shifted up and rounded to itself. -/
theorem round_shifted (hn : Normal (n * 2 ^ k) (-k)) (s : Sign) :
    round .binary64 s n 0 = .finite s (n * 2 ^ k) (-k) hn.pos := by
  have hmin : Float.Model.Format.binary64.minExponent = -1074 := by decide
  have hbits : (Float.Model.Format.binary64.mantissaBits : Int) = 53 := rfl
  have htarget : Float.Model.Format.binary64.targetExponent (Float.Model.totalExponent n 0) =
      -k := by
    have hlog := log2_mul_two_pow (pos_of_shifted hn).ne' k
    have hlow := hn.low
    rw [hn.log2_eq] at hlog
    unfold Float.Model.Format.targetExponent Float.Model.totalExponent
    rw [hmin, hbits]
    omega
  have hshift : decreaseExponent n 0 (-k) = (n * 2 ^ k, -(k : Int)) := by
    unfold decreaseExponent
    simp [Nat.shiftLeft_eq]
  unfold Float.Model.UnpackedFloat.round
  simp only [htarget, hshift]
  simpa using hn.roundWithAccuracy_eq s 0

theorem lt_of_shifted (hn : Normal (n * 2 ^ k) (-k)) : n < 2 ^ 53 := by
  have hle : n * 1 ≤ n * 2 ^ k := Nat.mul_le_mul_left n Nat.one_le_two_pow
  have := hn.bounded
  omega

/-- A word becomes the double that stands for the same number. -/
theorem unpack_toFloat (hn : Normal (n * 2 ^ k) (-k)) :
    n.toUInt64.toFloat.toModel.unpack = .finite .positive (n * 2 ^ k) (-k) hn.pos := by
  have hpos := pos_of_shifted hn
  have hword : n.toUInt64.toNat = n :=
    Nat.mod_eq_of_lt (Nat.lt_trans (lt_of_shifted hn) (by decide))
  have hround : ofUInt64 .binary64 n.toUInt64 = .finite .positive (n * 2 ^ k) (-k) hn.pos := by
    unfold ofUInt64 ofNat ofInt Float.Model.UnpackedFloat.normalize
    rw [hword, Int.compare_eq_gt.mpr (by omega)]
    exact round_shifted hn .positive
  change unpack .binary64 (pack .binary64 (ofUInt64 .binary64 n.toUInt64)) = _
  rw [hround]
  exact hn.unpack_pack _

/-- A whole number is what its double stands for, if the double needs places behind the point. The
double is the one of a word, times one. -/
theorem ofNat_shifted (hn : Normal (n * 2 ^ k) (-k)) :
    (Float.ofNat n).toModel.unpack = .finite .positive (n * 2 ^ k) (-k) hn.pos := by
  have hscientific : Float.ofNat n =
      n.toUInt64.toFloat * Float.exactlyRepresentablePowersOfTen[0] := by
    change Float.ofScientific n false 0 = _
    unfold Float.ofScientific
    rw [dif_pos ⟨lt_of_shifted hn, Nat.zero_le _⟩]
    rfl
  have hone : Float.exactlyRepresentablePowersOfTen[0].toModel.unpack =
      .finite .positive (2 ^ 52) (-(52 : Nat)) (Nat.two_pow_pos 52) := by
    rfl
  rw [hscientific]
  change unpack .binary64 (pack .binary64 (mul .binary64 n.toUInt64.toFloat.toModel.unpack
    Float.exactlyRepresentablePowersOfTen[0].toModel.unpack)) = _
  rw [unpack_toFloat hn, hone, mul_finite]
  change unpack .binary64 (pack .binary64
    (roundWithAccuracy .binary64 .positive _ (-(k : Int) - (52 : Nat)) .exact)) = _
  rw [hn.roundWithAccuracy_eq]
  exact hn.unpack_pack _

/-- Reading a normal number that is shifted up rounds it to itself. -/
theorem ofScientific_large (hn : Normal m (k + 1)) :
    ofScientific .binary64 (m * 2 ^ (k + 1)) 0 = .finite .positive m (k + 1) hn.pos := by
  have hpos : m * 2 ^ (k + 1) ≠ 0 :=
    Nat.mul_ne_zero hn.pos.ne' (Nat.two_pow_pos _).ne'
  have hup : (m * 2 ^ (k + 1)) <<< 53 * 10 ^ (0 : Int).toNat = m * 2 ^ (k + 1 + 53) := by
    rw [Int.toNat_zero, Nat.pow_zero, Nat.mul_one, Nat.shiftLeft_eq, Nat.pow_add _ (k + 1) 53,
      Nat.mul_assoc]
  have hdown : -((53 : Nat) : Int) + 0 = (k + 1 : Int) - (k + 1 + 53 : Nat) := by omega
  have hhigh : ¬((0 : Int) < -(2 ^ Float.Model.Format.binary64.exponentBits +
      ((m * 2 ^ (k + 1)).log2 : Int))) := by
    have hbits : (2 : Int) ^ Float.Model.Format.binary64.exponentBits = 2048 := rfl
    rw [hbits]
    omega
  unfold ofScientific
  rw [dif_neg hpos, if_neg (by decide), if_neg hhigh, if_pos (Int.le_refl 0), mul_finite]
  have hmantissa : Float.Model.Format.binary64.mantissaBits = 53 := rfl
  rw [hmantissa, hup, hdown]
  exact hn.roundWithAccuracy_eq .positive (k + 1 + 53)

/-- A whole number is what its double stands for, if the double needs none. -/
theorem ofNat_large (hn : Normal m (k + 1)) :
    (Float.ofNat (m * 2 ^ (k + 1))).toModel.unpack = .finite .positive m (k + 1) hn.pos := by
  have hle : ¬m * 2 ^ (k + 1) < 2 ^ 53 := by
    have hle : m * 2 ^ 1 ≤ m * 2 ^ (k + 1) :=
      Nat.mul_le_mul_left m (Nat.pow_le_pow_right Nat.two_pos (Nat.succ_pos k))
    have := hn.leading
    omega
  have hscientific : Float.ofNat (m * 2 ^ (k + 1)) =
      ⟨Float.Model.ofScientific (m * 2 ^ (k + 1)) 0⟩ := by
    change Float.ofScientific _ false 0 = _
    unfold Float.ofScientific
    rw [dif_neg fun h => hle h.1]
    rfl
  rw [hscientific]
  change unpack .binary64 (pack .binary64 (ofScientific .binary64 (m * 2 ^ (k + 1)) 0)) = _
  rw [ofScientific_large hn]
  exact hn.unpack_pack _

end Whole

/-! ## Doubles -/

/-- The sign of a number that is below zero, or of one that is not. -/
def signOf (negative : Bool) : Sign := if negative then .negative else .positive

theorem ofBitVec_unpackSign (b : BitVec 64) :
    Sign.ofBitVec (@unpackSign .binary64 b) = signOf (b.toNat / 2 ^ 63 % 2 == 1) := by
  have hbit : (@unpackSign .binary64 b).toNat = b.toNat / 2 ^ 63 % 2 := by
    simp [unpackSign, BitVec.extractLsb_toNat, Nat.shiftRight_eq_div_pow]
  have hzero : @unpackSign .binary64 b = 0#1 ↔ b.toNat / 2 ^ 63 % 2 = 0 := by
    rw [← hbit, ← BitVec.toNat_inj]
    rfl
  unfold Sign.ofBitVec signOf
  by_cases h : b.toNat / 2 ^ 63 % 2 = 0
  · rw [if_pos (hzero.mpr h), h]
    rfl
  · have hone : b.toNat / 2 ^ 63 % 2 = 1 := by omega
    rw [if_neg fun hb => h (hzero.mp hb), hone]
    rfl

theorem toNat_unpackMantissa (b : BitVec 64) :
    (@unpackMantissa .binary64 b).toNat = b.toNat % 2 ^ 52 := by
  simp [unpackMantissa, BitVec.extractLsb_toNat]

theorem unpackExponent_eq_ones {b : BitVec 64} :
    @unpackExponent .binary64 b = -1#11 ↔ b.toNat / 2 ^ 52 % 2 ^ 11 = 2 ^ 11 - 1 := by
  rw [← toNat_unpackExponent, ← BitVec.toNat_inj]
  rfl

theorem unpackExponent_eq_zero {b : BitVec 64} :
    @unpackExponent .binary64 b = 0#11 ↔ b.toNat / 2 ^ 52 % 2 ^ 11 = 0 := by
  rw [← toNat_unpackExponent, ← BitVec.toNat_inj]
  rfl

/-- What a finite double is made of: a normal number, or a significand below the normal ones. -/
theorem unpack_of_decode {b : BitVec 64} {negative : Bool} {m : Nat} {e : Int}
    (h : Format.binary64.decode b.toNat = .finite negative m e) :
    (m < 2 ^ 52 ∧ e = .negSucc 1073 ∧ (m = 0 → unpack .binary64 b = .zero (signOf negative))) ∨
    ∃ hn : Normal m e, unpack .binary64 b = .finite (signOf negative) m e hn.pos := by
  have hmin : Format.binary64.minExponent = .negSucc 1073 := by decide
  have hprecision : Nat.pow 2 (Format.binary64.precision - 1) = 2 ^ 52 := rfl
  have hexponent : Nat.pow 2 Format.binary64.exponentBits = 2 ^ 11 := rfl
  have hsign : Format.binary64.signBit = 2 ^ 63 := rfl
  unfold Format.decode at h
  simp only [hmin, hprecision, hexponent, hsign] at h
  split at h
  · split at h <;> exact absurd h (by simp)
  next hfinite =>
  split at h
  · next hzero =>
    obtain ⟨rfl, rfl, rfl⟩ := Exact.finite.inj h
    refine .inl ⟨Nat.mod_lt _ (Nat.two_pow_pos 52), rfl, fun hm => ?_⟩
    have hmantissa : @unpackMantissa .binary64 b = 0#52 := by
      rw [← BitVec.toNat_inj, toNat_unpackMantissa]
      exact hm
    unfold unpack
    simp only
    rw [if_neg (mt unpackExponent_eq_ones.mp hfinite), if_pos (unpackExponent_eq_zero.mpr hzero),
      dif_pos hmantissa,
      ofBitVec_unpackSign]
  · next hnormal =>
    obtain ⟨rfl, rfl, rfl⟩ := Exact.finite.inj h
    have hmantissa : (1#1 ++ @unpackMantissa .binary64 b).toNat = b.toNat % 2 ^ 52 + 2 ^ 52 := by
      rw [toNat_leading_append, toNat_unpackMantissa]
    have hn : Normal (b.toNat % 2 ^ 52 + 2 ^ 52)
        (.negSucc 1073 + (b.toNat / 2 ^ 52 % 2 ^ 11 - 1 : Nat)) := by
      have := Nat.mod_lt (b.toNat / 2 ^ 52) (Nat.two_pow_pos 11)
      constructor <;> omega
    refine .inr ⟨hn, ?_⟩
    unfold unpack
    simp only
    rw [if_neg (mt unpackExponent_eq_ones.mp hfinite),
      if_neg (mt unpackExponent_eq_zero.mp hnormal), ofBitVec_unpackSign]
    have hbias : (Float.Model.Format.binary64.exponentBias : Int) = 1023 := rfl
    have hplaces : (Float.Model.Format.binary64.mantissaBitsWithoutImplicit : Int) = 52 := rfl
    congr 1
    rw [toNat_unpackExponent, hbias, hplaces]
    omega

/-- The double of the whole number that a normal number is. -/
theorem unpack_ofNat {m : Nat} {e : Int} (hn : Normal m e)
    (hwhole : (Exact.finite false m e).isWhole) :
    (Float.ofNat (wholeMagnitude m e)).toModel.unpack = .finite .positive m e hn.pos := by
  cases e with
  | ofNat k =>
    cases k with
    | zero =>
      have hm : wholeMagnitude m 0 = m := Nat.mul_one m
      have hn' : Normal (m * 2 ^ 0) (-(0 : Nat)) := by rwa [Nat.pow_zero, Nat.mul_one]
      have hshifted := ofNat_shifted hn'
      simp only [Nat.pow_zero, Nat.mul_one] at hshifted
      exact (congrArg (fun n => (Float.ofNat n).toModel.unpack) hm).trans hshifted
    | succ k => exact ofNat_large hn
  | negSucc k =>
    have hm := significand_of_isWhole hwhole
    generalize wholeMagnitude m (.negSucc k) = w at hm
    subst hm
    exact ofNat_shifted (k := k + 1) hn

/-- The double of the integer that a normal number is, whatever its sign. -/
theorem unpack_ofInt {m : Nat} {e : Int} (hn : Normal m e)
    (hwhole : (Exact.finite false m e).isWhole) (hpos : 0 < wholeMagnitude m e) (negative : Bool) :
    (Float.ofInt (if negative then -(wholeMagnitude m e : Int) else wholeMagnitude m
      e)).toModel.unpack
      = .finite (signOf negative) m e hn.pos := by
  have hnat := unpack_ofNat hn hwhole
  cases negative with
  | false => exact hnat
  | true =>
    obtain ⟨w, hw⟩ : ∃ w, wholeMagnitude m e = w + 1 := Nat.exists_eq_succ_of_ne_zero hpos.ne'
    rw [hw] at hnat ⊢
    change unpack .binary64 (pack .binary64 (neg (Float.ofNat (w + 1)).toModel.unpack)) = _
    rw [hnat]
    exact hn.unpack_pack .negative

/-- Only zero is a whole number without a part before the point. -/
theorem significand_eq_zero {m : Nat} {e : Int} (hwhole : (Exact.finite false m e).isWhole)
    (hzero : wholeMagnitude m e = 0) : m = 0 := by
  cases e with
  | ofNat k => exact (Nat.mul_eq_zero.mp hzero).resolve_right (Nat.two_pow_pos k).ne'
  | negSucc k => rw [significand_of_isWhole hwhole, hzero, Nat.zero_mul]

/-- A whole number that is not too great truncates to its magnitude with its sign. -/
theorem exact_of_isWhole {x : Float} (hwhole : isWhole x) (hlt : (toInt64 x).natAbs < 2 ^ 63 - 1) :
    ∃ negative m e, exact x = .finite negative m e ∧ (Exact.finite false m e).isWhole ∧
      toInt64 x = if negative then -(wholeMagnitude m e : Int) else wholeMagnitude m e := by
  obtain ⟨negative, m, e, h⟩ : ∃ negative m e, exact x = .finite negative m e := by
    unfold isWhole at hwhole
    cases hx : exact x with
    | finite negative m e => exact ⟨negative, m, e, rfl⟩
    | nan | infinite => rw [hx] at hwhole; cases hwhole
  refine ⟨negative, m, e, h, ?_, ?_⟩
  · unfold isWhole at hwhole
    rw [h] at hwhole
    cases e <;> exact hwhole
  · unfold toInt64 minInt64 maxInt64 at *
    rw [h] at hlt ⊢
    simp only [Exact.toInt] at hlt ⊢
    omega

/-- A whole number that is not too great is the double of the integer it truncates to, up to the
sign of a zero. -/
theorem ofInt_toInt64 {x : Float} (hwhole : isWhole x) (hlt : (toInt64 x).natAbs < 2 ^ 63 - 1) :
    (Float.ofInt (toInt64 x) == x) = true := by
  obtain ⟨negative, m, e, h, hwhole, htruncated⟩ := exact_of_isWhole hwhole hlt
  rw [htruncated, beq_iff]
  obtain ⟨hm, rfl, hzero⟩ | ⟨hn, hunpack⟩ := unpack_of_decode h
  · have hnone := wholeMagnitude_eq_zero (k := 1073) hm (by decide)
    have hunpack : x.toModel.unpack = .zero (signOf negative) :=
      hzero (significand_eq_zero hwhole hnone)
    rw [hnone, hunpack]
    cases negative <;> exact ⟨rfl, rfl⟩
  · have hpos : 0 < wholeMagnitude m e :=
      Nat.pos_of_ne_zero fun hzero => hn.pos.ne' (significand_eq_zero hwhole hzero)
    have hunpack : x.toModel.unpack = _ := hunpack
    rw [hunpack, unpack_ofInt hn hwhole hpos negative]
    exact ⟨rfl, rfl⟩

end ScriptEngine.Number
