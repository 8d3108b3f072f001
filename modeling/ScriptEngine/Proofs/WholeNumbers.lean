import Mathlib
import ScriptEngine.Proofs.Numerals
/-!
# Whole numbers are parsed to themselves

Scripts show whole numbers of up to fifteen digits as integers. The nearest double to such an
integer is the number itself, so its text is parsed to it. For all other numbers this rests on the
plain text, the shortest one that is parsed to the number.

* `Number.decode_cases` : the encoding of a finite double without a sign.
* `Number.nearest_whole` : the encoding of the nearest double to a whole number.
* `Number.parse?_repr`, `Number.parse?_scriptText` : what the text of a number is parsed to.
-/

namespace ScriptEngine.Number

open Float.Model.UnpackedFloat

/-! ### Encodings -/

theorem toBitVec_ofBitVec (b : BitVec 1) : (Sign.ofBitVec b).toBitVec = b := by
  revert b
  decide

/-- The fields of an encoding make it up. -/
theorem packComponents_fields (spec : Float.Model.Format) (b : BitVec spec.numBits) :
    packComponents spec (Sign.ofBitVec (unpackSign b)) (unpackExponent b) (unpackMantissa b)
      = b := by
  have hm := spec.hm
  have he := spec.he
  refine BitVec.eq_of_getLsbD_eq fun i hi => ?_
  rw [packComponents, toBitVec_ofBitVec, BitVec.getLsbD_append, BitVec.getLsbD_append]
  simp only [unpackMantissa, unpackExponent, unpackSign, BitVec.getLsbD_cast,
    BitVec.getLsbD_extractLsb]
  have hi : i < 1 + spec.exponentBits + spec.mantissaBitsWithoutImplicit := hi
  split
  · rw [decide_eq_true (by omega), Bool.true_and, Nat.zero_add]
  · split
    · rw [decide_eq_true (by omega), Bool.true_and, Nat.add_sub_cancel' (by omega)]
    · have hfield : spec.mantissaBitsWithoutImplicit + spec.exponentBits +
          (i - spec.mantissaBitsWithoutImplicit - spec.exponentBits) = i := by omega
      rw [decide_eq_true (by omega), Bool.true_and, hfield]

theorem toNat_unpackExponent (b : BitVec 64) :
    (@unpackExponent .binary64 b).toNat = b.toNat / 2 ^ 52 % 2 ^ 11 := by
  simp [unpackExponent, BitVec.extractLsb_toNat, Nat.shiftRight_eq_div_pow]

/-- The leading one of a normal number is left out of its encoding. -/
theorem pack_unpack (b : BitVec 64) (hlow : b.toNat / 2 ^ 52 % 2 ^ 11 ≠ 0)
    (hhigh : b.toNat / 2 ^ 52 % 2 ^ 11 ≠ 2 ^ 11 - 1) :
    pack .binary64 (unpack .binary64 b) = b := by
  have hb := packComponents_fields .binary64 b
  let exponent := @unpackExponent .binary64 b
  let mantissa := @unpackMantissa .binary64 b
  have he : exponent.toNat = b.toNat / 2 ^ 52 % 2 ^ 11 := toNat_unpackExponent b
  have hzero : exponent ≠ 0#_ := fun h => hlow (by rw [← he, h]; rfl)
  have hones : exponent ≠ -1#_ := fun h => hhigh (by rw [← he, h]; rfl)
  have hmantissa : (1#1 ++ mantissa).toNat = 2 ^ 52 + mantissa.toNat := by
    rw [BitVec.toNat_append, ← Nat.shiftLeft_add_eq_or_of_lt mantissa.isLt]
    rfl
  have hlog : (1#1 ++ mantissa).toNat.log2 + 1 = Float.Model.Format.binary64.mantissaBits := by
    have hlt : mantissa.toNat < 2 ^ 52 := mantissa.isLt
    have hlog : (1#1 ++ mantissa).toNat.log2 = 52 :=
      (Nat.log2_eq_iff (by omega)).mpr ⟨by omega, by omega⟩
    rw [hlog]
    rfl
  have hfield : BitVec.ofNat 52 (1#1 ++ mantissa).toNat = mantissa := by
    have hlt : mantissa.toNat < 2 ^ 52 := mantissa.isLt
    refine BitVec.eq_of_toNat_eq ?_
    rw [BitVec.toNat_ofNat, hmantissa, Nat.add_mod_left, Nat.mod_eq_of_lt hlt]
  have hbiased : ((exponent.toNat : Int) - (Float.Model.Format.binary64.exponentBias + (52 : Nat))
      + Float.Model.Format.binary64.exponentBias + (52 : Nat)).toNat = exponent.toNat := by omega
  unfold unpack
  simp only
  -- neither infinite nor subnormal, so only the branch for normal numbers is left on both sides
  rw [if_neg hones, if_neg hzero]
  unfold pack
  simp only
  rw [if_neg, if_pos hlog]
  · refine Eq.trans (congr (congrArg _ ?_) hfield) hb
    rw [hbiased]
    exact (BitVec.ofNat_toNat _ exponent).trans (BitVec.setWidth_eq exponent)
  · rw [hbiased, he]
    have hlt := Nat.mod_lt (b.toNat / 2 ^ 52) (show 0 < 2 ^ 11 by decide)
    omega

/-- A normal number is what its encoding stands for. -/
theorem ofBits_toBits {x : Float} (hlow : x.toBits.toNat / 2 ^ 52 % 2 ^ 11 ≠ 0)
    (hhigh : x.toBits.toNat / 2 ^ 52 % 2 ^ 11 ≠ 2 ^ 11 - 1) : ofBits x.toBits.toNat = x := by
  obtain ⟨⟨bits, valid⟩⟩ := x
  have hpack : pack .binary64 (unpack .binary64 bits.toBitVec) = bits.toBitVec :=
    pack_unpack bits.toBitVec hlow hhigh
  have hbits : Float.ofBits bits = ⟨⟨bits, valid⟩⟩ := by
    change Float.ofModel ⟨UInt64.ofBitVec (pack .binary64 (unpack .binary64 bits.toBitVec)), _⟩ = _
    simp only [hpack]
  exact (congrArg Float.ofBits UInt64.ofNat_toNat).trans hbits

/-! ### Whole numbers -/

theorem divideToEven_one (n : Nat) : Format.divideToEven n 1 = n := by
  simp [Format.divideToEven, Nat.mod_one]

/-- The nearest double to a whole number has its leading one in front of the last place. -/
theorem nearest_whole {w : Nat} (hpos : 0 < w) (hlt : w < 2 ^ 52) :
    Format.binary64.nearest w 1 = (w.log2 + 1022) * 2 ^ 52 + w * 2 ^ (52 - w.log2) := by
  have hlog : w.log2 < 52 := (Nat.log2_lt (by omega)).mpr hlt
  have hestimate : (w.log2 : Int) - (Nat.log2 1 : Nat) = .ofNat w.log2 := Int.sub_zero _
  have hreached : decide (1 * Nat.pow 2 w.log2 ≤ w) = true := by
    rw [Nat.one_mul]
    exact decide_eq_true (Nat.log2_self_le (by omega))
  have hmin : Format.binary64.minExponent = -1074 := by decide
  have hprecision : Format.binary64.precision - 1 = 52 := rfl
  have hinfinity : Format.binary64.infinity = 2047 * 2 ^ 52 := by decide
  have hlast : max Format.binary64.minExponent
      (.ofNat w.log2 - (Format.binary64.precision - 1 : Nat)) = .negSucc (51 - w.log2) := by
    rw [hmin, hprecision, Int.ofNat_eq_natCast]
    omega
  have hsize : w * 2 ^ (52 - w.log2) < 2 ^ 53 := by
    have hup : w * 2 ^ (52 - w.log2) < 2 ^ (w.log2 + 1) * 2 ^ (52 - w.log2) :=
      Nat.mul_lt_mul_of_pos_right Nat.lt_log2_self (Nat.two_pow_pos _)
    rwa [← Nat.pow_add, show w.log2 + 1 + (52 - w.log2) = 53 by omega] at hup
  unfold Format.nearest
  rw [if_neg (by omega)]
  simp only [hestimate, hreached, if_true, hlast, divideToEven_one]
  have hplaces : 51 - w.log2 + 1 = 52 - w.log2 := by omega
  have hbiased : (Int.negSucc (51 - w.log2) - Format.binary64.minExponent).toNat
      = w.log2 + 1022 := by
    rw [hmin]
    omega
  rw [hbiased, hprecision, hinfinity, hplaces]
  refine Nat.min_eq_right ?_
  change (w.log2 + 1022) * 2 ^ 52 + w * 2 ^ (52 - w.log2) ≤ 2047 * 2 ^ 52
  omega

/-- The encoding of a finite double without a sign. -/
theorem decode_cases {x : Float} {m : Nat} {e : Int} (h : exact x = .finite false m e) :
    (m = x.toBits.toNat ∧ m < 2 ^ 52 ∧ e = .negSucc 1073) ∨
    ∃ biased fraction, x.toBits.toNat = biased * 2 ^ 52 + fraction ∧ fraction < 2 ^ 52 ∧
      0 < biased ∧ biased < 2 ^ 11 - 1 ∧ m = fraction + 2 ^ 52 ∧ e = (biased : Int) - 1075 := by
  have hbits : x.toBits.toNat < 2 ^ 64 := x.toBits.toNat_lt
  unfold exact Format.decode at h
  generalize x.toBits.toNat = bits at h hbits
  have hmin : Format.binary64.minExponent = .negSucc 1073 := by decide
  have hprecision : Nat.pow 2 (Format.binary64.precision - 1) = 2 ^ 52 := rfl
  have hexponent : Nat.pow 2 Format.binary64.exponentBits = 2 ^ 11 := rfl
  have hsign : Format.binary64.signBit = 2 ^ 63 := rfl
  simp only [hmin, hprecision, hexponent, hsign] at h
  split at h
  · split at h <;> exact absurd h (by simp)
  · split at h
    · next hzero =>
      obtain ⟨hneg, rfl, rfl⟩ := Exact.finite.inj h
      have hneg := beq_eq_false_iff_ne.mp hneg
      exact .inl ⟨by omega, by omega, rfl⟩
    · next hones hzero =>
      obtain ⟨hneg, rfl, rfl⟩ := Exact.finite.inj h
      have hneg := beq_eq_false_iff_ne.mp hneg
      exact .inr ⟨bits / 2 ^ 52 % 2 ^ 11, bits % 2 ^ 52, by omega, by omega, by omega, by omega,
        rfl, by omega⟩

theorem digitsToNat_repr (n : Nat) : digitsToNat (Nat.repr n).toList = n := by
  rw [Nat.toList_repr]
  exact Nat.ofDigitChars_eq_foldl.symm.trans (Nat.ofDigitChars_toDigits (by decide) (by decide))

theorem ofDecimal_whole {w : Nat} (hpos : 0 < w) (hlt : w < 10 ^ 15) :
    ofDecimal .binary64 w 0 = Format.binary64.nearest w 1 := by
  have hlength : (Nat.repr w).length ≤ 15 := by
    rw [← String.length_toList, Nat.toList_repr]
    exact (Nat.length_toDigits_le_iff (by decide) (by decide)).mpr hlt
  unfold ofDecimal
  rw [if_neg (by omega)]
  simp only
  rw [if_neg (by omega), if_neg (by omega)]
  change Format.binary64.nearest (w * 10 ^ 0) 1 = _
  rw [Nat.pow_zero, Nat.mul_one]

theorem eq_ofBits_zero {x : Float} (h : x.toBits.toNat = 0) : x = ofBits 0 := by
  obtain ⟨⟨bits, valid⟩⟩ := x
  obtain rfl : bits = 0 := UInt64.toNat_inj.mp h
  rfl

/-- A whole number is its significand without the places behind the point. -/
theorem significand_of_isWhole {m k : Nat} (h : (Exact.finite false m (.negSucc k)).isWhole) :
    m = wholeMagnitude m (.negSucc k) * 2 ^ (k + 1) := by
  have hmod : m % 2 ^ (k + 1) = 0 := beq_iff_eq.mp h
  exact (Nat.div_mul_cancel (Nat.dvd_of_mod_eq_zero hmod)).symm

theorem wholeMagnitude_eq_zero {m k : Nat} (h : m < 2 ^ 52) (hk : 52 ≤ k + 1) :
    wholeMagnitude m (.negSucc k) = 0 :=
  Nat.div_eq_of_lt (Nat.lt_of_lt_of_le h (Nat.pow_le_pow_right (by decide) hk))

/-- The bits of a whole number that is not too large are those of the nearest number to it. -/
theorem ofBits_nearest_whole {x : Float} {m : Nat} {e : Int} (h : exact x = .finite false m e)
    (hwhole : (exact x).isWhole) (hpos : 0 < wholeMagnitude m e)
    (hlt : wholeMagnitude m e < 2 ^ 52) :
    ofBits (Format.binary64.nearest (wholeMagnitude m e) 1) = x := by
  rw [h] at hwhole
  obtain ⟨-, hm, rfl⟩ | ⟨biased, fraction, hbits, hfraction, hlow, hhigh, hm, he⟩ := decode_cases h
  · rw [wholeMagnitude_eq_zero hm (by decide)] at hpos
    exact absurd hpos (by decide)
  · cases e with
    | ofNat k =>
      -- a number without places behind the point is at least as great as its significand
      have hle : m * 1 ≤ m * 2 ^ k := Nat.mul_le_mul_left m Nat.one_le_two_pow
      have hlt : m * 2 ^ k < 2 ^ 52 := hlt
      omega
    | negSucc k =>
      have hsignificand := significand_of_isWhole hwhole
      generalize wholeMagnitude m (.negSucc k) = w at *
      have hk : k < 52 := by
        have hle : 1 * 2 ^ (k + 1) ≤ w * 2 ^ (k + 1) := Nat.mul_le_mul_right _ hpos
        have hpow : 2 ^ (k + 1) < 2 ^ 53 := by omega
        have := (Nat.pow_lt_pow_iff_right (by decide)).mp hpow
        omega
      have hlog : w.log2 = 51 - k := by
        have hlow : 2 ^ (51 - k) * 2 ^ (k + 1) ≤ w * 2 ^ (k + 1) := by
          rw [← Nat.pow_add, show 51 - k + (k + 1) = 52 by omega]
          omega
        have hup : w * 2 ^ (k + 1) < 2 ^ (52 - k) * 2 ^ (k + 1) := by
          rw [← Nat.pow_add, show 52 - k + (k + 1) = 53 by omega]
          omega
        have hle := Nat.le_of_mul_le_mul_right hlow (Nat.two_pow_pos _)
        have hlt := Nat.lt_of_mul_lt_mul_right hup
        refine (Nat.log2_eq_iff (by omega)).mpr ⟨hle, ?_⟩
        rw [show 51 - k + 1 = 52 - k by omega]
        exact hlt
      have hnearest : Format.binary64.nearest w 1 = x.toBits.toNat := by
        rw [nearest_whole hpos hlt, hlog, show 52 - (51 - k) = k + 1 by omega, ← hsignificand]
        omega
      rw [hnearest]
      exact ofBits_toBits (by omega) (by omega)

theorem ofBits_zero {x : Float} {m : Nat} {e : Int} (h : exact x = .finite false m e)
    (hwhole : (exact x).isWhole) (hzero : wholeMagnitude m e = 0) : ofBits 0 = x := by
  rw [h] at hwhole
  have hm : m = 0 := by
    cases e with
    | ofNat k =>
      have hpos : 2 ^ k ≠ 0 := Nat.pos_iff_ne_zero.mp (Nat.two_pow_pos k)
      exact (Nat.mul_eq_zero.mp hzero).resolve_right hpos
    | negSucc k =>
      rw [significand_of_isWhole hwhole, hzero, Nat.zero_mul]
  obtain ⟨hbits, -, -⟩ | ⟨biased, fraction, -, -, -, -, hnormal, -⟩ := decode_cases h
  · exact (eq_ofBits_zero (hbits ▸ hm)).symm
  · omega

/-- Whole numbers that are written without a point are parsed to themselves. -/
theorem parse?_repr {x : Float} {m : Nat} {e : Int} (h : exact x = .finite false m e)
    (hwhole : (exact x).isWhole) (hlt : wholeMagnitude m e < 10 ^ 15) :
    parse? (Nat.repr (wholeMagnitude m e)) = some x := by
  have hdigits : ∀ c ∈ (Nat.repr (wholeMagnitude m e)).toList, c.isDigit :=
    fun _ => isDigit_of_mem_repr
  have htext : (Nat.repr (wholeMagnitude m e)).toList
      = numeral (Nat.repr (wholeMagnitude m e)).toList [] := by
    simp [numeral]
  have hparse := parseBits?_numeral .binary64 (repr_toList_ne_nil _) hdigits (List.forall_mem_nil _)
    htext
  rw [List.append_nil, digitsToNat_repr] at hparse
  rw [parse?, hparse]
  refine congrArg some ?_
  change ofBits (ofDecimal .binary64 (wholeMagnitude m e) 0) = x
  by_cases hzero : wholeMagnitude m e = 0
  · rw [hzero]
    exact ofBits_zero h hwhole hzero
  · have hpos := Nat.pos_of_ne_zero hzero
    rw [ofDecimal_whole hpos hlt]
    exact ofBits_nearest_whole h hwhole hpos (Nat.lt_trans hlt (by decide))

/-- If its plain text is parsed to a number, then so is the text that scripts show. -/
theorem parse?_scriptText {x : Float} {m : Nat} {e : Int} (h : exact x = .finite false m e)
    (hplain : parse? (plain x) = some x) : parse? (scriptText x) = some x := by
  unfold scriptText
  rw [h]
  simp only [Bool.false_and, Bool.false_eq_true, if_false]
  split
  · next hwhole =>
    rw [Bool.and_eq_true, decide_eq_true_eq] at hwhole
    exact parse?_repr h (h ▸ hwhole.1) hwhole.2
  · exact hplain

end ScriptEngine.Number
