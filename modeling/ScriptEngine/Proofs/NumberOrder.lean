import ScriptEngine.Proofs.HostTrips
import ScriptEngine.Proofs.Rounding
/-!
# The order of doubles

Every finite double is a whole number of units, the last places of the least doubles. Doubles are
compared as their numbers of units are, and truncating a double divides its number by that of one,
towards zero. So truncation keeps the order, whatever it is bounded by.

* `Number.StandsFor` : the exact value of a double, and the same number as arithmetic takes it
  apart.
* `Number.Exact.units` : a value in units. An infinite one counts as the power of two behind the
  greatest double.
* `Number.lt_iff`, `Number.le_iff`, `Number.units_of_beq` : what is not `NaN` is compared by its
  units.
* `Number.toInt_eq` : truncation to bounded integers, in units.
* `Number.units_ofNat` : the units of a whole number that a double counts exactly.
-/

namespace ScriptEngine.Number

open Float.Model.UnpackedFloat

/-! ## Doubles taken apart -/

/-- An exact value and the same number as arithmetic takes it apart. -/
inductive StandsFor : Exact → Float.Model.UnpackedFloat → Prop
  | nan : StandsFor .nan .notANumber
  | infinite (negative : Bool) : StandsFor (.infinite negative) (.infinity (signOf negative))
  | zero (negative : Bool) : StandsFor (.finite negative 0 (-1074)) (.zero (signOf negative))
  | finite (negative : Bool) {m : Nat} {e : Int} (hm : 0 < m) (hholds : Format.binary64.Holds m e)
      (hhigh : e < 972) :
      StandsFor (.finite negative m e) (.finite (signOf negative) m e hm)

/-- What a number below the normal ones is made of. -/
theorem unpack_subnormal {b : BitVec 64} {negative : Bool} {m : Nat} {e : Int} (hm : 0 < m)
    (hlt : m < 2 ^ 52) (h : Format.binary64.decode b.toNat = .finite negative m e) :
    unpack .binary64 b = .finite (signOf negative) m (-1074) hm := by
  have hprecision : Nat.pow 2 (Format.binary64.precision - 1) = 2 ^ 52 := rfl
  have hexponent : Nat.pow 2 Format.binary64.exponentBits = 2 ^ 11 := rfl
  have hsign : Format.binary64.signBit = 2 ^ 63 := rfl
  have hbias : (Float.Model.Format.binary64.exponentBias : Int) = 1023 := rfl
  simp only [Format.decode, hprecision, hexponent, hsign] at h
  split_ifs at h with hones hfraction hzero
  · obtain ⟨rfl, rfl, -⟩ := Exact.finite.inj h
    have hmantissa : @unpackMantissa .binary64 b ≠ 0#52 := fun hnone => by
      rw [← toNat_unpackMantissa, hnone] at hm
      exact absurd hm (by decide)
    unfold unpack
    simp only
    rw [if_neg (mt unpackExponent_eq_ones.mp hones), if_pos (unpackExponent_eq_zero.mpr hzero),
      dif_neg hmantissa,
      ofBitVec_unpackSign]
    simp only [toNat_unpackMantissa, toNat_unpackExponent, hzero, hbias]
    rfl
  · obtain ⟨-, rfl, -⟩ := Exact.finite.inj h
    omega

theorem standsFor_decode (b : BitVec 64) :
    StandsFor (Format.binary64.decode b.toNat) (unpack .binary64 b) := by
  have hprecision : Nat.pow 2 (Format.binary64.precision - 1) = 2 ^ 52 := rfl
  have hexponent : Nat.pow 2 Format.binary64.exponentBits = 2 ^ 11 := rfl
  have hsign : Format.binary64.signBit = 2 ^ 63 := rfl
  have hmin : Format.binary64.minExponent = -1074 := by decide
  have hmantissa : @unpackMantissa .binary64 b = 0#52 ↔ b.toNat % 2 ^ 52 = 0 := by
    rw [← toNat_unpackMantissa, ← BitVec.toNat_inj]
    rfl
  cases h : Format.binary64.decode b.toNat with
  | finite negative m e =>
    rcases unpack_of_decode h with ⟨hlt, rfl, hzero⟩ | ⟨hn, hunpack⟩
    · rcases Nat.eq_zero_or_pos m with rfl | hm
      · rw [hzero rfl]
        exact .zero negative
      · rw [unpack_subnormal hm hlt h]
        have hlowest : ¬ Format.binary64.minExponent < .negSucc 1073 := by decide
        exact .finite negative hm ⟨Nat.lt_trans hlt (by decide), hmin.le,
          fun h => absurd h hlowest⟩ (by decide)
    · rw [hunpack]
      have hlow := hn.low
      exact .finite negative hn.pos ⟨hn.bounded, by omega, fun _ => hn.leading⟩ hn.high
  | nan =>
    simp only [Format.decode, hprecision, hexponent, hsign] at h
    split_ifs at h with hones hzero
    unfold unpack
    simp only
    rw [if_pos (unpackExponent_eq_ones.mpr hones), if_neg (mt hmantissa.mp hzero)]
    exact .nan
  | infinite negative =>
    simp only [Format.decode, hprecision, hexponent, hsign] at h
    split_ifs at h with hones hzero
    obtain rfl := Exact.infinite.inj h
    unfold unpack
    simp only
    rw [if_pos (unpackExponent_eq_ones.mpr hones), if_pos (hmantissa.mpr hzero),
      ofBitVec_unpackSign]
    exact .infinite _

theorem standsFor (x : Float) : StandsFor (exact x) x.toModel.unpack :=
  standsFor_decode x.toBits.toBitVec

theorem exact_eq_nan_iff {x : Float} : exact x = .nan ↔ x.isNaN = true := by
  change exact x = .nan ↔ x.toModel.unpack.isNaN = true
  have h := standsFor x
  generalize x.toModel.unpack = u at h
  generalize exact x = a at h
  cases h <;> simp [Float.Model.UnpackedFloat.isNaN]

theorem exact_ne_nan {x : Float} (hx : x.isNaN = false) : exact x ≠ .nan := by
  rw [Ne, exact_eq_nan_iff, hx]
  exact Bool.false_ne_true

/-! ## Units -/

/-- A power of two in units. -/
@[irreducible] def scale (e : Int) : Nat := 2 ^ (e + 1074).toNat

/-- How many units make one. -/
def unit : Nat := scale 0

/-- What an infinite value counts as. -/
def beyond : Nat := scale 1024

/-- A magnitude with a sign. -/
def signed (negative : Bool) (n : Nat) : Int := if negative then -n else n

/-- A value in units. -/
def Exact.units : Exact → Int
  | .nan => 0
  | .infinite negative => signed negative beyond
  | .finite negative m e => signed negative (m * scale e)

theorem units_infinite (s : Bool) : (Exact.infinite s).units = signed s beyond := rfl

theorem units_finite (s : Bool) (m : Nat) (e : Int) :
    (Exact.finite s m e).units = signed s (m * scale e) := rfl

theorem units_zero (s : Bool) (e : Int) : (Exact.finite s 0 e).units = signed s 0 := by
  rw [units_finite, Nat.zero_mul]

theorem scale_pos (e : Int) : 0 < scale e := by
  unfold scale
  exact Nat.two_pow_pos _

theorem unit_pos : 0 < unit := scale_pos 0

theorem scale_add {e : Int} (he : -1074 ≤ e) (k : Nat) : scale (e + k) = scale e * 2 ^ k := by
  rw [scale, scale, ← Nat.pow_add]
  congr 1
  omega

theorem beyond_eq : beyond = unit * 2 ^ 1024 := by
  rw [beyond, unit, ← scale_add (by decide)]
  congr 1

/-- A whole number that a double counts exactly is not beyond all doubles. -/
theorem mul_unit_lt_beyond {n : Nat} (hn : n ≤ 2 ^ 53) : n * unit < beyond := by
  have hpow {k : Nat} (hk : 53 < k) : 2 ^ 53 < 2 ^ k := Nat.pow_lt_pow_right Nat.one_lt_two hk
  rw [beyond_eq, Nat.mul_comm]
  exact Nat.mul_lt_mul_of_pos_left (Nat.lt_of_le_of_lt hn (hpow (by decide))) unit_pos

section Magnitudes

variable {m n : Nat} {e f : Int}

theorem low_of_holds (h : Format.binary64.Holds m e) : -1074 ≤ e := by
  have hmin : Format.binary64.minExponent = -1074 := by decide
  exact hmin ▸ h.low

theorem mul_scale_lt_scale (hm : m < 2 ^ 53) (hlow : -1074 ≤ e) (hef : e + 53 ≤ f) :
    m * scale e < scale f := by
  have hf : scale f = scale e * 2 ^ 53 * 2 ^ (f - e - 53).toNat := by
    rw [← scale_add hlow 53, ← scale_add (by omega)]
    congr 1
    omega
  calc m * scale e < 2 ^ 53 * scale e := Nat.mul_lt_mul_of_pos_right hm (scale_pos e)
    _ = scale e * 2 ^ 53 := Nat.mul_comm _ _
    _ ≤ scale e * 2 ^ 53 * 2 ^ (f - e - 53).toNat := Nat.le_mul_of_pos_right _ (Nat.two_pow_pos _)
    _ = scale f := hf.symm

/-- A greater exponent makes a greater number, since only the least exponent has small
significands. -/
theorem mul_scale_lt (h : Format.binary64.Holds m e) (h' : Format.binary64.Holds n f)
    (hef : e < f) :
    m * scale e < n * scale f := by
  have hmin : Format.binary64.minExponent = -1074 := by decide
  have hlow := low_of_holds h
  have hleading : 2 ^ 52 ≤ n := h'.leading (by omega)
  have hf : 2 ^ 52 * scale f = scale
    (f + (52 : Nat)) := by rw [Nat.mul_comm, ← scale_add (by omega)]
  calc m * scale e < scale (f + (52 : Nat)) := mul_scale_lt_scale h.bounded hlow (by omega)
    _ = 2 ^ 52 * scale f := hf.symm
    _ ≤ n * scale f := Nat.mul_le_mul_right _ hleading

/-- Significands are compared after exponents, which is how the magnitudes are compared. -/
theorem compare_finite (h : Format.binary64.Holds m e) (h' : Format.binary64.Holds n f) :
    (compare e f).then (compare m n) = compare (m * scale e) (n * scale f) := by
  rcases Int.lt_trichotomy e f with hlt | rfl | hgt
  · rw [Int.compare_eq_lt.mpr hlt, Nat.compare_eq_lt.mpr (mul_scale_lt h h' hlt)]
    rfl
  · rw [show compare e e = .eq from Std.ReflCmp.compare_self]
    change compare m n = _
    rcases Nat.lt_trichotomy m n with hlt | rfl | hgt
    · rw [Nat.compare_eq_lt.mpr hlt, Nat.compare_eq_lt.mpr
        (Nat.mul_lt_mul_of_pos_right hlt (scale_pos e))]
    · rw [Nat.compare_eq_eq.mpr rfl, Nat.compare_eq_eq.mpr rfl]
    · rw [Nat.compare_eq_gt.mpr hgt, Nat.compare_eq_gt.mpr
        (Nat.mul_lt_mul_of_pos_right hgt (scale_pos e))]
  · rw [Int.compare_eq_gt.mpr hgt, Nat.compare_eq_gt.mpr (mul_scale_lt h' h hgt)]
    rfl

/-- The part before the point is a quotient of units. -/
theorem wholeMagnitude_eq (he : -1074 ≤ e) : wholeMagnitude m e = m * scale e / unit := by
  cases e with
  | ofNat k =>
    have hscale : scale (.ofNat k) = unit * 2 ^ k := by
      rw [unit, ← scale_add (by decide), Int.ofNat_eq_natCast, Int.zero_add]
    rw [hscale, Nat.mul_comm unit, ← Nat.mul_assoc, Nat.mul_div_cancel _ unit_pos]
    rfl
  | negSucc k =>
    have hunit : unit = 2 ^ (k + 1) * scale (.negSucc k) := by
      rw [Nat.mul_comm, ← scale_add he, unit]
      congr 1
      omega
    rw [hunit, Nat.mul_div_mul_right _ _ (scale_pos _)]
    rfl

end Magnitudes

/-! ## Comparison -/

/-- How magnitudes with signs are compared. -/
theorem compare_signed (s t : Bool) {p q : Nat} (hpq : 0 < p ∨ 0 < q) :
    compare (signed s p) (signed t q) =
    match s, t with
    | false, false => compare p q
    | false, true => .gt
    | true, false => .lt
    | true, true => (compare p q).swap := by
  have hcompare : compare (p : Int) q = compare p q := by
    rcases Nat.lt_trichotomy p q with h | rfl | h
    · rw [Nat.compare_eq_lt.mpr h, Int.compare_eq_lt.mpr (by omega)]
    · rw [Nat.compare_eq_eq.mpr rfl, Int.compare_eq_eq.mpr rfl]
    · rw [Nat.compare_eq_gt.mpr h, Int.compare_eq_gt.mpr (by omega)]
  cases s <;> cases t
  · exact hcompare
  · exact Int.compare_eq_gt.mpr (show -(q : Int) < p by omega)
  · exact Int.compare_eq_lt.mpr (show -(p : Int) < q by omega)
  · rw [← hcompare]
    change compare (-(p : Int)) (-q) = _
    rcases Int.lt_trichotomy (p : Int) q with h | h | h
    · rw [Int.compare_eq_lt.mpr h, Int.compare_eq_gt.mpr (by omega)]
      rfl
    · rw [Int.compare_eq_eq.mpr h, Int.compare_eq_eq.mpr (by omega)]
      rfl
    · rw [Int.compare_eq_gt.mpr h, Int.compare_eq_lt.mpr (by omega)]
      rfl

/-- Arithmetic compares numbers as their units are compared. -/
theorem StandsFor.compare_eq {a b : Exact} {u v : Float.Model.UnpackedFloat} (ha : StandsFor a u)
    (hb : StandsFor b v) (hna : a ≠ .nan) (hnb : b ≠ .nan) :
    u.compare v = some (compare a.units b.units) := by
  have hbeyond : 0 < beyond := scale_pos _
  have hpos {m : Nat} (hm : 0 < m) (e : Int) : 0 < m * scale e := Nat.mul_pos hm (scale_pos e)
  have hbelow {m : Nat} {e : Int} (h : Format.binary64.Holds m e) (hhigh : e < 972) :
      m * scale e < beyond :=
    mul_scale_lt_scale h.bounded (low_of_holds h) (by omega)
  cases ha with
  | nan => exact absurd rfl hna
  | infinite s =>
    rw [units_infinite]
    cases hb with
    | nan => exact absurd rfl hnb
    | infinite t =>
      rw [units_infinite, compare_signed s t (.inl hbeyond), Nat.compare_eq_eq.mpr rfl]
      cases s <;> cases t <;> rfl
    | zero t =>
      rw [units_zero, compare_signed s t (.inl hbeyond), Nat.compare_eq_gt.mpr hbeyond]
      cases s <;> cases t <;> rfl
    | finite t hn hholds hhigh =>
      rw [units_finite, compare_signed s t (.inl hbeyond), Nat.compare_eq_gt.mpr
        (hbelow hholds hhigh)]
      cases s <;> cases t <;> rfl
  | zero s =>
    rw [units_zero]
    cases hb with
    | nan => exact absurd rfl hnb
    | infinite t =>
      rw [units_infinite, compare_signed s t (.inr hbeyond), Nat.compare_eq_lt.mpr hbeyond]
      cases s <;> cases t <;> rfl
    | zero t =>
      rw [units_zero]
      cases s <;> cases t <;> rfl
    | finite t hn hholds hhigh =>
      rw [units_finite, compare_signed s t (.inr (hpos hn _)), Nat.compare_eq_lt.mpr (hpos hn _)]
      cases s <;> cases t <;> rfl
  | finite s hm hholds hhigh =>
    rw [units_finite]
    cases hb with
    | nan => exact absurd rfl hnb
    | infinite t =>
      rw [units_infinite, compare_signed s t (.inr hbeyond), Nat.compare_eq_lt.mpr
        (hbelow hholds hhigh)]
      cases s <;> cases t <;> rfl
    | zero t =>
      rw [units_zero, compare_signed s t (.inl (hpos hm _)), Nat.compare_eq_gt.mpr (hpos hm _)]
      cases s <;> cases t <;> rfl
    | finite t hn hholds' hhigh' =>
      rw [units_finite, compare_signed s t (.inl (hpos hm _)), ← compare_finite hholds hholds']
      cases s <;> cases t <;> rfl

section Comparison

variable {x y : Float}

theorem compare_eq (hx : x.isNaN = false) (hy : y.isNaN = false) :
    x.toModel.unpack.compare y.toModel.unpack = some (compare (exact x).units (exact y).units) :=
  (standsFor x).compare_eq (standsFor y) (exact_ne_nan hx) (exact_ne_nan hy)

theorem lt_iff_compare : x < y ↔ x.toModel.unpack.compare y.toModel.unpack = some .lt := by
  change decide ((x.toModel.unpack.compare y.toModel.unpack == some .lt) = true) = true ↔ _
  rw [decide_eq_true_iff, beq_iff_eq]

/-- What is not `NaN` is less than another number if it has fewer units. -/
theorem lt_iff (hx : x.isNaN = false) (hy : y.isNaN = false) :
    x < y ↔ (exact x).units < (exact y).units := by
  rw [lt_iff_compare, compare_eq hx hy, Option.some_inj, Int.compare_eq_lt]

theorem le_iff (hx : x.isNaN = false) (hy : y.isNaN = false) :
    x ≤ y ↔ (exact x).units ≤ (exact y).units := by
  change decide ((x.toModel.unpack.compare y.toModel.unpack).any (·.isLE) = true) = true ↔ _
  rw [decide_eq_true_iff, compare_eq hx hy, Option.any_some, Int.isLE_compare]

theorem not_lt_iff (hx : x.isNaN = false) (hy : y.isNaN = false) : ¬ y < x ↔ x ≤ y := by
  rw [lt_iff hy hx, le_iff hx hy, Int.not_lt]

/-- `NaN` is in no order with anything. -/
theorem compare_of_isNaN (h : x.isNaN = true ∨ y.isNaN = true) :
    x.toModel.unpack.compare y.toModel.unpack = none := by
  have hx : x.isNaN = x.toModel.unpack.isNaN := rfl
  have hy : y.isNaN = y.toModel.unpack.isNaN := rfl
  rw [hx, hy] at h
  generalize x.toModel.unpack = u at h
  generalize y.toModel.unpack = v at h
  cases u <;> cases v <;>
    simp [Float.Model.UnpackedFloat.isNaN, Float.Model.UnpackedFloat.compare] at h ⊢

theorem not_lt_of_isNaN (h : x.isNaN = true ∨ y.isNaN = true) : ¬ x < y := by
  rw [lt_iff_compare, compare_of_isNaN h]
  exact nofun

theorem not_le_of_isNaN (h : x.isNaN = true ∨ y.isNaN = true) : ¬ x ≤ y := by
  change ¬ decide ((x.toModel.unpack.compare y.toModel.unpack).any (·.isLE) = true) = true
  rw [compare_of_isNaN h]
  exact Bool.false_ne_true

/-- What is in order is not `NaN`. -/
theorem not_isNaN_of_le (h : x ≤ y) : x.isNaN = false ∧ y.isNaN = false :=
  ⟨Bool.eq_false_iff.mpr fun hx => not_le_of_isNaN (.inl hx) h,
    Bool.eq_false_iff.mpr fun hy => not_le_of_isNaN (.inr hy) h⟩

theorem le_trans {z : Float} (hxy : x ≤ y) (hyz : y ≤ z) : x ≤ z := by
  obtain ⟨hx, hy⟩ := not_isNaN_of_le hxy
  obtain ⟨-, hz⟩ := not_isNaN_of_le hyz
  rw [le_iff hx hy] at hxy
  rw [le_iff hy hz] at hyz
  exact (le_iff hx hz).mpr (hxy.trans hyz)

/-- What is equal to something is not `NaN`. -/
theorem not_isNaN_of_beq (h : (x == y) = true) : x.isNaN = false ∧ y.isNaN = false :=
  ⟨beq_self_iff.mp (beq_trans h (beq_comm ▸ h)), beq_self_iff.mp (beq_trans (beq_comm ▸ h) h)⟩

/-- Numbers that are equal have the same units. -/
theorem units_of_beq (h : (x == y) = true) : (exact x).units = (exact y).units := by
  obtain ⟨hx, hy⟩ := not_isNaN_of_beq h
  change (x.toModel.unpack.compare y.toModel.unpack == some .eq) = true at h
  rwa [compare_eq hx hy, beq_iff_eq, Option.some_inj, Int.compare_eq_eq] at h

end Comparison

/-! ## Truncation -/

theorem signed_tdiv (s : Bool) (p q : Nat) : (signed s p).tdiv q = signed s (p / q) := by
  cases s with
  | false => rfl
  | true => exact Int.neg_tdiv ..

theorem low_of_exact {x : Float} {negative : Bool} {m : Nat} {e : Int}
    (h : exact x = .finite negative m e) :
    -1074 ≤ e := by
  have hstands := standsFor x
  rw [h] at hstands
  generalize x.toModel.unpack = u at hstands
  cases hstands with
  | zero => exact Int.le_refl _
  | finite _ _ hholds => exact low_of_holds hholds

/-- A finite value truncates to the quotient of its units by those of one. -/
theorem truncate?_eq {x : Float} {negative : Bool} {m : Nat} {e : Int}
    (h : exact x = .finite negative m e) :
    (exact x).truncate? = some ((exact x).units.tdiv unit) := by
  rw [h, units_finite, signed_tdiv, ← wholeMagnitude_eq (low_of_exact h)]
  rfl

/-- Truncation to bounded integers stops at the bounds. -/
theorem Exact.toInt_of_truncate? {a : Exact} {i : Int} (ha : a.truncate? = some i)
    (low high : Int) :
    a.toInt low high = max low (min high i) := by
  cases a with
  | finite negative m e =>
    obtain rfl := Option.some_inj.mp ha
    rfl
  | nan => cases ha
  | infinite negative => cases ha

/-- Truncation to bounded integers is a quotient between the bounds. -/
theorem toInt_eq {x : Float} (hx : x.isNaN = false) {low high : Int} (hle : low ≤ high)
    (hlow : -2 ^ 64 ≤ low) (hhigh : high ≤ 2 ^ 64) :
    (exact x).toInt low high = max low (min high ((exact x).units.tdiv unit)) := by
  have hnan := exact_ne_nan hx
  cases h : exact x with
  | nan => exact absurd h hnan
  | finite negative m e =>
    rw [← h]
    exact Exact.toInt_of_truncate? (truncate?_eq h) low high
  | infinite negative =>
    have hgreat : (2 : Int) ^ 64 ≤
      (2 ^ 1024 : Nat) := by exact_mod_cast Nat.pow_le_pow_right Nat.two_pos (by decide)
    rw [units_infinite, signed_tdiv, beyond_eq, Nat.mul_div_cancel_left _ unit_pos]
    generalize 2 ^ 1024 = great at hgreat
    cases negative with
    | false =>
      change high = max low (min high (great : Int))
      omega
    | true =>
      change low = max low (min high (-great : Int))
      omega

theorem toInt_of_isNaN {x : Float} (hx : x.isNaN = true) (low high : Int) :
    (exact x).toInt low high = 0 := by
  rw [exact_eq_nan_iff.mpr hx]
  rfl

/-- Truncation keeps the order. -/
theorem toInt_le_toInt {x y : Float} (hx : x.isNaN = false) (hy : y.isNaN = false) (hxy : x ≤ y)
    {low high : Int} (hle : low ≤ high) (hlow : -2 ^ 64 ≤ low) (hhigh : high ≤ 2 ^ 64) :
    (exact x).toInt low high ≤ (exact y).toInt low high := by
  rw [toInt_eq hx hle hlow hhigh, toInt_eq hy hle hlow hhigh]
  have hquotients := Int.tdiv_le_tdiv (Int.natCast_pos.mpr unit_pos) ((le_iff hx hy).mp hxy)
  omega

/-- Numbers that are equal truncate alike. -/
theorem toInt_of_beq {x y : Float} (hxy : (x == y) = true) {low high : Int} (hle : low ≤ high)
    (hlow : -2 ^ 64 ≤ low) (hhigh : high ≤ 2 ^ 64) :
    (exact x).toInt low high = (exact y).toInt low high := by
  obtain ⟨hx, hy⟩ := not_isNaN_of_beq hxy
  rw [toInt_eq hx hle hlow hhigh, toInt_eq hy hle hlow hhigh, units_of_beq hxy]

/-! ## Whole numbers -/

/-- What arithmetic takes apart, in units. -/
def unpackedUnits : Float.Model.UnpackedFloat → Int
  | .notANumber => 0
  | .infinity s => signed (s == .negative) beyond
  | .zero _ => 0
  | .finite s m e _ => signed (s == .negative) (m * scale e)

theorem StandsFor.units_eq {a : Exact} {u : Float.Model.UnpackedFloat} (h : StandsFor a u) :
    a.units = unpackedUnits u := by
  cases h with
  | nan => rfl
  | infinite s => cases s <;> rfl
  | zero s =>
    rw [units_zero]
    cases s <;> rfl
  | finite s => cases s <;> rfl

/-- A whole number that a double counts exactly has so many units. -/
theorem units_ofNat {n : Nat} (hn : n ≤ 2 ^ 53) : (exact (Float.ofNat n)).units = n * unit := by
  rw [(standsFor _).units_eq]
  rcases Nat.eq_zero_or_pos n with rfl | hpos
  · rw [Nat.cast_zero, Int.zero_mul]
    rfl
  rcases Nat.lt_or_eq_of_le hn with hlt | rfl
  · have hlog : n.log2 < 53 := (Nat.log2_lt hpos.ne').mpr hlt
    -- the significand has its leading one in front of the last place
    have hnormal : Normal (n * 2 ^ (52 - n.log2)) (-(52 - n.log2 : Nat)) := by
      have hshifted := log2_mul_two_pow hpos.ne' (52 - n.log2)
      obtain ⟨hleading, hbounded⟩ := (Nat.log2_eq_iff (Nat.mul_pos hpos (Nat.two_pow_pos _)).ne').mp
        hshifted
      have htop : n.log2 + (52 - n.log2) = 52 := by omega
      rw [htop] at hleading hbounded
      exact ⟨hleading, hbounded, by omega, by omega⟩
    have hunit : unit = scale (-(52 - n.log2 : Nat)) * 2 ^ (52 - n.log2) := by
      rw [← scale_add (by omega), unit]
      congr 1
      omega
    rw [ofNat_shifted hnormal, hunit]
    change ((n * 2 ^ (52 - n.log2) * scale (-(52 - n.log2 : Nat)) : Nat) : Int) = _
    push_cast
    ring
  · have hnormal : Normal (2 ^ 52) ((0 : Nat) + 1) := ⟨by decide, by decide, by decide, by decide⟩
    have hunpack : (Float.ofNat (2 ^ 53)).toModel.unpack = _ := ofNat_large hnormal
    have hscale : scale ((0 : Nat) + 1) = unit * 2 ^ 1 := by
      rw [unit, ← scale_add (by decide)]
      congr 1
    rw [hunpack]
    change ((2 ^ 52 * scale ((0 : Nat) + 1) : Nat) : Int) = _
    rw [hscale]
    push_cast
    ring

theorem isNaN_ofNat {n : Nat} (hn : n ≤ 2 ^ 53) : (Float.ofNat n).isNaN = false := by
  rcases Nat.eq_zero_or_pos n with rfl | hpos
  · rfl
  · rw [Bool.eq_false_iff, Ne, ← exact_eq_nan_iff]
    intro hnan
    have hunits := units_ofNat hn
    rw [hnan] at hunits
    exact absurd hunits (Int.mul_pos (Int.natCast_pos.mpr hpos) (Int.natCast_pos.mpr unit_pos)).ne

theorem units_literal_zero : (exact 0.0).units = 0 := by
  have hzero : exact 0.0 = .finite false 0 (-1074) := rfl
  rw [hzero, units_zero]
  rfl

theorem units_literal_one : (exact 1.0).units = unit := by
  have hone : (exact (Float.ofNat 1)).units = (1 : Nat) * unit := units_ofNat (by decide)
  rwa [Nat.cast_one, Int.one_mul] at hone

end ScriptEngine.Number
