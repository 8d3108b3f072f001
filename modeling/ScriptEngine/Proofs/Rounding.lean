import Mathlib
import ScriptEngine.Number.Decimal
/-!
# What is rounded to a number

A ratio is rounded to the number of a format that it lies nearest to. The numbers around one are
halfway to its neighbours, and the neighbour below a power of two is half as far away as the one
above, unless it is subnormal.

* `Number.Between` : inside two bounds, or at one of them if they count.
* `Number.reaches_iff` : how a power is compared with a ratio of integers.
* `Number.Format.Holds`, `Number.Format.bits` : the numbers of a format and their encodings.
* `Number.Format.Rounds` : the ratios that are nearest to a number.
* `Number.Format.nearest_eq` : they are rounded to it.
-/

namespace ScriptEngine.Number

/-! ## Ratios -/

/-- Inside two bounds; at either bound if they count. -/
def Between (closed : Bool) (low high q : ℚ) : Prop :=
  (low < q ∨ closed = true ∧ low = q) ∧ (q < high ∨ closed = true ∧ q = high)

namespace Between

variable {closed : Bool} {low high q : ℚ}

theorem le (h : Between closed low high q) : low ≤ q := h.1.elim le_of_lt fun h => h.2.le

theorem ge (h : Between closed low high q) : q ≤ high := h.2.elim le_of_lt fun h => h.2.le

theorem of_le (hlow : low ≤ q) (hhigh : q ≤ high) : Between true low high q :=
  ⟨hlow.lt_or_eq.imp_right (⟨rfl, ·⟩), hhigh.lt_or_eq.imp_right (⟨rfl, ·⟩)⟩

/-- A common factor makes no difference. -/
theorem scale {c : ℚ} (hc : 0 < c) (h : Between closed (low * c) (high * c) q) :
    Between closed low high (q / c) := by
  refine ⟨h.1.imp (lt_div_iff₀ hc).mpr fun h => ⟨h.1, (eq_div_iff hc.ne').mpr h.2⟩,
    h.2.imp (div_lt_iff₀ hc).mpr fun h => ⟨h.1, (div_eq_iff hc.ne').mpr h.2⟩⟩

end Between

/-- Whether a ratio is at least a power. -/
def reaches (base value unit : Nat) : Int → Bool
  | .ofNat n => unit * Nat.pow base n ≤ value
  | .negSucc n => unit ≤ value * Nat.pow base (n + 1)

theorem reaches_iff {base value unit : Nat} (hbase : 0 < base) (hunit : 0 < unit) (e : Int) :
    reaches base value unit e = true ↔ (base : ℚ) ^ e ≤ value / unit := by
  have hunit : (0 : ℚ) < unit := by exact_mod_cast hunit
  have hbase : (0 : ℚ) < base := by exact_mod_cast hbase
  cases e with
  | ofNat n =>
    have hcast : (unit * base ^ n ≤ value) ↔ ((unit : ℚ) * (base : ℚ) ^ n ≤ value) := by
      exact_mod_cast Iff.rfl
    rw [Int.ofNat_eq_natCast, zpow_natCast, le_div_iff₀ hunit, mul_comm, ← hcast]
    exact decide_eq_true_iff
  | negSucc n =>
    have hcast : (unit ≤ value * base ^ (n + 1)) ↔ ((unit : ℚ) ≤ value * (base : ℚ) ^ (n + 1)) := by
      exact_mod_cast Iff.rfl
    rw [zpow_negSucc, inv_eq_one_div, div_le_div_iff₀ (pow_pos hbase _) hunit, one_mul, ← hcast]
    exact decide_eq_true_iff

namespace Format

/-! ## Rounding to integers -/

/-- The integer nearest to a ratio, and the even one of two. -/
theorem divideToEven_eq {num den r : Nat} (hden : 0 < den)
    (h : Between (r % 2 == 0) (r - 1 / 2) (r + 1 / 2) (num / den)) : divideToEven num den = r := by
  have hpos : (0 : ℚ) < den := by exact_mod_cast hden
  obtain ⟨hlow, hhigh⟩ := h
  have hlow : 2 * (den * r) < 2 * num + den ∨ r % 2 = 0 ∧ 2 * (den * r) = 2 * num + den := by
    rw [lt_div_iff₀ hpos, eq_div_iff hpos.ne', beq_iff_eq] at hlow
    refine hlow.imp (fun h => ?_) fun h => ⟨h.1, ?_⟩
    · have : (2 * (den * r) : ℚ) < 2 * num + den := by linarith
      exact_mod_cast this
    · have : (2 * (den * r) : ℚ) = 2 * num + den := by linarith [h.2]
      exact_mod_cast this
  have hhigh : 2 * num < 2 * (den * r) + den ∨ r % 2 = 0 ∧ 2 * num = 2 * (den * r) + den := by
    rw [div_lt_iff₀ hpos, div_eq_iff hpos.ne', beq_iff_eq] at hhigh
    refine hhigh.imp (fun h => ?_) fun h => ⟨h.1, ?_⟩
    · have : (2 * num : ℚ) < 2 * (den * r) + den := by linarith
      exact_mod_cast this
    · have : (2 * num : ℚ) = 2 * (den * r) + den := by linarith [h.2]
      exact_mod_cast this
  have hdiv := Nat.div_add_mod num den
  have hmod := Nat.mod_lt num hden
  -- the integer is the quotient or the one behind it
  have hcases : r = num / den ∨ r = num / den + 1 := by
    by_contra hne
    rcases Nat.lt_or_ge r (num / den) with hlt | hge
    · have := Nat.mul_le_mul_left den (Nat.succ_le_of_lt hlt)
      rw [Nat.mul_succ] at this
      omega
    · have := Nat.mul_le_mul_left den (show num / den + 2 ≤ r by omega)
      rw [Nat.mul_add] at this
      omega
  unfold divideToEven
  simp only
  generalize num / den = k at hdiv hcases ⊢
  rcases hcases with rfl | rfl
  · split_ifs <;> omega
  · rw [Nat.mul_succ] at hlow hhigh
    split_ifs <;> omega

/-- A ratio in units of a power of two, rounded to an integer. -/
def divideBy (num den : Nat) : Int → Nat
  | .ofNat e => divideToEven num (den * Nat.pow 2 e)
  | .negSucc e => divideToEven (num * Nat.pow 2 (e + 1)) den

theorem divideBy_eq {num den r : Nat} {e : Int} (hden : 0 < den)
    (h : Between (r % 2 == 0) (r - 1 / 2) (r + 1 / 2) (num / den / 2 ^ e)) :
    divideBy num den e = r := by
  cases e with
  | ofNat n =>
    refine divideToEven_eq (Nat.mul_pos hden (Nat.two_pow_pos n)) ?_
    rw [Int.ofNat_eq_natCast, zpow_natCast, div_div] at h
    exact_mod_cast h
  | negSucc n =>
    refine divideToEven_eq hden ?_
    rw [zpow_negSucc, div_inv_eq_mul, div_mul_eq_mul_div] at h
    exact_mod_cast h

/-! ## The power of two below a ratio -/

/-- The exponent of the power of two that is at or below a ratio. -/
def topOf (num den : Nat) : Int :=
  let estimate : Int := (num.log2 : Int) - den.log2
  if reaches 2 num den estimate then estimate else estimate - 1

theorem topOf_spec {num den : Nat} (hnum : 0 < num) (hden : 0 < den) :
    (2 : ℚ) ^ topOf num den ≤ num / den ∧ (num / den : ℚ) < 2 ^ (topOf num den + 1) := by
  have hpos : (0 : ℚ) < den := by exact_mod_cast hden
  have htwo : (2 : ℚ) ≠ 0 := by norm_num
  have hnumLow : (2 : ℚ) ^ num.log2 ≤ num := by exact_mod_cast Nat.log2_self_le hnum.ne'
  have hnumHigh : (num : ℚ) < 2 ^ (num.log2 + 1) := by exact_mod_cast Nat.lt_log2_self
  have hdenLow : (2 : ℚ) ^ den.log2 ≤ den := by exact_mod_cast Nat.log2_self_le hden.ne'
  have hdenHigh : (den : ℚ) < 2 ^ (den.log2 + 1) := by exact_mod_cast Nat.lt_log2_self
  have hreaches : reaches 2 num den ((num.log2 : Int) - den.log2) = true ↔
      ((2 : Nat) : ℚ) ^ ((num.log2 : Int) - den.log2) ≤ num / den := reaches_iff (by decide) hden _
  -- the estimate is at most one too great
  have hlow : (2 : ℚ) ^ ((num.log2 : Int) - den.log2 - 1) ≤ num / den := by
    rw [le_div_iff₀ hpos, zpow_sub₀ htwo, zpow_sub₀ htwo, zpow_natCast, zpow_natCast, zpow_one]
    calc (2 : ℚ) ^ num.log2 / 2 ^ den.log2 / 2 * den
        ≤ 2 ^ num.log2 / 2 ^ den.log2 / 2 * 2 ^ (den.log2 + 1) := by gcongr
      _ = 2 ^ num.log2 := by rw [pow_succ]; field_simp
      _ ≤ num := hnumLow
  have hhigh : (num / den : ℚ) < 2 ^ ((num.log2 : Int) - den.log2 + 1) := by
    rw [div_lt_iff₀ hpos, zpow_add₀ htwo, zpow_sub₀ htwo, zpow_natCast, zpow_natCast, zpow_one]
    calc (num : ℚ) < 2 ^ (num.log2 + 1) := hnumHigh
      _ = 2 ^ num.log2 / 2 ^ den.log2 * 2 * 2 ^ den.log2 := by rw [pow_succ]; field_simp
      _ ≤ 2 ^ num.log2 / 2 ^ den.log2 * 2 * den := by gcongr
  unfold topOf
  simp only
  split
  · next h => exact ⟨by exact_mod_cast hreaches.mp h, hhigh⟩
  · next h =>
    refine ⟨hlow, ?_⟩
    rw [Int.sub_add_cancel]
    exact_mod_cast not_le.mp (mt hreaches.mpr h)

/-- There is one power of two only. -/
theorem topOf_eq {num den : Nat} {e : Int} (hnum : 0 < num) (hden : 0 < den)
    (hlow : (2 : ℚ) ^ e ≤ num / den) (hhigh : (num / den : ℚ) < 2 ^ (e + 1)) :
    topOf num den = e := by
  obtain ⟨htop, htop'⟩ := topOf_spec hnum hden
  have hlt := (zpow_lt_zpow_iff_right₀ (by norm_num : (1 : ℚ) < 2)).mp (hlow.trans_lt htop')
  have hlt' := (zpow_lt_zpow_iff_right₀ (by norm_num : (1 : ℚ) < 2)).mp (htop.trans_lt hhigh)
  omega

/-! ## The numbers of a format -/

section Numbers

variable (f : Format) (m : Nat) (e : Int)

/-- The format has the number `m * 2 ^ e`, and no lower exponent could stand for it. -/
structure Holds : Prop where
  bounded : m < 2 ^ f.precision
  low : f.minExponent ≤ e
  leading : f.minExponent < e → 2 ^ (f.precision - 1) ≤ m

/-- The encoding of the number `m * 2 ^ e`. -/
def bits : Nat := (e - f.minExponent).toNat * 2 ^ (f.precision - 1) + m

/-- Whether the next smaller number is half as far away as the next greater one. -/
def Steps : Prop := m = 2 ^ (f.precision - 1) ∧ f.minExponent < e

instance : Decidable (f.Steps m e) := inferInstanceAs (Decidable (_ ∧ _))

/-- How far below a number ratios are rounded to it, in units of its last place. -/
def margin : ℚ := if f.Steps m e then 1 / 4 else 1 / 2

/-- The ratios that are rounded to a number: those up to halfway to its neighbours, and those
halfway if its significand is even. -/
def Rounds (q : ℚ) : Prop :=
  Between (m % 2 == 0) ((m - f.margin m e) * 2 ^ e) ((m + 1 / 2) * 2 ^ e) q

end Numbers

variable {f : Format} {m num den r : Nat} {e last : Int}

/-- Rounding in places of the right size gives the encoding. -/
theorem nearest_of_last (hnum : 0 < num) (hden : 0 < den)
    (hlast : max f.minExponent (topOf num den - (f.precision - 1 : Nat)) = last)
    (hround : divideBy num den last = r)
    (hbits : (last - f.minExponent).toNat * 2 ^ (f.precision - 1) + r = f.bits m e)
    (hfinite : f.bits m e ≤ f.infinity) : f.nearest num den = f.bits m e := by
  have hnearest : f.nearest num den =
      let last := max f.minExponent (topOf num den - (f.precision - 1 : Nat))
      min f.infinity ((last - f.minExponent).toNat * 2 ^ (f.precision - 1) + divideBy num den
        last) := by
    unfold nearest
    rw [if_neg (by omega)]
    rfl
  rw [hnearest]
  simp only
  rw [hlast, hround, hbits]
  exact Nat.min_eq_right hfinite

/-- Below a power of two a ratio is measured in places that are half as great. -/
theorem nearest_eq_below (hnum : 0 < num) (hden : 0 < den) (hprecision : 2 ≤ f.precision)
    (hsteps : f.Steps m e) (hfinite : f.bits m e ≤ f.infinity)
    (hlow : ((m : ℚ) - 1 / 4) * 2 ^ e ≤ num / den) (hhigh : (num / den : ℚ) < m * 2 ^ e) :
    f.nearest num den = f.bits m e := by
  obtain ⟨p, hp⟩ : ∃ p, f.precision = p + 2 := ⟨f.precision - 2, by omega⟩
  obtain ⟨hpower, hnormal⟩ := hsteps
  have hpower : m = 2 ^ (p + 1) := by rw [hpower, hp]; rfl
  have htwo : (2 : ℚ) ≠ 0 := by norm_num
  have hplace : (2 : ℚ) ^ e = 2 ^ (e - 1) * 2 := by
    rw [← zpow_add_one₀ htwo, Int.sub_add_cancel]
  have hcast : (m : ℚ) = 2 ^ p * 2 := by rw [hpower, pow_succ]; push_cast; rfl
  rw [hcast] at hlow hhigh
  have hone : (1 : ℚ) ≤ 2 ^ p := one_le_pow₀ (by norm_num)
  have hpos : (0 : ℚ) < 2 ^ e := by positivity
  have htop : topOf num den = e + p := by
    refine topOf_eq hnum hden (le_trans ?_ hlow) (hhigh.trans_eq ?_)
    · rw [zpow_add₀ htwo, zpow_natCast, mul_comm]
      gcongr
      linarith
    · rw [zpow_add₀ htwo, zpow_add₀ htwo, zpow_natCast, zpow_one]
      ring
  have hround : divideBy num den (e - 1) = 2 ^ (p + 2) := by
    have heven : (2 ^ (p + 2) % 2 == 0) = true := by rw [pow_succ, Nat.mul_mod_left]; rfl
    refine divideBy_eq hden (Between.scale (by positivity) ?_)
    rw [heven]
    rw [hplace] at hlow hhigh
    push_cast
    refine .of_le (le_trans (le_of_eq ?_) hlow) (hhigh.le.trans ?_)
    · ring
    · rw [mul_comm ((2 : ℚ) ^ (e - 1)) 2, ← mul_assoc, pow_add]
      gcongr
      linarith
  refine nearest_of_last hnum hden ?_ hround ?_ hfinite
  · rw [htop, hp]
    omega
  · have hlast : (e - f.minExponent).toNat = (e - 1 - f.minExponent).toNat + 1 := by omega
    rw [bits, hp, hlast, hpower]
    change _ * 2 ^ (p + 1) + _ = _ * 2 ^ (p + 1) + _
    ring

/-- Elsewhere it is measured in units of the number's last place. -/
theorem nearest_eq_within (hnum : 0 < num) (hden : 0 < den) (hprecision : 2 ≤ f.precision)
    (h : f.Holds m e) (hfinite : f.bits m e ≤ f.infinity)
    (hlow : f.Steps m e → (m : ℚ) * 2 ^ e ≤ num / den)
    (hq : Between (m % 2 == 0) ((m - 1 / 2) * 2 ^ e) ((m + 1 / 2) * 2 ^ e) (num / den)) :
    f.nearest num den = f.bits m e := by
  obtain ⟨p, hp⟩ : ∃ p, f.precision = p + 2 := ⟨f.precision - 2, by omega⟩
  have htwo : (2 : ℚ) ≠ 0 := by norm_num
  have hpos : (0 : ℚ) < 2 ^ e := by positivity
  have hbounded : (m : ℚ) + 1 ≤ 2 ^ (p + 2) := by
    have := h.bounded
    rw [hp] at this
    exact_mod_cast this
  have hhigh : (num / den : ℚ) < 2 ^ (e + p + 2) := by
    refine hq.ge.trans_lt ?_
    rw [add_assoc, zpow_add₀ htwo, mul_comm]
    have hcast : (2 : ℚ) ^ ((p : Int) + 2) =
      2 ^ (p + 2) := by exact_mod_cast zpow_natCast (2 : ℚ) (p + 2)
    rw [hcast]
    gcongr
    linarith
  obtain ⟨htop, -⟩ := topOf_spec hnum hden
  have htop : topOf num den < e + p + 2 :=
    (zpow_lt_zpow_iff_right₀ (by norm_num : (1 : ℚ) < 2)).mp (htop.trans_lt hhigh)
  refine nearest_of_last hnum hden ?_ (divideBy_eq hden (hq.scale hpos)) ?_ hfinite
  · rw [hp]
    rcases h.low.eq_or_lt with heq | hnormal
    · omega
    have hleading : 2 ^ (p + 1) ≤ m := by
      have := h.leading hnormal
      rwa [hp] at this
    have hle : (2 : ℚ) ^ (p + 1) * 2 ^ e ≤ num / den := by
      by_cases hsteps : f.Steps m e
      · refine le_trans ?_ (hlow hsteps)
        gcongr
        exact_mod_cast hleading
      · refine le_trans ?_ hq.le
        have hne : m ≠ 2 ^ (p + 1) := fun heq => hsteps ⟨by rw [heq, hp]; rfl, hnormal⟩
        have hlt : (2 : ℚ) ^ (p + 1) + 1 ≤ m := by
          exact_mod_cast Nat.lt_of_le_of_ne hleading hne.symm
        gcongr
        linarith
    have heq : topOf num den = e + p + 1 := by
      refine topOf_eq hnum hden (le_trans (le_of_eq ?_) hle) (hhigh.trans_eq ?_)
      · rw [add_assoc, zpow_add₀ htwo, mul_comm]
        congr 1
      · rw [add_assoc (e + p)]
        rfl
    rw [heq]
    omega
  · rw [bits]

/-- **A ratio that is nearest to a number is rounded to it.** -/
theorem nearest_eq (hnum : 0 < num) (hden : 0 < den) (hprecision : 2 ≤ f.precision)
    (h : f.Holds m e) (hfinite : f.bits m e ≤ f.infinity) (hq : f.Rounds m e (num / den)) :
    f.nearest num den = f.bits m e := by
  have hpos : (0 : ℚ) < 2 ^ e := by positivity
  by_cases hsteps : f.Steps m e
  · have hmargin : f.margin m e = 1 / 4 := if_pos hsteps
    rw [Rounds, hmargin] at hq
    rcases lt_or_ge (num / den : ℚ) (m * 2 ^ e) with hlt | hge
    · exact nearest_eq_below hnum hden hprecision hsteps hfinite hq.le hlt
    · refine nearest_eq_within hnum hden hprecision h hfinite (fun _ => hge) ⟨.inl ?_, hq.2⟩
      refine lt_of_lt_of_le ?_ hge
      gcongr
      linarith
  · have hmargin : f.margin m e = 1 / 2 := if_neg hsteps
    rw [Rounds, hmargin] at hq
    exact nearest_eq_within hnum hden hprecision h hfinite (fun h => absurd h hsteps) hq

end Format

end ScriptEngine.Number
