import ScriptEngine.Proofs.Rounding
/-!
# The fewest digits of a number

The digits that a number is written with are found by looking on ever finer grids for a point that
is rounded to the number. The coarsest grid is not above the number, and twenty digits are more than
any number needs, so there is such a point on one of the grids.

* `Number.decimalExponent_le` : where the search begins.
* `Number.searchGrid_between` : it finds a point within the bounds.
* `Number.rounds_shortest` : the fewest digits of a number are rounded to it.
-/

namespace ScriptEngine.Number

/-! ## Where the search begins -/

/-- The guess is not too great for a number above one. -/
theorem tens_le_twos : ∀ k < 1200, 10 ^ (k * 30103 / 100000) ≤ 5 * 2 ^ k := by decide +kernel

/-- The guess is not too great for a number below one. -/
theorem twos_le_tens : ∀ k < 1200, 2 ^ (k + 1) ≤ 10 ^ ((k * 30103 + 99999) / 100000 + 1) := by
  decide +kernel

theorem ten_zpow_le {l : Int} (hlow : -1200 < l) (hhigh : l < 1200) :
    (10 : ℚ) ^ (l * 30103 / 100000 - 1) ≤ 2 ^ (l - 1) := by
  rcases Int.eq_nat_or_neg l with ⟨k, rfl | rfl⟩
  · have hk := tens_le_twos k (by omega)
    have hk : (10 : ℚ) ^ (k * 30103 / 100000) ≤ 5 * 2 ^ k := by exact_mod_cast hk
    have hguess : (k : Int) * 30103 / 100000 = (k * 30103 / 100000 : Nat) := by push_cast; rfl
    rw [hguess, zpow_sub_one₀ (by norm_num), zpow_sub_one₀ (by norm_num), zpow_natCast,
      zpow_natCast]
    linarith
  · have hk := twos_le_tens k (by omega)
    have hk : (2 : ℚ) ^ (k + 1) ≤ 10 ^ ((k * 30103 + 99999) / 100000 + 1) := by exact_mod_cast hk
    have hguess : -(k : Int) * 30103 / 100000 - 1 =
        -(((k * 30103 + 99999) / 100000 + 1 : Nat) : Int) := by
      omega
    have hpower : -(k : Int) - 1 = -((k + 1 : Nat) : Int) := by omega
    rw [hguess, hpower, zpow_neg, zpow_neg, zpow_natCast, zpow_natCast]
    exact inv_anti₀ (by positivity) hk

/-- The coarsest grid is no coarser than the number is great. -/
theorem decimalExponent_le {value unit : Nat} (hvalue : 0 < value) (hunit : 0 < unit)
    (hlow : -1200 < (value.log2 : Int) - unit.log2)
    (hhigh : (value.log2 : Int) - unit.log2 < 1200) :
    (10 : ℚ) ^ decimalExponent value unit ≤ value / unit := by
  have hreaches (e : Int) : reaches 10 value unit e = true → (10 : ℚ) ^ e ≤ value / unit := by
    intro h
    exact_mod_cast (reaches_iff (by decide) hunit e).mp h
  let guess : Int := ((value.log2 : Int) - unit.log2) * 30103 / 100000
  have hexponent : decimalExponent value unit =
      if reaches 10 value unit (guess + 1) then guess + 1
      else if reaches 10 value unit guess then guess else guess - 1 := rfl
  rw [hexponent]
  split
  · next h => exact hreaches _ h
  split
  · next h => exact hreaches _ h
  refine (ten_zpow_le hlow hhigh).trans ?_
  have hpos : (0 : ℚ) < unit := by exact_mod_cast hunit
  have htwo : (2 : ℚ) ≠ 0 := by norm_num
  have hvalueLow : (2 : ℚ) ^ value.log2 ≤ value := by exact_mod_cast Nat.log2_self_le hvalue.ne'
  have hunitHigh : (unit : ℚ) ≤ 2 ^ (unit.log2 + 1) := by exact_mod_cast Nat.lt_log2_self.le
  rw [le_div_iff₀ hpos, zpow_sub₀ htwo, zpow_sub₀ htwo, zpow_natCast, zpow_natCast, zpow_one]
  calc (2 : ℚ) ^ value.log2 / 2 ^ unit.log2 / 2 * unit
      ≤ 2 ^ value.log2 / 2 ^ unit.log2 / 2 * 2 ^ (unit.log2 + 1) := by gcongr
    _ = 2 ^ value.log2 := by rw [pow_succ]; field_simp
    _ ≤ value := hvalueLow

/-! ## The search -/

/-- A grid: how many times finer than the unit it is counted in, and the distance of its points. -/
def gridOf (unit : Nat) : Int → Nat × Nat
  | .ofNat n => (1, unit * Nat.pow 10 n)
  | .negSucc n => (Nat.pow 10 (n + 1), unit)

/-- Whether a point of a grid lies within the bounds. -/
def onGrid (closed : Bool) (low high : Nat) (grid : Nat × Nat) (c : Nat) : Bool :=
  (low * grid.1 < c * grid.2 || closed && low * grid.1 == c * grid.2) &&
    (c * grid.2 < high * grid.1 || closed && high * grid.1 == c * grid.2)

section Search

variable {tie : Tie} {closed : Bool} {low value high unit : Nat}

theorem gridOf_spec (hunit : 0 < unit) (e : Int) :
    0 < (gridOf unit e).1 ∧ 0 < (gridOf unit e).2 ∧
      ((gridOf unit e).2 : ℚ) = (gridOf unit e).1 * unit * 10 ^ e := by
  cases e with
  | ofNat n =>
    refine ⟨Nat.one_pos, Nat.mul_pos hunit (Nat.pow_pos (by decide)), ?_⟩
    simp [gridOf]
  | negSucc n =>
    refine ⟨Nat.pow_pos (by decide), hunit, ?_⟩
    simp only [gridOf, zpow_negSucc, Nat.pow_eq, Nat.cast_pow, Nat.cast_ofNat]
    field_simp

/-- The points within the bounds, as ratios. -/
theorem between_of_onGrid (hunit : 0 < unit) {e : Int} {c : Nat}
    (h : onGrid closed low high (gridOf unit e) c = true) :
    Between closed (low / unit) (high / unit) (c * 10 ^ e) := by
  obtain ⟨hscale, -, hstep⟩ := gridOf_spec hunit e
  have hunit : (0 : ℚ) < unit := by exact_mod_cast hunit
  have hscale : (0 : ℚ) < (gridOf unit e).1 := by exact_mod_cast hscale
  have hpoint : ((c * (gridOf unit e).2 : Nat) : ℚ) = c * 10 ^ e * unit * (gridOf unit e).1 := by
    push_cast
    rw [hstep]
    ring
  simp only [onGrid, Bool.and_eq_true, Bool.or_eq_true, decide_eq_true_eq, beq_iff_eq] at h
  have hcast (a : Nat) : ((a * (gridOf unit e).1 : Nat) : ℚ) =
    a * (gridOf unit e).1 := by push_cast; rfl
  refine ⟨h.1.imp (fun h => ?_) fun h => ⟨h.1, ?_⟩, h.2.imp (fun h => ?_) fun h => ⟨h.1, ?_⟩⟩
  · have h : (low * (gridOf unit e).1 : ℚ) < c * 10 ^ e * unit * (gridOf unit e).1 := by
      rw [← hpoint, ← hcast]
      exact_mod_cast h
    rw [div_lt_iff₀ hunit]
    exact lt_of_mul_lt_mul_right h hscale.le
  · have h : (low * (gridOf unit e).1 : ℚ) = c * 10 ^ e * unit * (gridOf unit e).1 := by
      rw [← hpoint, ← hcast]
      exact_mod_cast h.2
    rw [div_eq_iff hunit.ne']
    exact mul_right_cancel₀ hscale.ne' h
  · have h : (c * 10 ^ e * unit * (gridOf unit e).1 : ℚ) < high * (gridOf unit e).1 := by
      rw [← hpoint, ← hcast]
      exact_mod_cast h
    rw [lt_div_iff₀ hunit]
    exact lt_of_mul_lt_mul_right h hscale.le
  · have h : (c * 10 ^ e * unit * (gridOf unit e).1 : ℚ) = high * (gridOf unit e).1 := by
      rw [← hpoint, ← hcast]
      exact_mod_cast h.2.symm
    rw [eq_div_iff hunit.ne']
    exact mul_right_cancel₀ hscale.ne' h

/-- The search on one grid: it ends at one of the points around the value, or there is none. -/
theorem searchGrid_cases (grids : Nat) (e : Int) :
    (∃ c, searchGrid tie closed low value high unit (grids + 1) e = (c, e) ∧ 0 < c ∧
      onGrid closed low high (gridOf unit e) c = true) ∨
    searchGrid tie closed low value high unit (grids + 1) e
      = searchGrid tie closed low value high unit grids (e - 1) ∧
    let below := value * (gridOf unit e).1 / (gridOf unit e).2
    (below = 0 ∨ onGrid closed low high (gridOf unit e) below = false) := by
  let grid := gridOf unit e
  let below := value * grid.1 / grid.2
  let preferBelow := decide (value * grid.1 - below * grid.2 < (below + 1) * grid.2 - value *
    grid.1) ||
    value * grid.1 - below * grid.2 == (below + 1) * grid.2 - value * grid.1 && tie == .even &&
      below % 2 == 0
  -- one grid, by which of the two points next to the value lie on it
  have hsearch (p q : Bool) (hp : (below != 0 && onGrid closed low high grid below) = p)
      (hq : onGrid closed low high grid (below + 1) = q) :
      searchGrid tie closed low value high unit (grids + 1) e =
        bif p then bif q then (if preferBelow then below else below + 1, e) else (below, e)
        else bif q then (below + 1, e) else searchGrid tie closed low value high unit grids
          (e - 1) := by
    cases e <;> rw [searchGrid] <;> dsimp only <;> split <;>
    · next hbelow habove =>
      obtain rfl := hp.symm.trans hbelow
      obtain rfl := hq.symm.trans habove
      rfl
  rw [hsearch _ _ rfl rfl]
  cases habove : onGrid closed low high grid (below + 1) with
  | true =>
    cases hbelow : below != 0 && onGrid closed low high grid below with
    | true =>
      rw [Bool.and_eq_true, bne_iff_ne] at hbelow
      refine .inl ⟨if preferBelow then below else below + 1, rfl, ?_⟩
      split
      · exact ⟨Nat.pos_of_ne_zero hbelow.1, hbelow.2⟩
      · exact ⟨Nat.succ_pos _, habove⟩
    | false => exact .inl ⟨below + 1, rfl, Nat.succ_pos _, habove⟩
  | false =>
    cases hbelow : below != 0 && onGrid closed low high grid below with
    | true =>
      rw [Bool.and_eq_true, bne_iff_ne] at hbelow
      exact .inl ⟨below, rfl, Nat.pos_of_ne_zero hbelow.1, hbelow.2⟩
    | false =>
      rw [Bool.and_eq_false_iff, bne_eq_false_iff_eq] at hbelow
      exact .inr ⟨rfl, hbelow⟩

/-- A grid that is fine enough has a point between the lower bound and the value. -/
theorem onGrid_of_fine (hunit : 0 < unit) (hhigh : value < high) {e : Int}
    (hfine : (10 : ℚ) ^ e ≤ (value - low) / unit) :
    let below := value * (gridOf unit e).1 / (gridOf unit e).2
    0 < below ∧ onGrid closed low high (gridOf unit e) below = true := by
  obtain ⟨hscale, hstep, hspec⟩ := gridOf_spec hunit e
  have hpos : (0 : ℚ) < unit := by exact_mod_cast hunit
  have hfine : (gridOf unit e).2 + low * (gridOf unit e).1 ≤ value * (gridOf unit e).1 := by
    rw [le_div_iff₀ hpos] at hfine
    have hscale : (0 : ℚ) ≤ (gridOf unit e).1 := by positivity
    have hfine := mul_le_mul_of_nonneg_right hfine hscale
    have : ((gridOf unit e).2 + low * (gridOf unit e).1 : ℚ) ≤ value * (gridOf unit e).1 := by
      rw [hspec]
      linarith
    exact_mod_cast this
  have hhigh : value * (gridOf unit e).1 < high * (gridOf unit e).1 :=
    Nat.mul_lt_mul_of_pos_right hhigh hscale
  simp only [onGrid, Bool.and_eq_true, Bool.or_eq_true, decide_eq_true_eq]
  generalize (gridOf unit e).1 = scale, (gridOf unit e).2 = step at *
  have hdiv := Nat.div_add_mod (value * scale) step
  have hmod := Nat.mod_lt (value * scale) hstep
  rw [Nat.mul_comm step] at hdiv
  exact ⟨Nat.div_pos (by omega) hstep, .inl (by omega), .inl (by omega)⟩

/-- Of so many grids one is fine enough. -/
theorem searchGrid_between (hunit : 0 < unit) (hhigh : value < high) {grids : Nat} {e : Int}
    (hfine : (10 : ℚ) ^ (e - grids) ≤ (value - low) / unit) :
    let found := searchGrid tie closed low value high unit (grids + 1) e
    0 < found.1 ∧ Between closed (low / unit) (high / unit) (found.1 * 10 ^ found.2) := by
  induction grids generalizing e with
  | zero =>
    rw [Nat.cast_zero, Int.sub_zero] at hfine
    obtain ⟨hbelow, hon⟩ := @onGrid_of_fine closed low value high unit hunit hhigh e hfine
    rcases @searchGrid_cases tie closed low value high unit 0 e with ⟨c, hfound, hc, hinside⟩ |
      ⟨-, hnone⟩
    · rw [hfound]
      exact ⟨hc, between_of_onGrid hunit hinside⟩
    · rcases hnone with hzero | houtside
      · exact absurd hzero hbelow.ne'
      · exact absurd hon (by rw [houtside]; decide)
  | succ grids ih =>
    rcases @searchGrid_cases tie closed low value high unit (grids + 1) e with
      ⟨c, hfound, hc, hinside⟩ | ⟨hnext, -⟩
    · rw [hfound]
      exact ⟨hc, between_of_onGrid hunit hinside⟩
    · rw [hnext]
      refine ih ?_
      convert hfine using 2
      push_cast
      ring

end Search

/-! ## The digits -/

/-- Quarters of the last place, whether that is above one or below. -/
theorem quarters_eq (e : Int) :
    ((Nat.pow 2 (e - 2).toNat : Nat) : ℚ) / (Nat.pow 2 (2 - e).toNat : Nat) = 2 ^ (e - 2) := by
  rcases le_total e 2 with h | h
  · have hzero : (e - 2).toNat = 0 := by omega
    have hpower : e - 2 = -((2 - e).toNat : Int) := by omega
    rw [hzero, hpower, zpow_neg, zpow_natCast]
    simp
  · have hzero : (2 - e).toNat = 0 := by omega
    have hpower : e - 2 = ((e - 2).toNat : Int) := by omega
    rw [hzero]
    conv_rhs => rw [hpower, zpow_natCast]
    simp

/-- Twenty grids are enough: seventeen digits tell the numbers of up to 53 bits apart. -/
theorem grids_suffice {m below : Nat} {e exponent : Int} (hm : m < 2 ^ 53) (hbelow : 0 < below)
    (h : (10 : ℚ) ^ exponent ≤ 4 * m * 2 ^ (e - 2)) :
    (10 : ℚ) ^ (exponent - (19 : Nat)) ≤ below * 2 ^ (e - 2) := by
  have hplace : (0 : ℚ) < 2 ^ (e - 2) := by positivity
  have hm : (m : ℚ) ≤ 2 ^ 53 := by exact_mod_cast hm.le
  have hbelow : (1 : ℚ) ≤ below := by exact_mod_cast hbelow
  rw [zpow_sub₀ (by norm_num), zpow_natCast, div_le_iff₀ (by norm_num)]
  calc (10 : ℚ) ^ exponent ≤ 4 * m * 2 ^ (e - 2) := h
    _ ≤ 4 * 2 ^ 53 * 2 ^ (e - 2) := by gcongr
    _ ≤ 10 ^ 19 * 2 ^ (e - 2) := by gcongr; norm_num
    _ ≤ below * 2 ^ (e - 2) * 10 ^ 19 := by nlinarith

/-- **The fewest digits of a number are rounded to it.** -/
theorem rounds_shortest {f : Format} (tie : Tie) {m : Nat} {e : Int} (h : f.Holds m e) (hm : 0 < m)
    (hprecision : f.precision ≤ 53) (hmin : -1074 ≤ f.minExponent) (he : e ≤ 1000) :
    0 < (shortest f tie m e).1 ∧
      f.Rounds m e ((shortest f tie m e).1 * 10 ^ (shortest f tie m e).2) := by
  let scale := Nat.pow 2 (e - 2).toNat
  let unit := Nat.pow 2 (2 - e).toNat
  let below := if f.Steps m e then 1 else 2
  let value := 4 * m * scale
  let low := (4 * m - below) * scale
  let high := (4 * m + 2) * scale
  let found := searchGrid tie (m % 2 == 0) low value high unit 20 (decimalExponent value unit)
  have hshortest : shortest f tie m e = if found.1 == 10 then (1, found.2 + 1) else found := rfl
  have hscale : 0 < scale := Nat.two_pow_pos _
  have hunit : 0 < unit := Nat.two_pow_pos _
  have hbounded : m < 2 ^ 53 := h.bounded.trans_le (Nat.pow_le_pow_right (by decide) hprecision)
  have hlow := h.low
  have hratio (n : Nat) : ((n * scale : Nat) : ℚ) / unit = n * 2 ^ (e - 2) := by
    rw [← quarters_eq e, Nat.cast_mul, mul_div_assoc]
  have hbelow : 0 < below ∧ below ≤ 2 := by
    unfold below
    split <;> decide
  -- the number lies between the powers of two that the search can begin at
  have hvalueLow : (e - 2).toNat ≤ value.log2 := by
    refine (Nat.le_log2 (by positivity)).mpr ?_
    exact Nat.le_mul_of_pos_left _ (by omega)
  have hvalueHigh : value.log2 < 55 + (e - 2).toNat := by
    refine (Nat.log2_lt (by positivity)).mpr ?_
    rw [Nat.pow_add]
    exact Nat.mul_lt_mul_of_pos_right (by omega) hscale
  have hunitLog : unit.log2 = (2 - e).toNat := Nat.log2_two_pow
  have hexponent : (10 : ℚ) ^ decimalExponent value unit ≤ value / unit :=
    decimalExponent_le (by positivity) hunit (by omega) (by omega)
  have hfine : (10 : ℚ) ^ (decimalExponent value unit - (19 : Nat)) ≤ (value - low) / unit := by
    have hgap : (value - low : ℚ) = (below * scale : Nat) := by
      rw [← Nat.cast_sub (Nat.mul_le_mul_right _ (Nat.sub_le _ _)), ← Nat.sub_mul]
      rw [Nat.sub_sub_self (by omega)]
    rw [hgap, hratio]
    refine grids_suffice hbounded hbelow.1 (hexponent.trans_eq ?_)
    rw [hratio]
    push_cast
    rfl
  have hhigh : value < high := Nat.mul_lt_mul_of_pos_right (by omega) hscale
  obtain ⟨hpos, hbetween⟩ : 0 < found.1 ∧
      Between (m % 2 == 0) (low / unit) (high / unit) (found.1 * 10 ^ found.2) :=
    searchGrid_between hunit hhigh hfine
  have hrounds : f.Rounds m e (found.1 * 10 ^ found.2) := by
    have hplace : (2 : ℚ) ^ e = 4 * 2 ^ (e - 2) := by
      rw [zpow_sub₀ (by norm_num)]
      norm_num
      ring
    have hmargin : 4 * f.margin m e = below := by
      unfold Format.margin below
      split <;> norm_num
    have hlowBound : (low / unit : ℚ) = (m - f.margin m e) * 2 ^ e := by
      rw [hratio, Nat.cast_sub (by omega), ← hmargin, hplace]
      push_cast
      ring
    have hhighBound : (high / unit : ℚ) = (m + 1 / 2) * 2 ^ e := by
      rw [hratio, hplace]
      push_cast
      ring
    rw [hlowBound, hhighBound] at hbetween
    exact hbetween
  rw [hshortest]
  split
  · next hten =>
    rw [beq_iff_eq] at hten
    refine ⟨Nat.one_pos, ?_⟩
    convert hrounds using 1
    rw [hten, zpow_add_one₀ (by norm_num)]
    push_cast
    ring
  · exact ⟨hpos, hrounds⟩

end ScriptEngine.Number
