import ScriptEngine.Proofs.ShortestDigits
import ScriptEngine.Proofs.WholeNumbers
/-!
# The plain text of a number is parsed to it

The plain text of a finite number has its fewest digits with a point among them or zeros around
them. It is parsed to the number nearest to what the digits stand for, and that is the number.

* `Number.Format.holds_of_decode` : the format has the numbers that encodings stand for.
* `Number.parseBits?_textOf` : what the layout without an exponent is parsed to.
* `Number.ofDecimal_eq` : digits that are rounded to a number are parsed to it.
* **`Number.parse?_plain`, `Number.parse32?_plain32`** : the plain text of a number is parsed to it.
-/

namespace ScriptEngine.Number

/-! ## Encodings of finite numbers -/

namespace Format

/-- The formats of the language. -/
def IsUsed (f : Format) : Prop := f = .binary64 ∨ f = .binary32

theorem IsUsed.bounds {f : Format} (hf : f.IsUsed) :
    2 ≤ f.precision ∧ f.precision ≤ 53 ∧ -1074 ≤ f.minExponent ∧
      f.minExponent + (2 ^ f.exponentBits : Nat) ≤ 1000 := by
  rcases hf with rfl | rfl <;> decide

theorem IsUsed.width_eq {f : Format} (hf : f.IsUsed) :
    f.width = f.precision - 1 + f.exponentBits + 1 := by
  rcases hf with rfl | rfl <;> rfl

/-- The encoding of a finite number without a sign is that of its significand and exponent. -/
theorem holds_of_decode {f : Format} (hf : f.IsUsed) {bits m : Nat} {e : Int}
    (hbits : bits < 2 ^ f.width) (h : f.decode bits = .finite false m e) :
    f.Holds m e ∧ f.bits m e = bits ∧ bits ≤ f.infinity ∧ e ≤ 1000 := by
  obtain ⟨htwo, -, -, hmax⟩ := hf.bounds
  have hprecision : 2 ^ f.precision = 2 * 2 ^ (f.precision - 1) := by
    rw [← Nat.pow_succ']
    congr 1
    omega
  have hinfinity : f.infinity = (2 ^ f.exponentBits - 1) * 2 ^ (f.precision - 1) := rfl
  have hsign : f.signBit = 2 ^ (f.precision - 1) * 2 ^ f.exponentBits := by
    rw [← Nat.pow_add, signBit, hf.width_eq]
    rfl
  rw [hf.width_eq, Nat.pow_succ, Nat.pow_add] at hbits
  simp only [decode, hsign, Nat.pow_eq] at h
  have hfields := Nat.div_add_mod bits (2 ^ (f.precision - 1))
  have hfraction := Nat.mod_lt bits (Nat.two_pow_pos (f.precision - 1))
  rw [← Nat.div_div_eq_div_mul] at h
  have hbiased : bits / 2 ^ (f.precision - 1) < 2 ^ f.exponentBits * 2 := by
    rw [Nat.div_lt_iff_lt_mul (Nat.two_pow_pos _)]
    linarith
  generalize hq : bits / 2 ^ (f.precision - 1) = biased at *
  generalize bits % 2 ^ (f.precision - 1) = fraction at *
  -- the sign is not set, so what stands in front of the fraction is the exponent
  have hmod (hneg : ¬biased / 2 ^ f.exponentBits % 2 = 1) :
      biased % 2 ^ f.exponentBits = biased := by
    refine Nat.mod_eq_of_lt ((Nat.div_eq_zero_iff_lt (Nat.two_pow_pos _)).mp ?_)
    have : biased / 2 ^ f.exponentBits < 2 := Nat.div_lt_of_lt_mul hbiased
    generalize biased / 2 ^ f.exponentBits = sign at *
    omega
  have hfinite (hlt : biased + 1 < 2 ^ f.exponentBits) : bits ≤ f.infinity := by
    have : (biased + 1) * 2 ^ (f.precision - 1) ≤ (2 ^ f.exponentBits - 1) * 2 ^
        (f.precision - 1) :=
      Nat.mul_le_mul_right _ (by omega)
    rw [hinfinity]
    linarith
  split at h
  · split at h <;> exact absurd h (by simp)
  · next hones =>
    split at h
    · next hzero =>
      obtain ⟨hneg, rfl, rfl⟩ := Exact.finite.inj h
      rw [hmod (beq_eq_false_iff_ne.mp hneg)] at hones hzero
      have hpos := Nat.two_pow_pos f.exponentBits
      refine ⟨⟨by omega, le_rfl, fun h => absurd h (lt_irrefl _)⟩, ?_, hfinite (by omega), by omega⟩
      rw [Format.bits, Int.sub_self, ← hfields, hzero]
      simp
    · next hnormal =>
      obtain ⟨hneg, rfl, rfl⟩ := Exact.finite.inj h
      rw [hmod (beq_eq_false_iff_ne.mp hneg)] at hones hnormal ⊢
      have hlt := hmod (beq_eq_false_iff_ne.mp hneg) ▸ Nat.mod_lt biased
        (Nat.two_pow_pos f.exponentBits)
      refine ⟨⟨by omega, by omega, fun _ => by omega⟩, ?_, hfinite (by omega), by omega⟩
      obtain ⟨n, rfl⟩ := Nat.exists_eq_succ_of_ne_zero hnormal
      have hplaces : (f.minExponent + (n + 1 - 1 : Nat) - f.minExponent).toNat = n := by omega
      rw [Format.bits, hplaces, ← hfields, Nat.succ_eq_add_one]
      ring

end Format

/-! ## Digits -/

theorem digitsToNat_append (ds ds' : List Char) :
    digitsToNat (ds ++ ds') = digitsToNat ds * 10 ^ ds'.length + digitsToNat ds' := by
  induction ds' using List.reverseRecOn with
  | nil => simp [digitsToNat]
  | append_singleton ds' d ih =>
    have hlast (ds : List Char) : digitsToNat (ds ++ [d]) =
        10 * digitsToNat ds + (d.toNat - 48) := by
      simp [digitsToNat]
    rw [← List.append_assoc, hlast, ih, hlast, List.length_append, List.length_singleton]
    ring

theorem digitsToNat_zeros (n : Nat) : digitsToNat (zeros n).toList = 0 := by
  rw [zeros, String.toList_ofList]
  induction n with
  | zero => rfl
  | succ n ih => rw [List.replicate_succ', digitsToNat_append, ih]; rfl

/-- Zeros in front make no difference, and each zero behind is a factor of ten. -/
theorem digitsToNat_between_zeros (before digits behind : Nat) :
    digitsToNat ((zeros before).toList ++ (Nat.repr digits).toList ++ (zeros behind).toList)
      = digits * 10 ^ behind := by
  rw [digitsToNat_append, digitsToNat_append, digitsToNat_zeros, digitsToNat_zeros,
    digitsToNat_repr]
  simp [zeros]

/-- A number of so many digits lies between two powers of ten. -/
theorem pow_length_repr {n : Nat} (hn : 0 < n) :
    10 ^ ((Nat.repr n).length - 1) ≤ n ∧ n < 10 ^ (Nat.repr n).length := by
  have hlength (k : Nat) (hk : 0 < k) : (Nat.repr n).length ≤ k ↔ n < 10 ^ k := by
    rw [← String.length_toList, Nat.toList_repr]
    exact Nat.length_toDigits_le_iff (by decide) hk
  have hpos : 0 < (Nat.repr n).length := by
    rw [← String.length_toList]
    exact List.length_pos_of_ne_nil (repr_toList_ne_nil n)
  refine ⟨?_, (hlength _ hpos).mp le_rfl⟩
  rcases Nat.eq_zero_or_pos ((Nat.repr n).length - 1) with hone | hmore
  · rw [hone]
    exact hn
  · exact not_lt.mp fun h => absurd ((hlength _ hmore).mpr h) (by omega)

/-! ## Reading -/

section Reading

variable {f : Format} {m : Nat} {e : Int}

theorem twos_lt_tens : (2 : ℚ) ^ (1075 : Int) < 10 ^ (400 : Int) := by
  have h : 2 ^ 1075 < 10 ^ 400 := by decide +kernel
  exact_mod_cast h

/-- The numbers of the formats are neither so small nor so great that powers are settled by size. -/
theorem Format.Rounds.bounds (hf : f.IsUsed) (h : f.Holds m e) (hm : 0 < m) (he : e ≤ 1000) {q : ℚ}
    (hq : f.Rounds m e q) : (10 : ℚ) ^ (-400 : Int) ≤ q ∧ q < 10 ^ (400 : Int) := by
  obtain ⟨-, hprecision, hmin, -⟩ := hf.bounds
  have htwo : (1 : ℚ) ≤ 2 := by norm_num
  have hlow := h.low
  have hone : (1 : ℚ) ≤ m := by exact_mod_cast hm
  have hmargin : f.margin m e ≤ 1 / 2 := by
    unfold Format.margin
    split <;> norm_num
  have hbounded : (m : ℚ) + 1 ≤ 2 ^ (53 : Int) := by
    exact_mod_cast h.bounded.trans_le (Nat.pow_le_pow_right (by decide) hprecision)
  constructor
  · calc (10 : ℚ) ^ (-400 : Int) ≤ 2 ^ (-1075 : Int) := by
          rw [zpow_neg, zpow_neg]
          exact inv_anti₀ (by positivity) twos_lt_tens.le
      _ ≤ 2 ^ (e - 1) := zpow_le_zpow_right₀ htwo (by omega)
      _ = 1 / 2 * 2 ^ e := by rw [zpow_sub_one₀ (by norm_num)]; ring
      _ ≤ (m - f.margin m e) * 2 ^ e := by gcongr; linarith
      _ ≤ q := hq.le
  · calc q ≤ (m + 1 / 2) * 2 ^ e := hq.ge
      _ ≤ 2 ^ (53 : Int) * 2 ^ e := by gcongr; linarith
      _ = 2 ^ (53 + e) := (zpow_add₀ (by norm_num) _ _).symm
      _ ≤ 2 ^ (1075 : Int) := zpow_le_zpow_right₀ htwo (by omega)
      _ < 10 ^ (400 : Int) := twos_lt_tens

/-- Digits that are rounded to a number are parsed to it. -/
theorem ofDecimal_eq (hf : f.IsUsed) (h : f.Holds m e) (hm : 0 < m) (he : e ≤ 1000)
    (hfinite : f.bits m e ≤ f.infinity) {digits : Nat} {exponent : Int} (hdigits : 0 < digits)
    (hq : f.Rounds m e (digits * 10 ^ exponent)) : ofDecimal f digits exponent = f.bits m e := by
  have hten : (1 : ℚ) < 10 := by norm_num
  obtain ⟨hpowerLow, hpowerHigh⟩ := pow_length_repr hdigits
  obtain ⟨hsmall, hgreat⟩ := hq.bounds hf h hm he
  have hupper : ((Nat.repr digits).length : Int) - 1 + exponent < 400 := by
    refine (zpow_lt_zpow_iff_right₀ hten).mp (lt_of_le_of_lt ?_ hgreat)
    rw [zpow_add₀ (by norm_num)]
    gcongr
    have hlength : ((Nat.repr digits).length : Int) - 1 ≤ ((Nat.repr digits).length - 1 :
      Nat) := by omega
    calc (10 : ℚ) ^ (((Nat.repr digits).length : Int) - 1)
        ≤ 10 ^ (((Nat.repr digits).length - 1 : Nat) : Int) := zpow_le_zpow_right₀ hten.le hlength
      _ ≤ digits := by rw [zpow_natCast]; exact_mod_cast hpowerLow
  have hlower : -400 < ((Nat.repr digits).length : Int) + exponent := by
    refine (zpow_lt_zpow_iff_right₀ hten).mp (lt_of_le_of_lt hsmall ?_)
    rw [zpow_add₀ (by norm_num), zpow_natCast]
    gcongr
    exact_mod_cast hpowerHigh
  unfold ofDecimal
  rw [if_neg (by omega)]
  simp only
  rw [if_neg (by omega), if_neg (by omega)]
  obtain ⟨htwo, -⟩ := hf.bounds
  cases exponent with
  | ofNat n =>
    refine Format.nearest_eq (Nat.mul_pos hdigits (Nat.pow_pos (by decide))) Nat.one_pos htwo h
      hfinite ?_
    convert hq using 1
    simp
  | negSucc n =>
    refine Format.nearest_eq hdigits (Nat.pow_pos (by decide)) htwo h hfinite ?_
    convert hq using 1
    rw [zpow_negSucc, div_eq_mul_inv]
    simp

/-- The plain text of a number is parsed to its encoding. -/
theorem parseBits?_textOf (hf : f.IsUsed) (h : f.Holds m e) (he : e ≤ 1000)
    (hfinite : f.bits m e ≤ f.infinity) (tie : Tie) :
    parseBits? f (textOf f tie plainLayout "0" (.finite false m e)) = some (f.bits m e) := by
  rcases Nat.eq_zero_or_pos m with rfl | hm
  · -- zero is the subnormal number of significand zero
    have hmin : f.minExponent = e := by
      refine h.low.eq_of_not_lt fun hlt => ?_
      exact absurd (h.leading hlt) (Nat.not_le_of_lt (Nat.two_pow_pos _))
    have hzero : f.bits 0 e = 0 := by simp [Format.bits, hmin]
    rw [hzero]
    have htext : (textOf f tie plainLayout "0" (.finite false 0 e)).toList = numeral ['0'] [] := by
      simp [textOf, numeral]
    rw [parseBits?_numeral f (List.cons_ne_nil '0' []) (List.all_eq_true.mp (by decide))
      (List.forall_mem_nil _) htext]
    rfl
  · obtain ⟨hdigits, hrounds⟩ := rounds_shortest tie h hm hf.bounds.2.1 hf.bounds.2.2.1 he
    have htext : textOf f tie plainLayout "0" (.finite false m e) =
        plainLayout (shortest f tie m e).1 (shortest f tie m e).2 := by
      simp only [textOf, if_neg hm.ne', Bool.false_eq_true, if_false]
    rw [htext]
    generalize shortest f tie m e = found at hdigits hrounds ⊢
    obtain ⟨digits, power⟩ := found
    obtain ⟨whole, fraction, before, behind, hne, hnumeral, hspelled, hpower⟩ :=
      exists_numeral_plainLayout digits power
    have hall : ∀ c ∈ whole ++ fraction, c.isDigit := fun c hc =>
      isDigit_of_mem_between_zeros (hspelled ▸ hc)
    rw [parseBits?_numeral f hne (fun c hc => hall c (List.mem_append_left _ hc))
      (fun c hc => hall c (List.mem_append_right _ hc)) hnumeral, hspelled,
        digitsToNat_between_zeros]
    refine congrArg some (ofDecimal_eq hf h hm he hfinite
      (Nat.mul_pos hdigits (Nat.pow_pos (by decide))) ?_)
    convert hrounds using 1
    rw [hpower, sub_eq_add_neg, zpow_add₀ (by norm_num), zpow_natCast]
    push_cast
    ring

end Reading

/-- **The plain text of a finite double without a sign is parsed to it.** -/
theorem parse?_plain {x : Float} {m : Nat} {e : Int} (hx : exact x = .finite false m e) :
    parse? (plain x) = some x := by
  obtain ⟨h, hbits, hfinite, he⟩ := Format.holds_of_decode (.inl rfl) x.toBits.toNat_lt hx
  have hparse := parseBits?_textOf (.inl rfl) h he (hbits ▸ hfinite) .up
  rw [parse?, plain, hx, hparse, hbits, Option.map_some, ofBits, UInt64.ofNat_toNat,
    Float.ofBits_toBits]

/-- **The plain text of a finite single without a sign is parsed to it.** -/
theorem parse32?_plain32 {x : Float32} {m : Nat} {e : Int} (hx : exact32 x = .finite false m e) :
    parse32? (plain32 x) = some x := by
  obtain ⟨h, hbits, hfinite, he⟩ := Format.holds_of_decode (.inr rfl) x.toBits.toNat_lt hx
  have hparse := parseBits?_textOf (.inr rfl) h he (hbits ▸ hfinite) .up
  rw [parse32?, plain32, hx, hparse, hbits, Option.map_some, ofBits32, UInt32.ofNat_toNat,
    Float32.ofBits_toBits]

end ScriptEngine.Number
