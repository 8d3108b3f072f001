import ScriptEngine.Proofs.HostTrips
import ScriptEngine.Proofs.ParsedPlaces
import ScriptEngine.Proofs.PlainNumbers
import ScriptEngine.Proofs.RoundTrip
/-!
# Literals that are written and read back

The numbers of a text are finite or too great to be finite, and have no sign; its strings lack the
quotes they stood in. Written again, a literal is read as the same one, bit by bit and character by
character, with one exception: a number too great to be finite is written as a word, and a word is
read as a variable.

* `Number.toBits_ofBits`, `Number.isMagnitude_decode` : the encodings up to that of infinity.
* `Token.Scanned.spelled` : what the tokens of a text hold.
* `Expr.IsReadFrom`, `Expr.IsReadBack` : what a text is read as, and literals that are read back
  from theirs.
* `Expr.exists_isReadFrom_of_scan` : a text that is one token is read as the literal the token
  holds.
* **`Expr.literal_trip_iff`** : the literals that are read back from their text are those that are
  finite.

The text is that of `fmt` of literals (`format_number`, `quote`), and it is read by `tokenize` and
`parse`. Texts of trees are taken up in the module on rendering and reading back.
-/

namespace ScriptEngine

/-! ## Encodings without a sign -/

namespace Number

open Float.Model.UnpackedFloat

/-- An encoding that is not above that of infinity is kept. -/
theorem pack_unpack_of_le (spec : Float.Model.Format) (hspec : 2 ≤ spec.exponentBits)
    {b : BitVec spec.numBits}
    (h : b.toNat ≤ (2 ^ spec.exponentBits - 1) * 2 ^ spec.mantissaBitsWithoutImplicit) :
    pack spec (unpack spec b) = b := by
  rw [Float.Model.UnpackedFloat.pack_unpack b hspec, if_neg]
  intro hnan
  obtain ⟨hexponent, hmantissa⟩ := of_decide_eq_true hnan
  refine hmantissa (BitVec.eq_of_toNat_eq ?_)
  have hm := spec.hm
  have hones := congrArg BitVec.toNat hexponent
  have hexponents : spec.mantissaBitsWithoutImplicit + spec.exponentBits - 1
      - spec.mantissaBitsWithoutImplicit + 1 = spec.exponentBits := by omega
  have hmantissas : spec.mantissaBitsWithoutImplicit - 1 - 0 + 1 =
    spec.mantissaBitsWithoutImplicit := by omega
  simp only [unpackExponent, unpackMantissa, BitVec.toNat_cast, BitVec.extractLsb_toNat,
    Nat.shiftRight_eq_div_pow, hexponents, hmantissas, BitVec.toNat_neg, BitVec.toNat_ofNat,
    pow_zero, Nat.div_one] at hones ⊢
  have hone : 1 % 2 ^ spec.exponentBits = 1 := Nat.mod_eq_of_lt (Nat.one_lt_two_pow (by omega))
  have hpos := Nat.two_pow_pos spec.exponentBits
  rw [hone, Nat.mod_eq_of_lt (show 2 ^ spec.exponentBits - 1 < 2 ^ spec.exponentBits by omega)]
    at hones
  -- the exponent alone makes up the encoding of infinity
  have hge := (Nat.le_div_iff_mul_le (Nat.two_pow_pos _)).mp (hones ▸ Nat.mod_le _ _)
  rw [Nat.le_antisymm h hge, Nat.mul_mod_left, Nat.zero_mod]

theorem infinity_eq (f : Format) : f.infinity = (2 ^ f.exponentBits - 1) * 2 ^ (f.precision - 1) :=
  rfl

theorem toBits_ofBits {n : Nat} (h : n ≤ Format.binary64.infinity) :
    (ofBits n).toBits.toNat = n := by
  have hn : (UInt64.ofNat n).toBitVec.toNat = n := by
    have hlt : Format.binary64.infinity < 2 ^ 64 := by decide
    rw [UInt64.toNat_toBitVec, UInt64.toNat_ofNat']
    omega
  change (pack .binary64 (unpack .binary64 (UInt64.ofNat n).toBitVec)).toNat = n
  rw [pack_unpack_of_le .binary64 (by decide) (hn.le.trans h), hn]

theorem toBits_ofBits32 {n : Nat} (h : n ≤ Format.binary32.infinity) :
    (ofBits32 n).toBits.toNat = n := by
  have hn : (UInt32.ofNat n).toBitVec.toNat = n := by
    have hlt : Format.binary32.infinity < 2 ^ 32 := by decide
    rw [UInt32.toNat_toBitVec, UInt32.toNat_ofNat']
    omega
  change (pack .binary32 (unpack .binary32 (UInt32.ofNat n).toBitVec)).toNat = n
  rw [pack_unpack_of_le .binary32 (by decide) (hn.le.trans h), hn]

/-- A value that is finite or infinite, and has no sign. -/
def Exact.IsMagnitude (x : Exact) : Prop := (∃ m e, x = .finite false m e) ∨ x = .infinite false

/-- An encoding that is not above that of infinity stands for such a value. -/
theorem isMagnitude_decode {f : Format} (hf : f.IsUsed) {n : Nat} (h : n ≤ f.infinity) :
    (f.decode n).IsMagnitude := by
  rw [infinity_eq] at h
  have hfraction := Nat.two_pow_pos (f.precision - 1)
  have hexponent := Nat.two_pow_pos f.exponentBits
  have hbiased : n / 2 ^ (f.precision - 1) ≤ 2 ^ f.exponentBits - 1 := by
    have := Nat.div_le_div_right (c := 2 ^ (f.precision - 1)) h
    rwa [Nat.mul_div_cancel _ hfraction] at this
  have hmod : n / 2 ^ (f.precision - 1) % 2 ^ f.exponentBits = n / 2 ^ (f.precision - 1) :=
    Nat.mod_eq_of_lt (by omega)
  have hsign : f.signBit = 2 ^ (f.precision - 1) * 2 ^ f.exponentBits := by
    rw [← Nat.pow_add, Format.signBit, hf.width_eq]
    rfl
  have hnegative : (n / f.signBit % 2 == 1) = false := by
    rw [hsign, ← Nat.div_div_eq_div_mul, Nat.div_eq_of_lt (by omega)]
    rfl
  simp only [Format.decode, hnegative, Nat.pow_eq, hmod]
  split
  · next hones =>
    have hge := (Nat.le_div_iff_mul_le hfraction).mp hones.ge
    have hzero : n % 2 ^ (f.precision - 1) = 0 := by rw [Nat.le_antisymm h hge, Nat.mul_mod_left]
    rw [if_pos hzero]
    exact .inr rfl
  · split
    · exact .inl ⟨_, _, rfl⟩
    · exact .inl ⟨_, _, rfl⟩

/-- Digits are parsed to such an encoding. -/
theorem ofDecimal_le_infinity (f : Format) (digits : Nat) (exponent : Int) :
    ofDecimal f digits exponent ≤ f.infinity := by
  have hsize (c d : Prop) [Decidable c] [Decidable d] {n : Nat} (h : n ≤ f.infinity) :
      (if c then f.infinity else if d then 0 else n) ≤ f.infinity := by
    split_ifs
    · exact Nat.le_refl _
    · exact Nat.zero_le _
    · exact h
  unfold ofDecimal
  split
  · exact Nat.zero_le _
  · cases exponent <;> exact hsize _ _ (nearest_le_infinity f _ _)

theorem isMagnitude_ofDecimal (digits : Nat) (exponent : Int) :
    (exact (ofBits (ofDecimal .binary64 digits exponent))).IsMagnitude := by
  rw [exact, toBits_ofBits (ofDecimal_le_infinity _ _ _)]
  exact isMagnitude_decode (.inl rfl) (ofDecimal_le_infinity _ _ _)

theorem isMagnitude_ofDecimal32 (digits : Nat) (exponent : Int) :
    (exact32 (ofBits32 (ofDecimal .binary32 digits exponent))).IsMagnitude := by
  rw [exact32, toBits_ofBits32 (ofDecimal_le_infinity _ _ _)]
  exact isMagnitude_decode (.inr rfl) (ofDecimal_le_infinity _ _ _)

end Number

/-! ## The literals of tokens -/

/-- A kind as texts spell it: a number without a sign, a string that lacks one of the quotes. -/
def Kind.Spelled : Kind → Prop
  | .number x => (Number.exact x).IsMagnitude
  | .float x => (Number.exact32 x).IsMagnitude
  | .string text => '"' ∉ text.toList ∨ '\'' ∉ text.toList
  | _ => True

namespace Token

/-- Whatever was found is spelled. -/
def Scan.Spelled : Scan → Prop
  | .found k _ => k.Spelled
  | .failed .. => True

variable {c : Char} {cs : List Char}

theorem spelled_scanPair (short : Symbol) (longer : List (Char × Symbol)) :
    (scanPair cs short longer).Spelled := by
  unfold scanPair
  split <;> trivial

theorem spelled_scanName : (scanName c cs).Spelled := by
  unfold scanName
  simp only
  split <;> trivial

theorem spelled_scanTemplate : (scanTemplate c cs).Spelled := by
  unfold scanTemplate
  split <;> trivial

theorem spelled_scanNumber (hc : c.isDigit) : (scanNumber c cs).Spelled := by
  obtain ⟨digits, exponent, length, hscan | hscan⟩ := exists_scanNumber hc cs
  · rw [hscan]
    exact Number.isMagnitude_ofDecimal32 _ _
  · rw [hscan]
    exact Number.isMagnitude_ofDecimal _ _

/-- A string lacks the quote that closes it. -/
theorem spelled_scanString (hq : isQuote c) : (scanString c cs).Spelled := by
  have hlacks : c ∉ (String.ofList (cs.takeWhile (· != c))).toList := by
    rw [String.toList_ofList]
    intro hmem
    exact absurd (List.mem_takeWhile_imp hmem) (by simp)
  unfold scanString
  simp only
  split
  · rcases (Bool.or_eq_true _ _).mp hq with hc | hc
    · exact .inl (beq_iff_eq.mp hc ▸ hlacks)
    · exact .inr (beq_iff_eq.mp hc ▸ hlacks)
  · trivial

theorem spelled_scan : (scan c cs).Spelled := by
  unfold scan
  split
  case h_22 =>
    split
    · next hq => exact spelled_scanString hq
    · split
      · next hdigit => exact spelled_scanNumber hdigit
      · split
        · exact spelled_scanTemplate
        · exact spelled_scanTemplate
        · split
          · exact spelled_scanName
          · trivial
  case h_19 =>
    split
    · trivial
    · split <;> trivial
    · exact spelled_scanPair _ _
  all_goals first
    | trivial
    | exact spelled_scanPair _ _
    | split <;> trivial

theorem Scanned.spelled {k : Kind} (h : Scanned k) : k.Spelled := by
  obtain ⟨c, cs, more, hscan⟩ := h
  have hspelled : (scan c cs).Spelled := spelled_scan
  rw [hscan] at hspelled
  exact hspelled

end Token

/-! ## Reading back -/

open Token ScriptEngine.Parser

/-- The expression is what the source text is read as, with nothing left. -/
def Expr.IsReadFrom (e : Expr) (source : String) : Prop :=
  ∃ tokens s, tokenize source = .ok tokens ∧
    (productions (budget tokens)).expression (.ofTokens tokens) = .ok e s ∧ s.atEnd

/-- The expression is read back from its text, up to places. -/
def Expr.IsReadBack (e : Expr) : Prop := ∃ e' : Expr, e'.IsReadFrom e.render ∧ e'.bare = e.bare

/-- A number that is too great to be finite. -/
def Expr.IsInfinite : Expr → Prop
  | .number x _ => Number.exact x = .infinite false
  | .float x _ => Number.exact32 x = .infinite false
  | _ => False

section Trips

variable {e e' : Expr} {source : String} {k : Kind} {c : Char} {cs : List Char}

namespace Expr.IsReadFrom

/-- A text is read as one expression only. -/
theorem unique (h : e.IsReadFrom source) (h' : e'.IsReadFrom source) : e = e' := by
  obtain ⟨tokens, s, htokens, hread, -⟩ := h
  obtain ⟨tokens', s', htokens', hread', -⟩ := h'
  obtain rfl : tokens = tokens' := Except.ok.inj (htokens.symm.trans htokens')
  exact (Reply.ok.inj (hread.symm.trans hread')).1

/-- The literals in what a text is read as are spelled in it. -/
theorem spelled (h : e.IsReadFrom source) : ∀ k ∈ e.literalKind?, k.Spelled := by
  obtain ⟨tokens, s, htokens, hread, -⟩ := h
  have htraced := (productions_source (budget tokens)).expression _
    (sourced_ofTokens (Nat.le_refl 1) htokens)
  rw [hread] at htraced
  exact fun k hk => ((Expr.throughout_iff.mp htraced.1).1.literal k hk).spelled

end Expr.IsReadFrom

/-- A literal by itself is read from a text that is one token, whatever lines the token takes up. -/
theorem Expr.exists_isReadFrom_of_scan (hsource : source.toList = c :: cs)
    (hblank : Text.isBlank c = false) (hscan : scan c cs = .found k cs.length)
    (he : e.literalKind? = some k) :
    ∃ e' : Expr, e'.IsReadFrom source ∧ e'.bare = e.bare := by
  obtain ⟨t, stop, htokens, hkind, hstop⟩ : ∃ t stop, tokenize source = .ok [t, stop] ∧ t.kind = k ∧
      stop.kind = .eof := by
    refine ⟨ofScan (.atLine 1) k (c :: cs), ofScan ((Position.atLine 1).after (c :: cs)) .eof [],
      ?_, rfl, rfl⟩
    rw [tokenize, tokenizeAt, hsource, tokensFrom, if_neg (by simp [hblank]), hscan]
    simp only [List.take_length, List.drop_length, tokensFrom]
    rfl
  obtain ⟨hkinds, hleads, htext, hstarts⟩ :
      e.kinds = [k] ∧ LeadsBack e ∧ [k].all Kind.isText ∧ k.startsOperand := by
    cases e with
    | number x =>
      obtain rfl := Option.some.inj he
      exact ⟨rfl, leadsBack_leaf (.number x) rfl rfl fun _ => rfl, rfl, rfl⟩
    | float x =>
      obtain rfl := Option.some.inj he
      exact ⟨rfl, leadsBack_leaf (.float x) rfl rfl fun _ => rfl, rfl, rfl⟩
    | string text =>
      obtain rfl := Option.some.inj he
      exact ⟨rfl, leadsBack_leaf (.string text) rfl rfl fun _ => rfl, rfl, rfl⟩
    | _ => cases he
  have hbudget := length_lt_budget [t, stop]
  have hread := (hleads.readsBack_of_startsOperand hkinds hstarts).expression
    (n := budget [t, stop])
    (by simp [hkinds]) (by rw [hkinds]; simp at hbudget ⊢; omega) ends_nil
  have hahead : (State.ofTokens ([t] ++ [stop])).Ahead ([t].map Token.kind) :=
    ahead_ofTokens (by simpa [hkind] using htext) (List.forall_mem_singleton.mpr rfl) hstop
  rw [List.map_singleton, hkind, ← hkinds, ← List.append_nil e.kinds] at hahead
  obtain ⟨e', s, hexpression, hsame, hend⟩ := hread _ hahead
  refine ⟨e', ⟨[t, stop], s, htokens, hexpression, ?_⟩, hsame⟩
  rw [State.atEnd, List.isEmpty_iff]
  exact List.map_eq_nil_iff.mp hend.kinds

theorem Expr.Printable.isReadBack (h : e.Printable) : e.IsReadBack := by
  obtain ⟨tokens, e', s, htokens, hread, hend, hsame⟩ := h.render_readsBack
  exact ⟨e', ⟨tokens, s, htokens, hread, hend⟩, hsame⟩

/-- A string that lacks one of the quotes is read back, on however many lines it is written. -/
theorem Expr.isReadBack_string {text : String} (span : Span)
    (h : '"' ∉ text.toList ∨ '\'' ∉ text.toList) :
    (Expr.string text span).IsReadBack := by
  obtain ⟨quote, hq, hquote, htext⟩ := exists_quoteLiteral h
  refine exists_isReadFrom_of_scan htext (not_isBlank_quote hq) ?_ rfl
  have hscan : scan quote (text.toList ++ [quote] ++ []) = _ := scan_quoted hq hquote
  rwa [List.append_nil, String.ofList_toList] at hscan

/-- Where a word is written for a number, it is read as a variable. -/
theorem Expr.isReadFrom_word {name : String} (hname : IsName name) :
    ∃ span, (Expr.var name span).IsReadFrom name := by
  have hvar : (Expr.var name default).Printable := .var hname
  obtain ⟨e', hread, hsame⟩ := hvar.isReadBack
  cases e' with
  | var name' span =>
    obtain rfl : name' = name := (Expr.var.inj hsame).1
    exact ⟨span, hread⟩
  | _ => cases hsame

end Trips

/-- What is read as a variable is read as nothing else. -/
theorem Expr.not_isReadBack_of_var {e : Expr} {name : String} {span : Span}
    (h : (Expr.var name span).IsReadFrom e.render) (hl : e.isLiteral) : ¬e.IsReadBack := by
  rintro ⟨e', hread, hsame⟩
  obtain rfl := hread.unique h
  cases e with
  | number | float | string | bool | null => cases hsame
  | _ => cases hl

/-- A literal that texts spell is read back, unless it is a number that is written as a word. -/
theorem Expr.isReadBack_or_word {e : Expr} (hspelled : ∀ k ∈ e.literalKind?, k.Spelled)
    (hl : e.isLiteral) :
    (e.IsReadBack ∧ ¬e.IsInfinite) ∨
      e.IsInfinite ∧ ∃ name span, (Expr.var name span).IsReadFrom e.render := by
  cases e with
  | number x span =>
    rcases hspelled _ rfl with ⟨m, e, hx⟩ | hx
    · exact .inl ⟨(Printable.number hx (Number.parse?_plain hx)).isReadBack,
        fun hi => by cases hx.symm.trans hi⟩
    · have hname : IsName "Infinity" :=
        ⟨⟨'I', "nfinity".toList, rfl, by decide, List.all_eq_true.mp (by decide)⟩, by decide⟩
      have hrender : (Expr.number x span).render = "Infinity" := by
        rw [Expr.render, Number.scriptText, hx]
        rfl
      exact .inr ⟨hx, _, hrender ▸ isReadFrom_word hname⟩
  | float x span =>
    rcases hspelled _ rfl with ⟨m, e, hx⟩ | hx
    · exact .inl ⟨(Printable.float hx (Number.parse32?_plain32 hx)).isReadBack,
        fun hi => by cases hx.symm.trans hi⟩
    · have hname : IsName "inff" :=
        ⟨⟨'i', "nff".toList, rfl, by decide, List.all_eq_true.mp (by decide)⟩, by decide⟩
      have hrender : (Expr.float x span).render = "inff" := by
        rw [Expr.render, Number.plain32, hx]
        rfl
      exact .inr ⟨hx, _, hrender ▸ isReadFrom_word hname⟩
  | string text span => exact .inl ⟨isReadBack_string span (hspelled _ rfl), id⟩
  | bool => exact .inl ⟨Printable.bool.isReadBack, id⟩
  | null => exact .inl ⟨Printable.null.isReadBack, id⟩
  | _ => cases hl

/-- **Literals that are written and read back.** A literal that a text is read as is read back from
its own text, unless it is a number too great to be finite. A word is written for such a number, and
that is read as a variable. -/
theorem Expr.literal_trip_iff {e : Expr} {source : String} (h : e.IsReadFrom source)
    (hl : e.isLiteral) :
    (e.IsReadBack ↔ ¬e.IsInfinite) ∧
      (e.IsInfinite → ∃ name span, (Expr.var name span).IsReadFrom e.render) := by
  rcases isReadBack_or_word h.spelled hl with ⟨hback, hfinite⟩ | ⟨hinfinite, name, span, hword⟩
  · exact ⟨iff_of_true hback hfinite, fun h => absurd h hfinite⟩
  · exact ⟨iff_of_false (not_isReadBack_of_var hword hl) (not_not_intro hinfinite),
      fun _ => ⟨name, span, hword⟩⟩

/-- Digits by themselves are found as a number. -/
theorem Token.scan_digits {c : Char} {cs : List Char} (hc : c.isDigit) (hcs : ∀ d ∈ cs, d.isDigit) :
    scan c cs =
      .found (.number (Number.ofBits (Number.ofDecimal .binary64 (Number.digitsToNat (c :: cs)) 0)))
      cs.length := by
  have hnumber : scanNumber c (Number.numeral cs [] ++ []) = _ :=
    scanNumber_append hc hcs nofun nofun fun _ => rfl
  simpa [Number.numeral, singleMark, scan_of_isDigit hc] using hnumber

/-- A whole number of more than four hundred digits is too great to be finite. -/
theorem Number.ofDecimal_of_great (f : Format) {digits size : Nat} (hsize : 400 ≤ size)
    (h : 10 ^ size ≤ digits) : ofDecimal f digits 0 = f.infinity := by
  have hpos : 0 < digits := Nat.lt_of_lt_of_le (Nat.pow_pos (by decide)) h
  have hlength : size < (Nat.repr digits).length :=
    (Nat.pow_lt_pow_iff_right (by decide)).mp (Nat.lt_of_le_of_lt h (pow_length_repr hpos).2)
  unfold ofDecimal
  rw [if_neg hpos.ne']
  exact if_pos (Int.ofNat_lt.mpr (Nat.lt_of_le_of_lt hsize hlength))

/-- One with four hundred zeros behind it. -/
def endlessOne : String := String.ofList ('1' :: List.replicate 400 '0')

/-- It is read as a number, and what is written for that is read as a variable. -/
theorem Expr.literal_trip_endless :
    ∃ e : Expr, e.IsReadFrom endlessOne ∧ e.isLiteral ∧ e.IsInfinite ∧
    ¬e.IsReadBack ∧ ∃ name span, (Expr.var name span).IsReadFrom e.render := by
  let x := Number.ofBits Number.Format.binary64.infinity
  have hgreat : 10 ^ 400 ≤ Number.digitsToNat ('1' :: List.replicate 400 '0') := by decide +kernel
  have hscan := scan_digits (c := '1') (by decide) fun d hd => by
    rw [List.eq_of_mem_replicate (n := 400) (a := '0') hd]
    decide
  rw [Number.ofDecimal_of_great _ (Nat.le_refl 400) hgreat] at hscan
  obtain ⟨e, hread : e.IsReadFrom endlessOne, hsame⟩ :=
    exists_isReadFrom_of_scan (e := .number x default)
    (String.toList_ofList ..) (by decide) hscan rfl
  cases e with
  | number y span =>
    obtain rfl : y = x := (Expr.number.inj hsame).1
    have hi : (Expr.number x span).IsInfinite := by
      change Number.exact x = .infinite false
      decide +kernel
    have htrip := literal_trip_iff hread rfl
    exact ⟨_, hread, rfl, hi, fun hback => htrip.1.mp hback hi, htrip.2 hi⟩
  | _ => cases hsame

end ScriptEngine
