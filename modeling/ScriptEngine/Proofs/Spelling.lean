import ScriptEngine.Proofs.WholeNumbers
import ScriptEngine.Tree.Render
/-!
# Texts that spell tokens

A text spells some kinds of tokens in front of another text if reading both gives tokens of these
kinds, all on one line, and then the tokens of the other text. Tokens are found by looking ahead, so
the other text matters: a number or a name must not go on into it.

* `Token.Spells`, `Token.Spells.append` : the relation, and texts one after another.
* `Token.Apart` : the texts in front of which a number or a name comes to its end.
* `Token.spells_name`, `Token.spells_keyword`, `Token.spells_quoteLiteral`, `Token.spells_number`,
  `Token.spells_single` : what each kind of token is spelt by.
-/

namespace ScriptEngine

/-! ## Lines -/

namespace Position

theorem after_append (p : Position) (cs cs' : List Char) :
    p.after (cs ++ cs') = (p.after cs).after cs' :=
  List.foldl_append

theorem line_after {p : Position} {cs : List Char} (h : '\n' ∉ cs) :
    (p.after cs).line = p.line := by
  induction cs generalizing p with
  | nil => rfl
  | cons c cs ih =>
    have hc : c ≠ '\n' := fun hc => h (hc ▸ List.mem_cons_self)
    have hnext : (p.next c).line = p.line := by rw [next, if_neg hc]
    rw [← hnext]
    exact ih fun hmem => h (List.mem_cons_of_mem _ hmem)

end Position

namespace Token

/-! ## Spelling -/

/-- In front of `tail`, the characters `cs` are read as tokens of the kinds `ks`, all of them on the
line where the reading begins. -/
def Spells (cs : List Char) (ks : List Kind) (tail : List Char) : Prop :=
  ∀ p : Position, ∃ ts : List Token, ts.map Token.kind = ks ∧ (∀ t ∈ ts, t.span.line = p.line) ∧
    (p.after cs).line = p.line ∧
    tokensFrom p (cs ++ tail) = (ts ++ ·) <$> tokensFrom (p.after cs) tail

section Spells

variable {c : Char} {cs cs' tail : List Char} {k : Kind} {ks ks' : List Kind}

theorem spells_nil : Spells [] [] tail := by
  intro p
  refine ⟨[], rfl, by simp, rfl, ?_⟩
  exact (id_map (tokensFrom p tail)).symm

theorem Spells.append (h : Spells cs ks (cs' ++ tail)) (h' : Spells cs' ks' tail) :
    Spells (cs ++ cs') (ks ++ ks') tail := by
  intro p
  obtain ⟨ts, hkinds, hlines, hline, hread⟩ := h p
  obtain ⟨ts', hkinds', hlines', hline', hread'⟩ := h' (p.after cs)
  refine ⟨ts ++ ts', by rw [List.map_append, hkinds, hkinds'], fun t ht => ?_, ?_, ?_⟩
  · rcases List.mem_append.mp ht with ht | ht
    · exact hlines t ht
    · rw [hlines' t ht, hline]
  · rw [Position.after_append, hline', hline]
  · rw [List.append_assoc, hread, hread', Position.after_append]
    cases tokensFrom ((p.after cs).after cs') tail with
    | ok rest => exact congrArg Except.ok (List.append_assoc ts ts' rest).symm
    | error f => rfl

theorem spells_blank : Spells [' '] [] tail := by
  intro p
  refine ⟨[], rfl, by simp, Position.line_after (by decide), ?_⟩
  have hstep : tokensFrom p ([' '] ++ tail) = tokensFrom (p.after [' ']) tail := by
    rw [List.singleton_append, tokensFrom]
    exact if_pos (by decide)
  rw [hstep]
  cases tokensFrom (p.after [' ']) tail <;> rfl

/-- A single token. -/
theorem spells_token (hblank : Text.isBlank c = false) (hline : '\n' ∉ c :: cs)
    (hscan : scan c (cs ++ tail) = .found k cs.length) : Spells (c :: cs) [k] tail := by
  intro p
  refine ⟨[ofScan p k (c :: cs)], rfl, by simp [ofScan, Position.spanTo],
    Position.line_after hline, ?_⟩
  rw [List.cons_append, tokensFrom, if_neg (by simp [hblank]), hscan]
  simp only [List.take_left, List.drop_left]
  cases tokensFrom (p.after (c :: cs)) tail <;> rfl

/-- A text that spells tokens by itself is read as these and an end token. -/
theorem Spells.tokenizeAt {source : String} (h : Spells source.toList ks []) (line : Nat) :
    ∃ ts stop, Token.tokenizeAt line source = .ok (ts ++ [stop]) ∧ ts.map Token.kind = ks ∧
      (∀ t ∈ ts, t.span.line = line) ∧ stop.kind = .eof := by
  obtain ⟨ts, hkinds, hlines, -, hread⟩ := h (.atLine line)
  refine ⟨ts, ofScan ((Position.atLine line).after source.toList) .eof [], ?_, hkinds, hlines, rfl⟩
  rw [List.append_nil, tokensFrom] at hread
  exact hread

end Spells

/-! ## Ends of numbers and names -/

/-- No number and no name goes on into the text, and no template begins with its first
character. -/
def Apart (tail : List Char) : Prop :=
  ∀ c cs, tail = c :: cs → continuesName c = false ∧ isQuote c = false ∧
    (c = '.' → ∀ d ∈ cs.head?, d.isDigit = false)

section Apart

variable {c d : Char} {cs tail : List Char}

theorem apart_nil : Apart [] := by
  intro c cs h
  exact absurd h (by simp)

/-- A mark other than the point keeps what is in front of it apart. -/
theorem apart_cons (h : continuesName c = false ∧ isQuote c = false ∧ c ≠ '.') :
    Apart (c :: cs) := by
  intro c' cs' heq
  obtain ⟨rfl, rfl⟩ := List.cons.inj heq
  exact ⟨h.1, h.2.1, fun hpoint => absurd hpoint h.2.2⟩

theorem isDigit_toNat (h : c.isDigit) : 48 ≤ c.toNat ∧ c.toNat ≤ 57 :=
  Char.isDigit_iff_toNat.mp h

theorem isAlpha_toNat (h : c.isAlpha) : 65 ≤ c.toNat ∧ c.toNat ≤ 122 := by
  simp only [Char.isAlpha, Char.isUpper, Char.isLower, Bool.or_eq_true, Bool.and_eq_true,
    decide_eq_true_eq, ge_iff_le, UInt32.le_iff_toNat_le] at h
  have hval : c.toNat = c.val.toNat := rfl
  rcases h with h | h
  · have : 65 ≤ c.val.toNat ∧ c.val.toNat ≤ 90 := h
    omega
  · have : 97 ≤ c.val.toNat ∧ c.val.toNat ≤ 122 := h
    omega

theorem continuesName_of_isDigit (h : c.isDigit) : continuesName c = true := by
  have hascii : c.toNat < 0x80 := by
    have := isDigit_toNat h
    omega
  simp [continuesName, Text.isLetterOrDigit, hascii, Char.isAlphanum, h]

theorem not_isDigit_of_beginsName (h : beginsName c) : c.isDigit = false := by
  refine Bool.eq_false_iff.mpr fun hdigit => ?_
  have hrange := isDigit_toNat hdigit
  simp only [beginsName, Text.isLetter, Bool.or_eq_true, beq_iff_eq] at h
  rcases h with h | rfl
  · rw [if_pos (by omega)] at h
    have := isAlpha_toNat h
    omega
  · exact absurd hdigit (by decide)

/-- A point keeps a number apart if a name follows it. -/
theorem apart_point (h : beginsName d) : Apart ('.' :: d :: cs) := by
  intro c' cs' heq
  obtain ⟨rfl, rfl⟩ := List.cons.inj heq
  refine ⟨by decide, by decide, fun _ d' hd' => ?_⟩
  rw [← Option.some.inj hd']
  exact not_isDigit_of_beginsName h

theorem Apart.not_isDigit (h : Apart tail) : ∀ d ∈ tail.head?, d.isDigit = false := by
  intro d hd
  obtain ⟨cs, rfl⟩ := List.head?_eq_some_iff.mp hd
  refine Bool.eq_false_iff.mpr fun hdigit => ?_
  have := (h d cs rfl).1
  rw [continuesName_of_isDigit hdigit] at this
  exact Bool.noConfusion this

theorem Apart.not_continuesName (h : Apart tail) :
    (tail.head?.map continuesName).getD false = false := by
  cases tail with
  | nil => rfl
  | cons c cs => exact (h c cs rfl).1

theorem Apart.fractionDigits_eq_nil (h : Apart tail) : fractionDigits tail = [] := by
  unfold fractionDigits
  split
  · next cs =>
    cases cs with
    | nil => rfl
    | cons d cs =>
      have hd : d.isDigit = false := (h '.' _ rfl).2.2 rfl d rfl
      simp [hd]
  · rfl

theorem Apart.not_singleMark (h : Apart tail) : singleMark tail = false := by
  cases tail with
  | nil => rfl
  | cons c cs =>
    have hc := (h c cs rfl).1
    have hf : c ≠ 'f' := by
      rintro rfl
      exact absurd hc (by decide)
    have hF : c ≠ 'F' := by
      rintro rfl
      exact absurd hc (by decide)
    simp [singleMark, hf, hF]

end Apart

/-! ## Names and words -/

section Names

variable {c : Char} {cs tail : List Char}

/-- Ranges of code points that have none in common. -/
def apartRanges (rs rs' : List (Nat × Nat)) : Bool :=
  rs.all fun r => rs'.all fun r' => r.2 < r'.1 || r'.2 < r.1

theorem not_inRanges_of_apart {rs rs' : List (Nat × Nat)} (hapart : apartRanges rs rs')
    (h : Text.inRanges rs' c) : Text.inRanges rs c = false := by
  refine Bool.eq_false_iff.mpr fun hrs => ?_
  simp only [Text.inRanges, List.any_eq_true, Bool.and_eq_true, decide_eq_true_eq] at h hrs
  obtain ⟨r', hr', hin'⟩ := h
  obtain ⟨r, hr, hin⟩ := hrs
  have hapart := List.all_eq_true.mp (List.all_eq_true.mp hapart r hr) r' hr'
  simp only [Bool.or_eq_true, decide_eq_true_eq] at hapart
  omega

theorem not_isBlank_of_ascii (h : 33 ≤ c.toNat ∧ c.toNat < 0x80) : Text.isBlank c = false := by
  simp only [Text.isBlank, Text.inRanges, Text.blankRanges, List.any_cons, List.any_nil,
    Bool.or_false, Bool.or_eq_false_iff, Bool.and_eq_false_iff, decide_eq_false_iff_not]
  omega

theorem not_isBlank_of_beginsName (h : beginsName c) : Text.isBlank c = false := by
  have hapart : apartRanges Text.blankRanges Text.alphabeticRanges = true := by decide +kernel
  simp only [beginsName, Text.isLetter, Bool.or_eq_true, beq_iff_eq] at h
  rcases h with h | rfl
  · by_cases hascii : c.toNat < 0x80
    · rw [if_pos hascii] at h
      exact not_isBlank_of_ascii ⟨by have := isAlpha_toNat h; omega, hascii⟩
    · rw [if_neg hascii] at h
      exact not_inRanges_of_apart hapart h
  · decide

/-- A character of a class without quotes is no quote. -/
theorem not_isQuote {p : Char → Bool} (h : p c) (hp : p '"' = false ∧ p '\'' = false) :
    isQuote c = false := by
  refine Bool.eq_false_iff.mpr fun hq => ?_
  simp only [isQuote, Bool.or_eq_true, beq_iff_eq] at hq
  rcases hq with rfl | rfl
  · exact absurd h (by simp [hp.1])
  · exact absurd h (by simp [hp.2])

/-- A character that may begin a name begins one, unless a template begins there. -/
theorem scan_of_beginsName (h : beginsName c) (hq : ∀ d ∈ cs.head?, isQuote d = false) :
    scan c cs = scanName c cs := by
  have hquote := not_isQuote h (by decide)
  have hdigit := not_isDigit_of_beginsName h
  unfold scan
  split
  case h_22 =>
    rw [if_neg (by simp [hquote]), if_neg (by simp [hdigit])]
    split
    · exact absurd (hq '"' rfl) (by decide)
    · exact absurd (hq '\'' rfl) (by decide)
    · exact if_pos h
  all_goals exact absurd h (by decide)

/-- The kind of token a name or a word is. -/
def nameKind (name : String) : Kind :=
  match Keyword.ofText? name with
  | some word => .keyword word
  | none => .ident name

/-- A text that is made of the characters of names. -/
def NameLike (name : String) : Prop :=
  ∃ c cs, name.toList = c :: cs ∧ beginsName c ∧ ∀ d ∈ cs, continuesName d

theorem spells_nameKind {name : String} (h : NameLike name) (ht : Apart tail) :
    Spells name.toList [nameKind name] tail := by
  obtain ⟨c, cs, hname, hc, hcs⟩ := h
  have hline : '\n' ∉ c :: cs := by
    intro hmem
    rcases List.mem_cons.mp hmem with rfl | hmem
    · exact absurd hc (by decide)
    · exact absurd (hcs _ hmem) (by decide)
  have htake : (cs ++ tail).takeWhile continuesName = cs := by
    rw [List.takeWhile_append_of_pos hcs]
    cases tail with
    | nil => simp
    | cons d tail => simp [(ht d tail rfl).1]
  have hquote : ∀ d ∈ (cs ++ tail).head?, isQuote d = false := by
    intro d hd
    cases cs with
    | nil =>
      obtain ⟨cs, rfl⟩ := List.head?_eq_some_iff.mp hd
      exact (ht d cs rfl).2.1
    | cons d' cs =>
      rw [← Option.some.inj hd]
      exact not_isQuote (hcs d' List.mem_cons_self) (by decide)
  rw [hname]
  refine spells_token (not_isBlank_of_beginsName hc) hline ?_
  rw [scan_of_beginsName hc hquote, scanName, htake, ← hname, String.ofList_toList]
  rfl

/-- A text that is scanned as a name: it is made of the characters of names and not reserved. -/
def IsName (name : String) : Prop := NameLike name ∧ Keyword.ofText? name = none

theorem spells_name {name : String} (h : IsName name) (ht : Apart tail) :
    Spells name.toList [.ident name] tail := by
  have hkind : nameKind name = .ident name := by rw [nameKind, h.2]
  exact hkind ▸ spells_nameKind h.1 ht

theorem nameLike_text (word : Keyword) : NameLike word.text := by
  cases word <;> exact ⟨_, _, rfl, by decide, List.all_eq_true.mp (by decide)⟩

theorem ofText?_text (word : Keyword) : Keyword.ofText? word.text = some word := by
  cases word <;> decide

theorem spells_keyword (word : Keyword) (ht : Apart tail) :
    Spells word.text.toList [.keyword word] tail := by
  have hkind : nameKind word.text = .keyword word := by rw [nameKind, ofText?_text]
  exact hkind ▸ spells_nameKind (nameLike_text word) ht

end Names

/-! ## Strings -/

section Strings

variable {cs tail : List Char}

/-- A text that can be written as a string literal: it lies on one line and does not hold both
quotes. -/
def Quotable (text : String) : Prop :=
  '\n' ∉ text.toList ∧ ('"' ∉ text.toList ∨ '\'' ∉ text.toList)

/-- What stands between quotes is found as a string. -/
theorem scan_quoted {quote : Char} (hq : quote = '"' ∨ quote = '\'') (hquote : quote ∉ cs) :
    scan quote (cs ++ [quote] ++ tail) = .found (.string (String.ofList cs))
      (cs ++ [quote]).length := by
  have hne : ∀ c ∈ cs, (c != quote) = true := by
    intro c hc
    exact bne_iff_ne.mpr fun heq => hquote (heq ▸ hc)
  have htake : (cs ++ quote :: tail).takeWhile (· != quote) = cs := by
    rw [List.takeWhile_append_of_pos hne]
    simp
  have hscan : scan quote (cs ++ quote :: tail) = scanString quote (cs ++ quote :: tail) := by
    rcases hq with rfl | rfl <;> rfl
  rw [List.append_assoc, List.singleton_append, hscan, scanString, htake]
  simp

theorem not_isBlank_quote {quote : Char} (hq : quote = '"' ∨ quote = '\'') :
    Text.isBlank quote = false := by
  rcases hq with rfl | rfl <;> decide

theorem spells_quoted {quote : Char} (hq : quote = '"' ∨ quote = '\'') (hquote : quote ∉ cs)
    (hline : '\n' ∉ cs) : Spells (quote :: (cs ++ [quote])) [.string (String.ofList cs)] tail := by
  have hmark : quote ≠ '\n' := by
    rcases hq with rfl | rfl <;> decide
  refine spells_token (not_isBlank_quote hq) ?_ (scan_quoted hq hquote)
  simp [hline, hmark.symm]

/-- The quotes that a literal is written in are not in its text. -/
theorem exists_quoteLiteral {text : String} (h : '"' ∉ text.toList ∨ '\'' ∉ text.toList) :
    ∃ quote, (quote = '"' ∨ quote = '\'') ∧ quote ∉ text.toList ∧
      (quoteLiteral text).toList = quote :: (text.toList ++ [quote]) := by
  unfold quoteLiteral
  by_cases hin : '"' ∈ text.toList
  · exact ⟨'\'', .inr rfl, h.resolve_left fun hnot => hnot hin, by simp [hin]⟩
  · exact ⟨'"', .inl rfl, hin, by simp [hin]⟩

theorem spells_quoteLiteral {text : String} (h : Quotable text) :
    Spells (quoteLiteral text).toList [.string text] tail := by
  obtain ⟨hline, hquotes⟩ := h
  obtain ⟨quote, hq, hquote, htext⟩ := exists_quoteLiteral hquotes
  have hquoted :
      Spells (quote :: (text.toList ++ [quote])) [.string (String.ofList text.toList)] tail :=
    spells_quoted hq hquote hline
  rwa [String.ofList_toList, ← htext] at hquoted

end Strings

/-! ## Numbers -/

section Numbers

open Number

variable {c : Char} {tail : List Char}

theorem scan_of_isDigit {cs : List Char} (h : c.isDigit) : scan c cs = scanNumber c cs := by
  have hquote := not_isQuote h (by decide)
  unfold scan
  split
  case h_22 => rw [if_neg (by simp [hquote]), if_pos h]
  all_goals exact absurd h (by decide)

theorem line_numeral {whole fraction : List Char} (hw : ∀ c ∈ whole, c.isDigit)
    (hf : ∀ c ∈ fraction, c.isDigit) : '\n' ∉ numeral whole fraction := by
  intro hmem
  unfold numeral at hmem
  rcases List.mem_append.mp hmem with hmem | hmem
  · exact absurd (hw _ hmem) (by decide)
  · split at hmem
    · exact absurd hmem (by simp)
    · rcases List.mem_cons.mp hmem with hmem | hmem
      · exact absurd hmem (by decide)
      · exact absurd (hf _ hmem) (by decide)

/-- A number whose plain text is parsed to it is read back from the text that scripts show. -/
theorem spells_number {x : Float} {m : Nat} {e : Int} (hx : exact x = .finite false m e)
    (hplain : parse? (plain x) = some x) (ht : Apart tail) :
    Spells (scriptText x).toList [.number x] tail := by
  obtain ⟨whole, fraction, hne, hw, hf, htext⟩ := isNumeral_scriptText hx
  have hvalue := parseBits?_numeral .binary64 hne hw hf htext
  have hline := line_numeral hw hf
  have hback := parse?_scriptText hx hplain
  rw [parse?, hvalue] at hback
  obtain ⟨d, ds, rfl⟩ := List.exists_cons_of_ne_nil hne
  have hd : d.isDigit := hw d List.mem_cons_self
  rw [htext]
  change Spells (d :: numeral ds fraction) [.number x] tail
  refine spells_token ?_ hline ?_
  · have := isDigit_toNat hd
    exact not_isBlank_of_ascii (by omega)
  · rw [scan_of_isDigit hd, scanNumber_append hd (fun c hc => hw c (List.mem_cons_of_mem _ hc)) hf
      ht.not_isDigit fun _ => ht.fractionDigits_eq_nil, ht.not_singleMark]
    simpa using hback

/-- A single whose plain text is parsed to it is read back from that text and a mark. -/
theorem spells_single {x : Float32} {m : Nat} {e : Int} (hx : exact32 x = .finite false m e)
    (hplain : parse32? (plain32 x) = some x) (ht : Apart tail) :
    Spells (plain32 x ++ "f").toList [.float x] tail := by
  obtain ⟨whole, fraction, hne, hw, hf, htext⟩ := isNumeral_plain32 hx
  have hvalue := parseBits?_numeral .binary32 hne hw hf htext
  have hline := line_numeral hw hf
  rw [parse32?, hvalue] at hplain
  obtain ⟨d, ds, rfl⟩ := List.exists_cons_of_ne_nil hne
  have hd : d.isDigit := hw d List.mem_cons_self
  have hmark : singleMark ('f' :: tail) = true := by
    simp [singleMark, ht.not_continuesName]
  rw [String.toList_append, htext]
  change Spells (d :: (numeral ds fraction ++ ['f'])) [.float x] tail
  refine spells_token ?_ ?_ ?_
  · have := isDigit_toNat hd
    exact not_isBlank_of_ascii (by omega)
  · have hline : '\n' ∉ d :: numeral ds fraction := hline
    simpa using hline
  · rw [List.append_assoc, scan_of_isDigit hd, List.singleton_append,
      scanNumber_append hd (fun c hc => hw c (List.mem_cons_of_mem _ hc)) hf
      (by simp) fun _ => rfl, hmark]
    simpa using hplain

end Numbers

end Token

end ScriptEngine
