import ScriptEngine.Proofs.Positions
/-!
# What a token asks of the text behind it

To end a token, at most two characters behind it are looked at, and only to see that the token does
not go on. So a text that keeps off whatever the text behind the token kept off may stand there
instead: nothing at all, a new line, or as much of that text as is enough.

* `Token.Bars` : what a text keeps off, the other one keeps off too.
* `Token.Scan.Stands`, `Token.stands_scan` : a token is found again in front of such a text.
* `Token.Reads` : the tokens that are read from one place to another; `Token.tokensFrom_ok_iff` and
  `Token.tokensFrom_error_iff` say how such a reading ends.
-/

namespace ScriptEngine

namespace Token

variable {c d : Char} {cs taken rest rest' : List Char} {kind : Kind} {more : Nat}

/-! ## Characters of a class -/

/-- The characters of a class are taken again in front of what does not begin with one. -/
theorem takeWhile_takeWhile_append (p : Char → Bool) (cs : List Char)
    (h : ∀ d ∈ rest.head?, p d = false) :
    (cs.takeWhile p ++ rest).takeWhile p = cs.takeWhile p := by
  rw [List.takeWhile_append_of_pos fun d hd => List.all_eq_true.mp List.all_takeWhile d hd]
  cases rest with
  | nil => exact List.append_nil _
  | cons d rest => simp [h d rfl]

/-! ## Texts behind a token -/

/-- Whatever cannot go on into `rest` cannot go on into `rest'`: it begins like `rest`, begins a
line, or is empty, and no fraction and no mark of single precision begins there that did not begin
in `rest`. -/
structure Bars (rest rest' : List Char) : Prop where
  head : ∀ d ∈ rest'.head?, d = '\n' ∨ d ∈ rest.head?
  fraction : fractionDigits rest = [] → fractionDigits rest' = []
  mark : singleMark rest = false → singleMark rest' = false

/-- Nothing goes on into the next line. -/
theorem bars_line (h : ∀ d ∈ rest'.head?, d = '\n') : Bars rest rest' := by
  cases rest' with
  | nil => exact ⟨nofun, fun _ => rfl, fun _ => rfl⟩
  | cons d rest' =>
    obtain rfl := h d rfl
    exact ⟨fun d hd => .inl (Option.some.inj hd).symm, fun _ => rfl, fun _ => rfl⟩

/-- A class of characters without the newline that `rest` does not begin with. -/
theorem Bars.head_not (h : Bars rest rest') {p : Char → Bool} (hp : p '\n' = false)
    (hrest : ∀ d ∈ rest.head?, p d = false) : ∀ d ∈ rest'.head?, p d = false := by
  intro d hd
  rcases h.head d hd with rfl | hd
  · exact hp
  · exact hrest d hd

/-! ## Tokens in front of other texts -/

/-- What was found is found in front of every text that keeps off what the text behind it did. -/
def Scan.Stands (c : Char) (cs : List Char) : Scan → Prop
  | .found kind more => ∃ taken rest, cs = taken ++ rest ∧ taken.length = more ∧
      ∀ rest', Bars rest rest' → scan c (taken ++ rest') = .found kind more
  | .failed .. => True

/-- The rest of what begins with `c` is found like `cs` says, for every text that begins as `cs`
does. -/
theorem stands_mark
    (h : ∀ cs', (∀ d ∈ cs'.head?, d = '\n' ∨ d ∈ cs.head?) → scan c cs' = .found kind 0) :
    (Scan.found kind 0).Stands c cs :=
  ⟨[], cs, rfl, rfl, fun _ hbars => h _ hbars.head⟩

theorem stands_two (h : ∀ rest, scan c (d :: rest) = .found kind 1) (hcs : cs.head? = some d) :
    (Scan.found kind 1).Stands c cs := by
  obtain ⟨rest, rfl⟩ := List.head?_eq_some_iff.mp hcs
  exact ⟨[d], rest, rfl, rfl, fun rest' _ => h rest'⟩

theorem stands_scanPair {short : Symbol} {longer : List (Char × Symbol)}
    (hline : longer.lookup '\n' = none)
    (h : ∀ cs', (∀ d ∈ cs'.head?, d = '\n' ∨ d ∈ cs.head?) → scan c cs' =
      scanPair cs' short longer) :
    (scanPair cs short longer).Stands c cs := by
  unfold scanPair
  split
  · next mark hmark =>
    obtain ⟨d, hd, hlookup⟩ := Option.bind_eq_some_iff.mp hmark
    refine stands_two (d := d) (fun rest => ?_) hd
    rw [h (d :: rest) fun _ he => .inr (hd.trans he), scanPair]
    simp [hlookup]
  · next hnone =>
    refine stands_mark fun cs' hcs' => ?_
    have hnone' : (cs'.head?.bind fun d => longer.lookup d) = none := by
      refine Option.bind_eq_none_iff.mpr fun d hd => ?_
      rcases hcs' d hd with rfl | hd
      · exact hline
      · exact Option.bind_eq_none_iff.mp hnone d hd
    rw [h cs' hcs', scanPair, hnone']

/-! ### Comments -/

/-- That the length is `n` is settled by that many characters and so many behind them. -/
def Settled (length? : List Char → Option Nat) (behind : Nat) (cs : List Char) (n : Nat) : Prop :=
  ∃ taken rest, cs = taken ++ rest ∧ taken.length = n + behind ∧
    ∀ rest', length? (taken ++ rest') = some n

theorem Settled.cons {length? length?' : List Char → Option Nat} {behind n : Nat}
    (hstep : ∀ cs, length?' (c :: cs) = (length? cs).map (· + 1))
    (h : Settled length? behind cs n) :
    Settled length?' behind (c :: cs) (n + 1) := by
  obtain ⟨taken, rest, rfl, hlength, hagain⟩ := h
  refine ⟨c :: taken, rest, rfl, ?_, fun rest' => ?_⟩
  · rw [List.length_cons, hlength, Nat.add_right_comm]
  · rw [List.cons_append, hstep, hagain]
    rfl

theorem scan_lineComment :
    scan '/' ('/' :: cs) = .found .comment ((cs.takeWhile (· != '\n')).length + 1) := rfl

theorem stands_lineComment :
    (Scan.found .comment ((cs.takeWhile (· != '\n')).length + 1)).Stands '/' ('/' :: cs) := by
  refine ⟨'/' :: cs.takeWhile (· != '\n'), cs.dropWhile (· != '\n'), ?_, rfl, fun rest' hbars => ?_⟩
  · rw [List.cons_append, List.takeWhile_append_dropWhile]
  · have hrest : ∀ d ∈ rest'.head?, (d != '\n') = false :=
      hbars.head_not rfl (head_dropWhile_not _ cs)
    rw [List.cons_append, scan_lineComment, takeWhile_takeWhile_append _ cs hrest]

/-- Only the characters through its end say how long a block comment is. -/
theorem settled_commentLength? {n : Nat} (h : commentLength? cs = some n) :
    Settled commentLength? 0 cs n := by
  fun_induction commentLength? cs generalizing n with
  | case1 cs =>
    obtain rfl := Option.some.inj h
    exact ⟨['*', '/'], cs, rfl, rfl, fun _ => rfl⟩
  | case2 c cs hnot ih =>
    obtain ⟨m, hm, rfl⟩ := Option.map_eq_some_iff.mp h
    obtain ⟨taken, rest, rfl, hlength, hagain⟩ := ih hm
    have hne : taken ≠ [] := by
      rintro rfl
      cases hagain []
    obtain ⟨d, taken, rfl⟩ := List.exists_cons_of_ne_nil hne
    refine ⟨c :: d :: taken, rest, rfl, congrArg (· + 1) hlength, fun rest' => ?_⟩
    have hagain := hagain rest'
    rw [List.cons_append] at hagain ⊢
    rw [List.cons_append, commentLength?, hagain]
    · rfl
    · intro ds hc hds
      exact hnot (taken ++ rest) hc (by rw [List.cons_append, (List.cons.inj hds).1])
  | case3 => cases h

theorem scan_blockComment {n : Nat} (h : commentLength? cs = some n) :
    scan '/' ('*' :: cs) = .found .comment (n + 1) := by
  unfold scan
  simp only [h]

theorem stands_blockComment {n : Nat} (h : commentLength? cs = some n) :
    (Scan.found .comment (n + 1)).Stands '/' ('*' :: cs) := by
  obtain ⟨taken, rest, rfl, hlength, hagain⟩ := settled_commentLength? h
  exact ⟨'*' :: taken, rest, rfl, congrArg (· + 1) hlength, fun rest' _ =>
    scan_blockComment (hagain rest')⟩

theorem scan_slash (h : ∀ d ∈ cs.head?, d ≠ '/' ∧ d ≠ '*') :
    scan '/' cs = scanPair cs .slash [('=', .slashAssign)] := by
  cases cs with
  | nil => rfl
  | cons d cs =>
    obtain ⟨hline, hblock⟩ := h d rfl
    unfold scan
    simp only
    split
    · next heq => exact absurd (List.cons.inj heq).1 hline
    · next heq => exact absurd (List.cons.inj heq).1 hblock
    · rfl

/-! ### Strings and templates -/

theorem isQuote_iff : isQuote c ↔ c = '"' ∨ c = '\'' := by
  simp [isQuote]

theorem stands_scanString (hc : isQuote c) : (scanString c cs).Stands c cs := by
  unfold scanString
  simp only
  split
  · next hlength =>
    have hsplit := List.takeWhile_append_dropWhile (p := (· != c)) (l := cs)
    cases hdrop : cs.dropWhile (· != c) with
    | nil =>
      rw [hdrop, List.append_nil] at hsplit
      rw [hsplit] at hlength
      exact absurd hlength (Nat.lt_irrefl _)
    | cons d rest =>
      have hd := List.head?_dropWhile_not (· != c) cs
      rw [hdrop] at hd
      obtain rfl : d = c := by simpa using hd
      have hquote : d ∉ cs.takeWhile (· != d) :=
        fun hmem => by simpa using List.mem_takeWhile_imp hmem
      refine ⟨cs.takeWhile (· != d) ++ [d], rest, ?_, by simp, fun rest' _ => ?_⟩
      · rw [List.append_assoc, List.singleton_append, ← hdrop, hsplit]
      · rw [scan_quoted (isQuote_iff.mp hc) hquote, List.length_append, List.length_singleton]
  · trivial

/-- Only the characters through its quote say how long the body of a template is. -/
theorem settled_bodyLength? {quote : Char} {depth : Nat} {inner : Option Char} {n : Nat}
    (h : bodyLength? quote depth inner cs = some n) :
    Settled (bodyLength? quote depth inner) 1 cs n := by
  fun_induction bodyLength? quote depth inner cs generalizing n with
  | case1 => cases h
  | case2 depth q c cs ih =>
    obtain ⟨m, hm, rfl⟩ := Option.map_eq_some_iff.mp h
    exact (ih hm).cons fun cs => by rw [bodyLength?]
  | case3 depth c cs hend =>
    obtain rfl := Option.some.inj h
    exact ⟨[c], cs, rfl, rfl, fun rest' => by rw [List.singleton_append, bodyLength?, if_pos hend]⟩
  | case4 depth cs hend ih =>
    obtain ⟨m, hm, rfl⟩ := Option.map_eq_some_iff.mp h
    exact (ih hm).cons fun cs => by rw [bodyLength?, if_neg hend, if_pos rfl]
  | case5 depth cs hend hopen ih =>
    obtain ⟨m, hm, rfl⟩ := Option.map_eq_some_iff.mp h
    exact (ih hm).cons fun cs => by rw [bodyLength?, if_neg hend, if_neg hopen, if_pos rfl]
  | case6 depth c cs hend hopen hclose hquote ih =>
    obtain ⟨m, hm, rfl⟩ := Option.map_eq_some_iff.mp h
    exact (ih hm).cons
      fun cs => by rw [bodyLength?, if_neg hend, if_neg hopen, if_neg hclose, if_pos hquote]
  | case7 depth c cs hend hopen hclose hquote ih =>
    obtain ⟨m, hm, rfl⟩ := Option.map_eq_some_iff.mp h
    exact (ih hm).cons
      fun cs => by rw [bodyLength?, if_neg hend, if_neg hopen, if_neg hclose, if_neg hquote]

theorem scan_template {quote : Char} (hq : isQuote quote) :
    scan 'f' (quote :: cs) = scanTemplate quote cs := by
  rcases isQuote_iff.mp hq with rfl | rfl <;> rfl

theorem stands_scanTemplate {quote : Char} (hq : isQuote quote) :
    (scanTemplate quote cs).Stands 'f' (quote :: cs) := by
  unfold scanTemplate
  split
  · next n hn =>
    obtain ⟨taken, rest, rfl, hlength, hagain⟩ := settled_bodyLength? hn
    refine ⟨quote :: taken, rest, rfl, congrArg (· + 1) hlength, fun rest' _ => ?_⟩
    rw [List.cons_append, scan_template hq, scanTemplate, hagain rest']
    simp only
    rw [List.take_append_of_le_length (by omega), List.take_append_of_le_length (by omega)]
  · trivial

/-! ### Numbers -/

theorem singleMark_cons : singleMark (d :: cs) = true ↔
    (d = 'f' ∨ d = 'F') ∧ ∀ e ∈ cs.head?, continuesName e = false := by
  cases cs <;> simp [singleMark]

theorem stands_scanNumber (hc : c.isDigit) : (scanNumber c cs).Stands c cs := by
  obtain ⟨more, fraction, tail, rfl, hmore, hfraction, htail, hpoint⟩ := exists_numeral_append cs
  rw [scanNumber_append hc hmore hfraction htail hpoint]
  have hagain {tail' : List Char} (hhead : ∀ d ∈ tail'.head?, d.isDigit = false)
      (hpoint' : fraction = [] → fractionDigits tail' = []) :
      scan c (Number.numeral more fraction ++ tail') = _ :=
    (scan_of_isDigit hc).trans (scanNumber_append hc hmore hfraction hhead hpoint')
  simp only
  by_cases hmark : singleMark tail = true
  · -- the mark belongs to the token, and what is behind it is no name
    rw [if_pos hmark]
    cases tail with
    | nil => cases hmark
    | cons d rest =>
      obtain ⟨hd, hnext⟩ := singleMark_cons.mp hmark
      refine ⟨Number.numeral more fraction ++ [d], rest, by simp, by simp, fun rest' hbars => ?_⟩
      have hmark' : singleMark ([d] ++ rest') = true :=
        singleMark_cons.mpr ⟨hd, hbars.head_not (by decide +kernel) hnext⟩
      have hpoint' : fractionDigits ([d] ++ rest') = [] := by
        rcases hd with rfl | rfl <;> rfl
      rw [List.append_assoc, hagain (fun e he => ?_) fun _ => hpoint']
      · simp only
        rw [if_pos hmark']
      · obtain rfl := Option.some.inj he
        rcases hd with rfl | rfl <;> rfl
  · rw [if_neg hmark]
    refine ⟨Number.numeral more fraction, tail, rfl, rfl, fun rest' hbars => ?_⟩
    rw [hagain (hbars.head_not rfl htail) fun h => hbars.fraction (hpoint h)]
    simp only
    rw [if_neg (by simpa using hbars.mark (Bool.not_eq_true _ ▸ hmark))]

/-! ### Names -/

/-- What may begin a name begins one, but for the letter in front of a template. -/
theorem scan_name (h : beginsName c) (hq : c = 'f' → ∀ d ∈ cs.head?, isQuote d = false) :
    scan c cs = scanName c cs := by
  have hquote := not_isQuote h (by decide)
  have hdigit := not_isDigit_of_beginsName h
  unfold scan
  split
  case h_22 =>
    rw [if_neg (by simp [hquote]), if_neg (by simp [hdigit])]
    split
    · exact absurd (hq rfl '"' rfl) (by decide)
    · exact absurd (hq rfl '\'' rfl) (by decide)
    · exact if_pos h
  all_goals exact absurd h (by decide)

theorem stands_scanName (h : beginsName c) (hq : c = 'f' → ∀ d ∈ cs.head?, isQuote d = false) :
    (scanName c cs).Stands c cs := by
  refine ⟨cs.takeWhile continuesName, cs.dropWhile continuesName,
    List.takeWhile_append_dropWhile.symm, rfl,
    fun rest' hbars => ?_⟩
  have hrest' := hbars.head_not (by decide +kernel) (head_dropWhile_not continuesName cs)
  have hq' : c = 'f' → ∀ d ∈ (cs.takeWhile continuesName ++ rest').head?, isQuote d = false := by
    intro hf
    have hcs := hq hf
    cases htaken : cs.takeWhile continuesName with
    | nil =>
      have hsplit := List.takeWhile_append_dropWhile (p := continuesName) (l := cs)
      rw [htaken, List.nil_append] at hsplit
      rw [hsplit] at hbars
      exact hbars.head_not (by decide) hcs
    | cons e taken =>
      intro d hd
      obtain rfl : e = d := Option.some.inj hd
      exact not_isQuote (List.mem_takeWhile_imp (htaken ▸ List.mem_cons_self)) (by decide)
  rw [scan_name h hq', scanName, takeWhile_takeWhile_append _ cs hrest']

/-! ### All tokens -/

theorem Scan.Stands.ite {p : Prop} [Decidable p] {a b : Scan} (ha : p → a.Stands c cs)
    (hb : ¬p → b.Stands c cs) :
    (if p then a else b).Stands c cs := by
  split
  · next h => exact ha h
  · next h => exact hb h

/-- **A token is found again** in front of every text that keeps off what the text behind it kept
off. -/
theorem stands_scan (c : Char) (cs : List Char) : (scan c cs).Stands c cs := by
  unfold scan
  split
  case h_19 =>
    split
    · exact stands_lineComment
    · split
      · next hn => exact stands_blockComment hn
      · trivial
    · next hline hblock =>
      refine stands_scanPair rfl fun cs' hcs' => scan_slash fun d hd => ?_
      rcases hcs' d hd with rfl | hd
      · exact ⟨by decide, by decide⟩
      · obtain ⟨rest, rfl⟩ := List.head?_eq_some_iff.mp hd
        exact ⟨fun heq => hline rest (heq ▸ rfl), fun heq => hblock rest (heq ▸ rfl)⟩
  case h_20 => exact .ite (stands_two fun _ => rfl) fun _ => trivial
  case h_21 => exact .ite (stands_two fun _ => rfl) fun _ => trivial
  case h_22 =>
    refine .ite stands_scanString fun _ => .ite stands_scanNumber fun _ => ?_
    split
    · exact stands_scanTemplate (by decide)
    · exact stands_scanTemplate (by decide)
    · next hdouble hsingle =>
      refine .ite (fun hname => stands_scanName hname ?_) fun _ => trivial
      rintro rfl d hd
      obtain ⟨rest, rfl⟩ := List.head?_eq_some_iff.mp hd
      refine Bool.eq_false_iff.mpr fun hq => ?_
      rcases isQuote_iff.mp hq with rfl | rfl
      · exact hdouble rest rfl rfl
      · exact hsingle rest rfl rfl
  all_goals first
    | exact stands_mark fun _ _ => rfl
    | exact stands_scanPair rfl fun _ _ => rfl

/-- A token keeps no character of the text behind it. -/
theorem scan_again (hscan : scan c cs = .found kind more) (hbars : Bars (cs.drop more) rest) :
    scan c (cs.take more ++ rest) = .found kind (cs.take more).length := by
  have hstands := stands_scan c cs
  rw [hscan] at hstands
  obtain ⟨taken, behind, rfl, rfl, hagain⟩ := hstands
  rw [List.drop_left] at hbars
  rw [List.take_left]
  exact hagain rest hbars

/-! ## Readings -/

/-- From the characters `cs` after place `p` the tokens are read one after another, up to the
characters `rest` after place `q`. Each of them is looked for with everything behind it there. -/
inductive Reads :
    (p : Position) → (cs : List Char) → List Token → (q : Position) → (rest : List Char) → Prop
  | done {p : Position} {cs : List Char} : Reads p cs [] p cs
  | blank {p q : Position} {c : Char} {cs rest : List Char} {tokens : List Token}
      (hblank : Text.isBlank c) (hreads : Reads (p.next c) cs tokens q rest) :
      Reads p (c :: cs) tokens q rest
  | token {p q : Position} {c : Char} {cs rest : List Char} {kind : Kind} {more : Nat}
      {tokens : List Token} (hblank : ¬Text.isBlank c) (hscan : scan c cs = .found kind more)
      (hreads : Reads (p.after (c :: cs.take more)) (cs.drop more) tokens q rest) :
      Reads p (c :: cs) (ofScan p kind (c :: cs.take more) :: tokens) q rest

namespace Reads

variable {p q : Position} {tokens : List Token} {fault : Fault} {error : LexicalError}

/-- A token with known characters, and what is read behind them. -/
theorem found {lexeme : List Char} {kind : Kind} (hblank : ¬Text.isBlank c)
    (hscan : scan c (lexeme ++ cs) = .found kind lexeme.length)
    (h : Reads (p.after (c :: lexeme)) cs tokens q rest) :
    Reads p (c :: (lexeme ++ cs)) (ofScan p kind (c :: lexeme) :: tokens) q rest := by
  have htake : (lexeme ++ cs).take lexeme.length = lexeme := List.take_left
  have hdrop : (lexeme ++ cs).drop lexeme.length = cs := List.drop_left
  have htoken : Reads p (c :: (lexeme ++ cs))
      (ofScan p kind (c :: (lexeme ++ cs).take lexeme.length) :: tokens) q rest :=
    .token hblank hscan (by rwa [htake, hdrop])
  rwa [htake] at htoken

theorem length_le (h : Reads p cs tokens q rest) : rest.length ≤ cs.length := by
  induction h with
  | done => exact Nat.le_refl _
  | blank _ _ ih => exact Nat.le_succ_of_le ih
  | token _ _ _ ih =>
    rw [List.length_drop] at ih
    rw [List.length_cons]
    omega

theorem tokensFrom_ok (h : Reads p cs tokens q []) :
    tokensFrom p cs = .ok (tokens ++ [ofScan q .eof []]) := by
  generalize hrest : [] = rest at h
  induction h with
  | done =>
    subst hrest
    rw [tokensFrom]
    rfl
  | blank hblank _ ih =>
    rw [tokensFrom, if_pos hblank]
    exact ih hrest
  | token hblank hscan _ ih =>
    rw [tokensFrom, if_neg hblank, hscan]
    simp only [ih hrest]
    rfl

theorem tokensFrom_error (h : Reads p cs tokens q (c :: rest)) (hblank : ¬Text.isBlank c)
    (hscan : scan c rest = .failed error more) :
    tokensFrom p cs = .error (.placed (.lexical error) (q.spanTo (q.after (c :: rest.take more))))
      := by
  generalize hcs' : c :: rest = cs' at h
  induction h with
  | done =>
    subst hcs'
    rw [tokensFrom, if_neg hblank, hscan]
  | blank hb _ ih =>
    rw [tokensFrom, if_pos hb]
    exact ih hcs'
  | token hb hs _ ih =>
    rw [tokensFrom, if_neg hb, hs]
    simp only [ih hcs']
    rfl

end Reads

variable {p : Position} {tokens : List Token} {fault : Fault}

/-- Reading a text either goes on to its end or stops where no token can be found. -/
theorem exists_reads (p : Position) (cs : List Char) : (∃ tokens q, Reads p cs tokens q []) ∨
    ∃ tokens q c rest error more, Reads p cs tokens q (c :: rest) ∧ ¬Text.isBlank c ∧
      scan c rest = .failed error more := by
  induction p, cs using tokensFrom.induct with
  | case1 p => exact .inl ⟨[], p, .done⟩
  | case2 p c cs hblank ih =>
    refine ih.imp ?_ ?_
    · rintro ⟨tokens, q, h⟩
      exact ⟨tokens, q, .blank hblank h⟩
    · rintro ⟨tokens, q, d, rest, error, more, h, hfails⟩
      exact ⟨tokens, q, d, rest, error, more, .blank hblank h, hfails⟩
  | case3 p c cs hblank error more hscan =>
    exact .inr ⟨[], p, c, cs, error, more, .done, hblank, hscan⟩
  | case4 p c cs hblank kind more hscan lexeme ih =>
    refine ih.imp ?_ ?_
    · rintro ⟨tokens, q, h⟩
      exact ⟨_, q, .token hblank hscan h⟩
    · rintro ⟨tokens, q, d, rest, error, more, h, hfails⟩
      exact ⟨_, q, d, rest, error, more, .token hblank hscan h, hfails⟩

/-- A text has tokens if they are read up to its end. -/
theorem tokensFrom_ok_iff : tokensFrom p cs = .ok tokens ↔
    ∃ body q, Reads p cs body q [] ∧ tokens = body ++ [ofScan q .eof []] := by
  constructor
  · intro h
    obtain ⟨body, q, hreads⟩ | ⟨body, q, c, rest, error, more, hreads, hblank, hscan⟩ :=
      exists_reads p cs
    · rw [hreads.tokensFrom_ok] at h
      exact ⟨body, q, hreads, (Except.ok.inj h).symm⟩
    · rw [hreads.tokensFrom_error hblank hscan] at h
      cases h
  · rintro ⟨body, q, hreads, rfl⟩
    exact hreads.tokensFrom_ok

/-- There is something wrong with a text if tokens are read up to where none can be found. -/
theorem tokensFrom_error_iff : tokensFrom p cs = .error fault ↔
    ∃ body q c rest error more, Reads p cs body q (c :: rest) ∧ ¬Text.isBlank c ∧ scan c rest =
      .failed error more ∧
      fault = .placed (.lexical error) (q.spanTo (q.after (c :: rest.take more))) := by
  constructor
  · intro h
    obtain ⟨body, q, hreads⟩ | ⟨body, q, c, rest, error, more, hreads, hblank, hscan⟩ :=
      exists_reads p cs
    · rw [hreads.tokensFrom_ok] at h
      cases h
    · rw [hreads.tokensFrom_error hblank hscan] at h
      exact ⟨body, q, c, rest, error, more, hreads, hblank, hscan, (Except.error.inj h).symm⟩
  · rintro ⟨body, q, c, rest, error, more, hreads, hblank, hscan, rfl⟩
    exact hreads.tokensFrom_error hblank hscan

end Token

end ScriptEngine
