import ScriptEngine.Proofs.Positions
import ScriptEngine.Proofs.Totality
/-!
# Line breaks between tokens

A call or an index goes on with an operand, and a statement comes to its end, by the lines on which
two tokens begin. That is a question about the text: whether a newline lies anywhere from the
beginning of the token taken last to the beginning of the next one. So a newline within the token
taken last counts like one behind it, and only strings and templates have one.

* `Token.line_of_placed` : the line of a token, counted from a token in front of it.
* `Token.oneLine_of_tokensFrom` : the tokens that lie on one line.
* `Parser.State.Broken` : a newline in the token taken last, or behind it.
* `Parser.Trails` : how an operand goes on, by the text.
* `Parser.Ending`, `Parser.Simple` : the statements that the end of a line ends.
* `Parser.line_breaks_by_text` : both rules, for every text.

The rules are those of `call` and `end_statement`, which compare the lines that tokens begin on.
-/

namespace ScriptEngine

/-! ## Lines in a text -/

namespace Token

/-- The text in front of a byte that begins a character, and the text from there. -/
theorem IsBoundary.exists_append {source : String} {offset : Nat} (h : IsBoundary source offset) :
    ∃ before rest, source.toList = before ++ rest ∧ String.utf8Len before = offset := by
  obtain ⟨s, t, hsource, hoffset⟩ := String.Pos.Raw.isValid_iff_exists_append.mp h
  refine ⟨s.toList, t.toList, by rw [hsource, String.toList_append], ?_⟩
  rw [← String.utf8ByteSize_ofList, String.ofList_toList]
  exact (congrArg String.Pos.Raw.byteIdx hoffset).symm

/-- Of two beginnings of a text the one with fewer bytes is a beginning of the other. -/
theorem exists_append_of_utf8Len_le {before before' rest rest' : List Char}
    (h : before ++ rest = before' ++ rest') (hle : String.utf8Len before ≤ String.utf8Len before') :
    ∃ between, before' = before ++ between ∧ rest = between ++ rest' := by
  rcases List.append_eq_append_iff.mp h with ⟨between, hbefore, hrest⟩ | ⟨between, hbefore, hrest⟩
  · exact ⟨between, hbefore, hrest⟩
  · have hnil : between = [] := by
      cases between with
      | nil => rfl
      | cons c cs =>
        rw [hbefore, String.utf8Len_append, String.utf8Len_cons] at hle
        have := c.utf8Size_pos
        omega
    subst hnil
    exact ⟨[], by simpa using hbefore.symm, by simpa using hrest.symm⟩

/-- The text between two bytes is the text up to a byte between them and the text from there. -/
theorem textBetween_split {source : String} {a b c : Nat} (ha : IsBoundary source a)
    (hb : IsBoundary source b) (hc : IsBoundary source c) (hab : a ≤ b) (hbc : b ≤ c) :
    textBetween source a c = textBetween source a b ++ textBetween source b c := by
  obtain ⟨before, rest, hsource, rfl⟩ := ha.exists_append
  obtain ⟨before', rest', hsource', rfl⟩ := hb.exists_append
  obtain ⟨before'', rest'', hsource'', rfl⟩ := hc.exists_append
  obtain ⟨between, rfl, rfl⟩ := exists_append_of_utf8Len_le (hsource.symm.trans hsource') hab
  obtain ⟨between', rfl, rfl⟩ := exists_append_of_utf8Len_le (hsource'.symm.trans hsource'') hbc
  have htext : source = String.ofList (before ++ between ++ between' ++ rest'') := by
    rw [← hsource'', String.ofList_toList]
  have hall := textBetween_append before (between ++ between') rest''
  have hfirst := textBetween_append before between (between' ++ rest'')
  have hsecond := textBetween_append (before ++ between) between' rest''
  simp only [← List.append_assoc, ← String.utf8Len_append] at hall hfirst hsecond
  rw [htext, hall, hfirst, hsecond, String.ofList_append]

theorem isBoundary_zero (source : String) : IsBoundary source 0 := by
  have h := isBoundary_append [] source.toList
  rwa [List.nil_append, String.ofList_toList] at h

/-- The newlines in a token and behind it are the lines between it and a later one. -/
theorem line_of_placed {first : Nat} {source : String} {t u : Token} (ht : t.Placed first source)
    (hu : u.Placed first source) (hwidth : t.span.start ≤ t.span.stop)
    (horder : t.span.stop ≤ u.span.start) :
    u.span.line = t.span.line + t.lexeme.toList.count '\n'
      + (textBetween source t.span.stop u.span.start).toList.count '\n' := by
  have hzero := isBoundary_zero source
  have hgap := textBetween_split ht.start ht.stop hu.start hwidth horder
  have hall := textBetween_split hzero ht.start hu.start (Nat.zero_le _)
    (Nat.le_trans hwidth horder)
  rw [hu.line, hall, hgap, ht.lexeme, ht.line]
  simp only [String.toList_append, List.count_append]
  omega

/-! ### Tokens on one line -/

end Token

/-- Whether the characters of such a token may go over several lines. -/
def Kind.mayBreak : Kind → Bool
  | .string _ | .template _ | .comment => true
  | _ => false

namespace Token

section OneLine

variable {c : Char} {cs : List Char}

/-- What is found lies on one line, unless it is of a kind that need not. -/
def Scan.OneLine (c : Char) (cs : List Char) : Scan → Prop
  | .found kind more => kind.mayBreak = false → '\n' ∉ c :: cs.take more
  | .failed .. => True

theorem Scan.OneLine.ite {p : Prop} [Decidable p] {a b : Scan} (ha : a.OneLine c cs)
    (hb : b.OneLine c cs) : (if p then a else b).OneLine c cs := by
  split
  · exact ha
  · exact hb

theorem oneLine_mark {kind : Kind} (hc : c ≠ '\n') : (Scan.found kind 0).OneLine c cs := by
  intro _ hmem
  rw [List.take_zero, List.mem_singleton] at hmem
  exact hc hmem.symm

theorem oneLine_mayBreak {kind : Kind} {more : Nat} (h : kind.mayBreak = true) :
    (Scan.found kind more).OneLine c cs :=
  fun hkind => absurd (h.symm.trans hkind) (by decide)

theorem not_mem_take_one {d : Char} (hd : cs.head? = some d) (hne : d ≠ '\n') :
    '\n' ∉ cs.take 1 := by
  cases cs with
  | nil => cases hd
  | cons e es =>
    obtain rfl := Option.some.inj hd
    rw [List.take_succ_cons, List.take_zero, List.mem_singleton]
    exact hne.symm

theorem oneLine_pair {kind : Kind} {d : Char} (hc : c ≠ '\n') (hd : cs.head? = some d)
    (hne : d ≠ '\n') : (Scan.found kind 1).OneLine c cs := by
  intro _ hmem
  rcases List.mem_cons.mp hmem with heq | hmem
  · exact hc heq.symm
  · exact not_mem_take_one hd hne hmem

theorem oneLine_scanPair (hc : c ≠ '\n') (short : Symbol) {longer : List (Char × Symbol)}
    (hlonger : longer.lookup '\n' = none) : (scanPair cs short longer).OneLine c cs := by
  unfold scanPair
  split
  · next mark hmark =>
    obtain ⟨d, hd, hlookup⟩ := Option.bind_eq_some_iff.mp hmark
    refine oneLine_pair hc hd fun heq => ?_
    rw [heq, hlonger] at hlookup
    cases hlookup
  · exact oneLine_mark hc

/-- Characters from the front that are all of a kind the newline is not of. -/
theorem newline_not_mem_takeWhile {p : Char → Bool} (hp : p '\n' = false) :
    '\n' ∉ cs.takeWhile p := by
  intro hmem
  have := List.all_eq_true.mp (List.all_takeWhile (p := p) (l := cs)) _ hmem
  rw [hp] at this
  cases this

theorem take_length_takeWhile (p : Char → Bool) :
    cs.take (cs.takeWhile p).length = cs.takeWhile p :=
  List.prefix_iff_eq_take.mp (List.takeWhile_prefix p) |>.symm

theorem oneLine_scanName (hc : c ≠ '\n') : (scanName c cs).OneLine c cs := by
  intro _ hmem
  rw [take_length_takeWhile] at hmem
  rcases List.mem_cons.mp hmem with heq | hmem
  · exact hc heq.symm
  · exact newline_not_mem_takeWhile (by decide +kernel) hmem

/-- The digits of a number, its point and its mark for single precision are on one line. -/
theorem oneLine_scanNumber (hc : c ≠ '\n') : (scanNumber c cs).OneLine c cs := by
  have hdigits {ds : List Char} : '\n' ∉ ds.takeWhile Char.isDigit := newline_not_mem_takeWhile rfl
  unfold scanNumber
  simp only
  have htake : '\n' ∉ cs.take (numberLength cs) := by
    unfold numberLength
    simp only
    rw [List.take_add, take_length_takeWhile, List.mem_append, not_or]
    refine ⟨hdigits, ?_⟩
    generalize cs.drop (cs.takeWhile Char.isDigit).length = rest
    fun_cases fractionDigits rest with
    | case1 ds =>
      split
      · simp
      · rw [List.take_succ_cons, take_length_takeWhile]
        simpa using hdigits
    | case2 => simp
  split
  · next hmark =>
    split
    · intro _ hmem
      rcases List.mem_cons.mp hmem with heq | hmem
      · exact hc heq.symm
      rw [List.take_add, List.mem_append] at hmem
      refine hmem.elim htake ?_
      cases hdrop : cs.drop (numberLength cs) with
      | nil => simp
      | cons d ds =>
        rw [hdrop, singleMark, Bool.and_eq_true, Bool.or_eq_true, beq_iff_eq, beq_iff_eq] at hmark
        exact not_mem_take_one rfl fun heq => by simp [heq] at hmark
    · trivial
  · split
    · intro _ hmem
      rcases List.mem_cons.mp hmem with heq | hmem
      · exact hc heq.symm
      · exact htake hmem
    · trivial

theorem oneLine_scan (hc : c ≠ '\n') : (scan c cs).OneLine c cs := by
  unfold scan
  split
  case h_19 =>
    split
    · exact oneLine_mayBreak rfl
    · split
      · exact oneLine_mayBreak rfl
      · trivial
    · exact oneLine_scanPair hc _ rfl
  case h_20 | h_21 =>
    split
    · next hd => exact oneLine_pair hc hd (by decide)
    · trivial
  case h_22 =>
    have hstring : (scanString c cs).OneLine c cs := by
      unfold scanString
      exact .ite (oneLine_mayBreak rfl) trivial
    have htemplate {quote : Char} {rest : List Char} : (scanTemplate quote rest).OneLine c cs := by
      unfold scanTemplate
      split
      · exact oneLine_mayBreak rfl
      · trivial
    refine .ite hstring (.ite (oneLine_scanNumber hc) ?_)
    split
    · exact htemplate
    · exact htemplate
    · exact .ite (oneLine_scanName hc) trivial
  all_goals first | exact oneLine_mark hc | exact oneLine_scanPair hc _ rfl

/-- Only comments, strings and templates go over several lines. -/
theorem oneLine_of_tokensFrom {p : Position} {tokens : List Token}
    (h : tokensFrom p cs = .ok tokens) :
    ∀ t ∈ tokens, t.kind.mayBreak = false → '\n' ∉ t.lexeme.toList := by
  induction p, cs using tokensFrom.induct generalizing tokens with
  | case1 p =>
    rw [tokensFrom] at h
    cases h
    rintro t ht -
    obtain rfl := List.mem_singleton.mp ht
    exact List.not_mem_nil
  | case2 p c cs hblank ih =>
    rw [tokensFrom, if_pos hblank] at h
    exact ih h
  | case3 p c cs hblank error more hscan =>
    rw [tokensFrom, if_neg hblank, hscan] at h
    cases h
  | case4 p c cs hblank kind more hscan lexeme =>
    rename_i ih
    rw [tokensFrom, if_neg hblank, hscan] at h
    have hfirst : '\n' ≠ c := fun heq => hblank (heq ▸ by decide +kernel)
    have hline : (scan c cs).OneLine c cs := oneLine_scan hfirst.symm
    rw [hscan] at hline
    cases hrest : tokensFrom (p.after (c :: cs.take more)) (cs.drop more) with
    | error fault => simp [hrest, bind, Except.bind] at h
    | ok rest =>
      simp only [hrest, bind, Except.bind, pure, Except.pure, Except.ok.injEq] at h
      subst h
      intro t ht hkind
      rcases List.mem_cons.mp ht with rfl | ht
      · change '\n' ∉ (String.ofList (c :: cs.take more)).toList
        rw [String.toList_ofList]
        exact hline hkind
      · exact ih hrest t ht hkind

end OneLine

end Token

namespace Token

variable {first : Nat} {before cs : List Char} {tokens : List Token}

/-- Every token ends before the next one begins. -/
theorem Lays.pairwise (hlays : Lays first before cs tokens) :
    (∀ t ∈ tokens, t.span.start ≤ t.span.stop) ∧
      tokens.Pairwise fun t u => t.span.stop ≤ u.span.start := by
  have hplaced := hlays.placed
  obtain ⟨body, last, rfl, ⟨-, -, hstart, hstop⟩, hbody, hpairwise⟩ := hlays.in_order
  refine ⟨fun t ht => ?_, List.pairwise_append.mpr ⟨hpairwise, List.pairwise_singleton _ _, ?_⟩⟩
  · rcases List.mem_append.mp ht with ht | ht
    · exact Nat.le_of_lt (hbody t ht).2.2
    · rw [List.mem_singleton.mp ht, hstart, hstop]
  · intro t ht u hu
    rw [List.mem_singleton.mp hu, hstart, ← String.utf8ByteSize_ofList]
    exact (hplaced t (List.mem_append_left _ ht)).stop.le_rawEndPos

end Token

namespace Parser

open Token

/-! ## The next token and the one taken last -/

section Places

variable {first : Nat} {source : String} {tokens : List Token} {s : State} {i : Nat}

/-- The tokens of a text end in an end token, so a parser is given them all but the comments. -/
theorem vector_of_tokenizeAt (hread : tokenizeAt first source = .ok tokens) :
    vector tokens = tokens.filter fun t => t.kind != .comment := by
  obtain ⟨body, last, rfl, ⟨hkind, -⟩, -⟩ := (lays_of_tokensFrom [] source.toList hread).in_order
  have hkept : [last].filter (fun t => t.kind != .comment) = [last] := by
    rw [List.filter_singleton, hkind]
    rfl
  have hlast : ((body ++ [last]).filter fun t => t.kind != .comment).getLast? = some last := by
    rw [List.filter_append, hkept, List.getLast?_concat]
  unfold vector
  rw [if_pos]
  rw [hlast]
  exact beq_iff_eq.mpr hkind

/-- A newline lies in the token taken last, or between it and the next one. -/
def State.Broken (source : String) (s : State) : Prop :=
  '\n' ∈ s.last.lexeme.toList ∨
    '\n' ∈ (textBetween source s.last.span.stop s.next.span.start).toList

instance (source : String) (s : State) : Decidable (s.Broken source) :=
  inferInstanceAs (Decidable (_ ∨ _))

/-- Two neighbours among the tokens of a text. -/
theorem State.At.neighbours (hread : tokenizeAt first source = .ok tokens)
    (hs : s.At (vector tokens) i) (hi : 0 < i) :
    s.last ∈ tokens ∧ ∃ t ∈ tokens, t.span = s.next.span ∧ s.last.span.stop ≤ t.span.start := by
  have hlays := lays_of_tokensFrom [] source.toList hread
  have hvector := vector_of_tokenizeAt hread
  obtain ⟨t, ht, -, hspan⟩ := hs.next
  have hinside := hs.inside
  have hprevious : s.previous = some (vector tokens)[i - 1] := by
    rw [hs.previous, if_neg (Nat.ne_of_gt hi), List.getElem?_eq_getElem]
  have hlast : s.last = (vector tokens)[i - 1] := by
    rw [State.last, hprevious]
    rfl
  obtain ⟨_, rfl⟩ := List.getElem?_eq_some_iff.mp ht
  have hmem {j : Nat} (hj : j < (vector tokens).length) : (vector tokens)[j] ∈ tokens := by
    refine List.mem_of_mem_filter (p := fun t => t.kind != .comment) ?_
    rw [← hvector]
    exact List.getElem_mem hj
  have hpairwise : (vector tokens).Pairwise fun t u => t.span.stop ≤ u.span.start := by
    rw [hvector]
    exact hlays.pairwise.2.sublist List.filter_sublist
  refine ⟨hlast ▸ hmem _, _, hmem hs.inside, hspan, ?_⟩
  rw [hlast]
  exact List.pairwise_iff_getElem.mp hpairwise (i - 1) i _ _ (by omega)

/-- Where newlines lie is what the lines of the two tokens tell. -/
theorem State.At.lines (hread : tokenizeAt first source = .ok tokens)
    (hs : s.At (vector tokens) i) (hi : 0 < i) :
    s.last.span.line ≤ s.next.span.line ∧
      (s.last.span.line < s.next.span.line ↔ s.Broken source) := by
  obtain ⟨hlast, t, ht, hspan, horder⟩ := hs.neighbours hread hi
  have hlays := lays_of_tokensFrom [] source.toList hread
  have hplaced := hlays.placed
  rw [List.nil_append, String.ofList_toList] at hplaced
  have hline := line_of_placed (hplaced _ hlast) (hplaced _ ht) (hlays.pairwise.1 _ hlast) horder
  rw [hspan] at hline
  unfold State.Broken
  rw [← List.count_pos_iff, ← List.count_pos_iff]
  omega

theorem State.At.line_eq_iff (hread : tokenizeAt first source = .ok tokens)
    (hs : s.At (vector tokens) i) (hi : 0 < i) :
    s.next.span.line = s.last.span.line ↔ ¬ s.Broken source := by
  have hlines := hs.lines hread hi
  rw [← hlines.2]
  omega

/-- Unless it is a string or a template, the token taken last lies on one line. -/
theorem State.At.broken_iff (hread : tokenizeAt first source = .ok tokens)
    (hs : s.At (vector tokens) i) (hi : 0 < i) (hkind : s.last.kind.mayBreak = false) :
    s.Broken source ↔ '\n' ∈ (textBetween source s.last.span.stop s.next.span.start).toList := by
  have hline := oneLine_of_tokensFrom hread _ (hs.neighbours hread hi).1 hkind
  exact or_iff_right hline

end Places

/-! ## How an operand goes on -/

section Operands

variable {source : String} {again : Productions} {e e' : Expr} {s t : State}

/-- How an operand goes on, by the text: a parenthesis or a bracket is taken if no line breaks in
front of it, and a point in any case. -/
inductive Trails (source : String) (again : Productions) : Expr → State → Expr → State → Prop
  | ends {e : Expr} {s : State} (hdot : s.kind ≠ .symbol .dot)
      (hopen : s.kind = .symbol .leftParen ∨ s.kind = .symbol .leftBracket → s.Broken source) :
      Trails source again e s e s
  | call {e e₁ e' : Expr} {s s₁ t : State} (hs : s.kind = .symbol .leftParen)
      (hline : ¬ s.Broken source) (hcall : callRest again e s.advance = .ok e₁ s₁)
      (hrest : Trails source again e₁ s₁ e' t) : Trails source again e s e' t
  | index {e key e' : Expr} {s s₁ t : State} (hs : s.kind = .symbol .leftBracket)
      (hline : ¬ s.Broken source) (hkey : again.expression s.advance = .ok key s₁)
      (hclose : s₁.kind = .symbol .rightBracket)
      (hrest : Trails source again (.index e key (e.span.upTo s₁.next.span)) s₁.advance e' t) :
      Trails source again e s e' t
  | get {e e' : Expr} {name : String} {s t : State} (hs : s.kind = .symbol .dot)
      (hname : s.advance.kind = .ident name)
      (hrest : Trails source again (.get e name (e.span.upTo s.advance.advance.last.span))
        s.advance.advance e' t) : Trails source again e s e' t

variable {m : Nat}

/-- A parenthesis is taken if it begins where the token in front of it does. -/
theorem trailers_of_leftParen (hs : s.kind = .symbol .leftParen) :
    trailers again (m + 1) e s = if s.next.span.line = s.last.span.line
      then (callRest again e >>= trailers again m) s.advance else .ok e s := by
  change (if (s.next.span.line == s.last.span.line && s.kind == .symbol .leftParen) = true then _
    else _ : Parser Expr) s = _
  by_cases hline : s.next.span.line = s.last.span.line
  · rw [if_pos hline, if_pos (by simp [hline, hs])]
    rfl
  · rw [if_neg hline, if_neg (by simp [hline]), if_neg (by simp [hline]), if_neg (by simp [hs])]
    rfl

/-- A bracket is taken if it begins where the token in front of it does. -/
theorem trailers_of_leftBracket (hs : s.kind = .symbol .leftBracket) :
    trailers again (m + 1) e s = if s.next.span.line = s.last.span.line
      then (again.expression >>= fun key => expectMark .rightBracket "expected ']' after index" >>=
        fun close => trailers again m (.index e key (e.span.upTo close.span))) s.advance
      else .ok e s := by
  change (if (s.next.span.line == s.last.span.line && s.kind == .symbol .leftParen) = true then _
    else _ : Parser Expr) s = _
  by_cases hline : s.next.span.line = s.last.span.line
  · rw [if_pos hline, if_neg (by simp [hs]), if_pos (by simp [hline, hs])]
    rfl
  · rw [if_neg hline, if_neg (by simp [hline]), if_neg (by simp [hline]), if_neg (by simp [hs])]
    rfl

theorem trailers_of_dot (hs : s.kind = .symbol .dot) :
    trailers again (m + 1) e s = (expectName "expected property name after '.'" >>= fun name =>
      state >>= fun u => trailers again m (.get e name (e.span.upTo u.last.span))) s.advance := by
  change (if (s.next.span.line == s.last.span.line && s.kind == .symbol .leftParen) = true then _
    else _ : Parser Expr) s = _
  rw [if_neg (by simp [hs]), if_neg (by simp [hs]), if_pos (by simp [hs])]
  rfl

/-- In front of any other token an operand is complete. -/
theorem trailers_of_ne (hparen : s.kind ≠ .symbol .leftParen)
    (hbracket : s.kind ≠ .symbol .leftBracket) (hdot : s.kind ≠ .symbol .dot) :
    trailers again (m + 1) e s = .ok e s := by
  change (if (s.next.span.line == s.last.span.line && s.kind == .symbol .leftParen) = true then _
    else _ : Parser Expr) s = _
  rw [if_neg (by simp [hparen]), if_neg (by simp [hbracket]), if_neg (by simp [hdot])]
  rfl

/-- What a parser made of two replies with comes from the second one. -/
theorem exists_of_bind {α β : Type} {p : Parser α} {f : α → Parser β} {b : β}
    (h : (p >>= f) s = .ok b t) : ∃ a u, p s = .ok a u ∧ f a u = .ok b t := by
  cases hp : p s with
  | ok a u => exact ⟨a, u, rfl, by rwa [bind_of_ok hp] at h⟩
  | error fault u => rw [bind_of_error hp] at h; cases h
  | exhausted => rw [bind_of_exhausted hp] at h; cases h

theorem exists_of_expect {k : Kind} {wanted : String} {u : Token}
    (h : expect k wanted s = .ok u t) :
    s.kind = k ∧ u = s.next ∧ t = s.advance := by
  by_cases hs : s.kind = k
  · rw [expect_of_eq hs] at h
    cases h
    exact ⟨hs, rfl, rfl⟩
  · rw [expect_of_ne hs] at h
    cases h

theorem exists_of_expectName {wanted name : String} (h : expectName wanted s = .ok name t) :
    s.kind = .ident name ∧ t = s.advance := by
  unfold expectName at h
  split at h
  · next hs => cases h; exact ⟨hs, rfl⟩
  · cases h

/-- A parser that replies is further on among the tokens. -/
theorem Keeps.at {α : Type} {p : Parser α} {a : α} {v : List Token} {i : Nat} (hp : Keeps p)
    (hs : s.At v i) (hi : 0 < i) (h : p s = .ok a t) : ∃ j, 0 < j ∧ t.At v j := by
  have hkept := hp s
  rw [h] at hkept
  obtain ⟨j, hle, ht⟩ := hs.travels hkept.1
  exact ⟨j, Nat.lt_of_lt_of_le hi hle, ht⟩

variable {first : Nat} {tokens : List Token} {i : Nat}

/-- What an operand goes on with is what the text says. -/
theorem trails_of_trailers (hread : tokenizeAt first source = .ok tokens) (hagain : again.Keep)
    (hs : s.At (vector tokens) i) (hi : 0 < i) (h : trailers again m e s = .ok e' t) :
    Trails source again e s e' t := by
  induction m generalizing e s i with
  | zero => cases h
  | succ m ih =>
    have hline := hs.line_eq_iff hread hi
    obtain ⟨j, hj, hnext⟩ := Keeps.take.at hs hi rfl
    by_cases hparen : s.kind = .symbol .leftParen
    · rw [trailers_of_leftParen hparen] at h
      split at h
      · next heq =>
        obtain ⟨e₁, s₁, hcall, hrest⟩ := exists_of_bind h
        obtain ⟨k, hk, hs₁⟩ := (keeps_callRest hagain e).at hnext hj hcall
        exact .call hparen (hline.mp heq) hcall (ih hs₁ hk hrest)
      · next hne =>
        cases h
        exact .ends (by rw [hparen]; simp) fun _ => not_not.mp (mt hline.mpr hne)
    by_cases hbracket : s.kind = .symbol .leftBracket
    · rw [trailers_of_leftBracket hbracket] at h
      split at h
      · next heq =>
        obtain ⟨key, s₁, hkey, hrest⟩ := exists_of_bind h
        obtain ⟨close, s₂, hmark, hrest⟩ := exists_of_bind hrest
        obtain ⟨hclose, rfl, rfl⟩ := exists_of_expect hmark
        obtain ⟨k, hk, hs₁⟩ := hagain.expression.at hnext hj hkey
        obtain ⟨l, hl, hs₂⟩ := Keeps.take.at hs₁ hk rfl
        exact .index hbracket (hline.mp heq) hkey hclose (ih hs₂ hl hrest)
      · next hne =>
        cases h
        exact .ends (by rw [hbracket]; simp) fun _ => not_not.mp (mt hline.mpr hne)
    by_cases hdot : s.kind = .symbol .dot
    · rw [trailers_of_dot hdot] at h
      obtain ⟨name, s₁, hword, hrest⟩ := exists_of_bind h
      obtain ⟨hname, rfl⟩ := exists_of_expectName hword
      obtain ⟨k, hk, hs₁⟩ := Keeps.take.at hnext hj rfl
      exact .get hdot hname (ih hs₁ hk hrest)
    · rw [trailers_of_ne hparen hbracket hdot] at h
      cases h
      exact .ends hdot fun hopen => absurd hopen (not_or.mpr ⟨hparen, hbracket⟩)

/-- An operand goes on with everything the text says, if there is room for it. -/
theorem exists_trailers_of_trails (hread : tokenizeAt first source = .ok tokens)
    (hagain : again.Keep) (hs : s.At (vector tokens) i) (hi : 0 < i)
    (h : Trails source again e s e' t) :
    ∃ m, ∀ k, m ≤ k → trailers again k e s = .ok e' t := by
  have hgo {e₁ e₂ : Expr} {s₁ s₂ : State} {r : Nat → Reply Expr} (m : Nat)
      (hm : ∀ k, m ≤ k → trailers again k e₁ s₁ = .ok e₂ s₂)
      (hstep : ∀ k, r (k + 1) = trailers again k e₁ s₁) :
      ∃ m, ∀ k, m ≤ k → r k = .ok e₂ s₂ := by
    refine ⟨m + 1, fun k hk => ?_⟩
    obtain ⟨k, rfl⟩ := Nat.exists_eq_add_of_lt hk
    rw [hstep]
    exact hm _ (Nat.le_add_right m k)
  induction h generalizing i with
  | @ends e s hdot hopen =>
    refine ⟨1, fun k hk => ?_⟩
    obtain ⟨k, rfl⟩ := Nat.exists_eq_add_of_le' hk
    have hne (hbroken : s.Broken source) : s.next.span.line ≠ s.last.span.line :=
      fun heq => (hs.line_eq_iff hread hi).mp heq hbroken
    by_cases hparen : s.kind = .symbol .leftParen
    · rw [trailers_of_leftParen hparen, if_neg (hne (hopen (.inl hparen)))]
    by_cases hbracket : s.kind = .symbol .leftBracket
    · rw [trailers_of_leftBracket hbracket, if_neg (hne (hopen (.inr hbracket)))]
    · exact trailers_of_ne hparen hbracket hdot
  | @call e e₁ e' s s₁ t hparen hline hcall hrest ih =>
    obtain ⟨j, hj, hnext⟩ := Keeps.take.at hs hi rfl
    obtain ⟨k, hk, hs₁⟩ := (keeps_callRest hagain e).at hnext hj hcall
    obtain ⟨m, hm⟩ := ih hs₁ hk
    refine hgo m hm fun k => ?_
    rw [trailers_of_leftParen hparen, if_pos ((hs.line_eq_iff hread hi).mpr hline),
      bind_of_ok hcall]
  | @index e key e' s s₁ t hbracket hline hkey hclose hrest ih =>
    obtain ⟨j, hj, hnext⟩ := Keeps.take.at hs hi rfl
    obtain ⟨k, hk, hs₁⟩ := hagain.expression.at hnext hj hkey
    obtain ⟨l, hl, hs₂⟩ := Keeps.take.at hs₁ hk rfl
    obtain ⟨m, hm⟩ := ih hs₂ hl
    refine hgo m hm fun k => ?_
    have hmark : expectMark .rightBracket "expected ']' after index" s₁ = .ok s₁.next s₁.advance :=
      expect_of_eq hclose
    rw [trailers_of_leftBracket hbracket, if_pos ((hs.line_eq_iff hread hi).mpr hline),
      bind_of_ok hkey, bind_of_ok hmark]
  | @get e e' name s t hdot hname hrest ih =>
    obtain ⟨j, hj, hnext⟩ := Keeps.take.at hs hi rfl
    obtain ⟨k, hk, hs₁⟩ := Keeps.take.at hnext hj rfl
    obtain ⟨m, hm⟩ := ih hs₁ hk
    refine hgo m hm fun k => ?_
    have hname' : expectName "expected property name after '.'" s.advance
        = .ok name s.advance.advance := by
      unfold expectName
      rw [hname]
    rw [trailers_of_dot hdot, bind_of_ok hname']
    rfl

end Operands

/-! ## How a statement ends -/

/-- A statement that the end of a line ends: what is read of it, what is wanted behind that, and the
statement it makes. -/
structure Ending where
  {Read : Type}
  own : Parser Read
  wanted : Read → String
  finish : Read → Parser Stmt

/-- The statement's own tokens and its end. -/
def Ending.parser (ending : Ending) : Parser Stmt := do
  let read ← ending.own
  endStatement (ending.wanted read)
  ending.finish read

section Endings

variable (again : Productions) (n : Nat)

/-- A binding, by its name, its value and its place. -/
def bindingEnding (constant : Bool) : Ending where
  own := do
    let span := (← take).span
    let name ← expectName "expected variable name"
    let initial ← if ← acceptMark .assign then some <$> again.expression else pure none
    return (name, initial, span)
  wanted _ := "expected ';' or newline after variable declaration"
  finish := fun (name, initial, span) => pure (.binding name initial constant span)

/-- An import, by its path and its place. -/
def importEnding : Ending where
  own := do
    let span := (← take).span
    let name ← expectName "expected package or type name"
    return (name :: (← pathRest n), span)
  wanted _ := "expected ';' or newline after import"
  finish := fun (path, span) => pure (.importType path span)

/-- A return, by its value and its place. -/
def returnEnding : Ending where
  own := do
    let span := (← take).span
    let next ← peek
    let endsHere := next.kind == .symbol .semicolon || next.kind == .symbol .rightBrace
      || next.kind == .eof || span.line < next.span.line
    let value ← if endsHere then pure none else some <$> again.expression
    return (value, span)
  wanted _ := "expected ';' or newline after return value"
  finish := fun (value, span) => pure (.ret value span)

/-- A statement that is a single word. -/
def wordEnding (wanted : String) (stmt : Span → Stmt) : Ending where
  own := take
  wanted _ := wanted
  finish token := pure (stmt token.span)

/-- An expression, or what it is assigned with the operator and its place. -/
def expressionEnding : Ending where
  own := do
    let target ← expression again n
    match assignment? (← peek).kind with
    | none => return (target, none)
    | some op =>
      let place := (← take).span
      return (target, some (op, place, ← again.expression))
  wanted := fun
    | (_, none) => "expected ';' or newline after expression"
    | (_, some _) => "expected ';' or newline after assignment"
  finish := fun
    | (target, none) => pure (.expr target)
    | (target, some (op, place, value)) =>
      match assignTo op value target with
      | some stmt => pure stmt
      | none => failAt .invalidAssignmentTarget place

/-- The words and the mark that begin other statements. -/
def otherOpeners : List Kind :=
  [.keyword .kwIf, .keyword .kwWhile, .keyword .kwFor, .keyword .kwSwitch, .keyword .kwReturn,
    .keyword .kwTry, .keyword .kwBreak, .keyword .kwContinue, .keyword .kwClass, .keyword .kwVar,
    .keyword .kwVal, .keyword .kwImport, .symbol .leftBrace]

/-- The statements that the end of a line ends, by the token they begin with. -/
inductive Simple (s : State) : Ending → Prop
  | var (hs : s.kind = .keyword .kwVar) : Simple s (bindingEnding again false)
  | val (hs : s.kind = .keyword .kwVal) : Simple s (bindingEnding again true)
  | importType (hs : s.kind = .keyword .kwImport) : Simple s (importEnding n)
  | ret (hs : s.kind = .keyword .kwReturn) : Simple s (returnEnding again)
  | brk (hs : s.kind = .keyword .kwBreak) :
      Simple s (wordEnding "expected ';' or newline after 'break'" .brk)
  | cont (hs : s.kind = .keyword .kwContinue) :
      Simple s (wordEnding "expected ';' or newline after 'continue'" .cont)
  | expression (hs : s.kind ∉ otherOpeners)
      (hfun : s.kind = .keyword .kwFun → nameFollows s = false) :
      Simple s (expressionEnding again n)

end Endings

section Statements

variable {again : Productions} {n : Nat} {s t : State}

theorem bind_pure_comp {α : Type} (p : Parser α) : p >>= pure = p := by
  funext s
  simp only [Bind.bind]
  cases p s <;> rfl

theorem bind_assoc_comp {α β γ : Type} (p : Parser α) (f : α → Parser β) (g : β → Parser γ) :
    (p >>= f) >>= g = p >>= fun a => f a >>= g := by
  funext s
  simp only [Bind.bind]
  cases p s <;> rfl

instance : LawfulMonad Parser :=
  LawfulMonad.mk' Parser (fun p => bind_pure_comp p) (fun _ _ => rfl) bind_assoc_comp

theorem choose_bind {α β : Type} {c : Prop} [Decidable c] (p q : Parser α) (f : α → Parser β) :
    (if c then p else q) >>= f = if c then p >>= f else q >>= f := apply_ite (· >>= f) c p q

theorem binding_eq (constant : Bool) :
    binding again constant = (bindingEnding again constant).parser := by
  simp only [binding, Ending.parser, bindingEnding, bind_assoc, pure_bind, choose_bind]

theorem importDeclaration_eq : importDeclaration n = (importEnding n).parser := by
  simp only [importDeclaration, Ending.parser, importEnding, bind_assoc, pure_bind]

theorem returnStatement_eq : returnStatement again = (returnEnding again).parser := by
  simp only [returnStatement, Ending.parser, returnEnding, bind_assoc, pure_bind,
    choose_bind]

theorem expressionStatement_eq :
    expressionStatement again n = (expressionEnding again n).parser := by
  simp only [expressionStatement, Ending.parser, expressionEnding, bind_assoc]
  congr 1
  funext target
  congr 1
  funext token
  cases assignment? token.kind with
  | none => rfl
  | some op =>
    rw [bind_assoc]
    refine bind_congr fun place => ?_
    rw [bind_assoc]
    refine bind_congr fun value => ?_
    exact (pure_bind _ _).symm

/-- No word begins another statement there, so an expression begins. -/
theorem statement_eq (hs : s.kind ∉ otherOpeners) :
    statement again n s = expressionStatement again n s := by
  have hpeek : peek s = .ok s.next s := rfl
  unfold statement
  rw [bind_of_ok hpeek]
  refine congrFun ?_ s
  split
  case h_10 => rfl
  all_goals
    next hkind =>
      have hkind : s.kind = _ := hkind
      rw [hkind] at hs
      exact absurd (by decide) hs

/-- A statement is read as its first token says. -/
theorem Simple.anyStatement_eq {ending : Ending} (h : Simple again n s ending) :
    anyStatement again n s = ending.parser s := by
  cases h with
  | var hs =>
    rw [← binding_eq]
    simp only [anyStatement, Bind.bind, state, hs]
  | val hs =>
    rw [← binding_eq]
    simp only [anyStatement, Bind.bind, state, hs]
  | importType hs =>
    rw [← importDeclaration_eq]
    simp only [anyStatement, Bind.bind, state, hs]
  | ret hs =>
    rw [← returnStatement_eq]
    have hnext : s.next.kind = .keyword .kwReturn := hs
    simp only [anyStatement, statement, Bind.bind, state, peek, hs, hnext]
  | brk hs =>
    have hnext : s.next.kind = .keyword .kwBreak := hs
    simp only [anyStatement, statement, Bind.bind, state, peek, hs, hnext]
    rfl
  | cont hs =>
    have hnext : s.next.kind = .keyword .kwContinue := hs
    simp only [anyStatement, statement, Bind.bind, state, peek, hs, hnext]
    rfl
  | expression hs hfun =>
    rw [← expressionStatement_eq, ← statement_eq hs]
    have hstate : state s = .ok s s := rfl
    unfold anyStatement
    rw [bind_of_ok hstate]
    refine congrFun ?_ s
    split
    case h_1 hkind => rw [hfun hkind]; rfl
    case h_6 => rfl
    all_goals
      next hkind =>
        rw [hkind] at hs
        exact absurd (by decide) hs

/-- The same where no declaration may stand. -/
theorem Simple.statement_eq {ending : Ending} (h : Simple again n s ending)
    (hs : s.kind ∉ [.keyword .kwVar, .keyword .kwVal, .keyword .kwImport]) :
    statement again n s = ending.parser s := by
  rw [← h.anyStatement_eq]
  have hstate : state s = .ok s s := rfl
  unfold anyStatement
  rw [bind_of_ok hstate]
  refine congrFun ?_ s
  split
  case h_1 hkind =>
    cases h with
    | expression _ hfun => rw [hfun hkind]; rfl
    | _ hs' => rw [hkind] at hs'; cases hs'
  case h_2 hkind =>
    cases h with
    | expression hother => rw [hkind] at hother; exact absurd (by decide) hother
    | _ hs' => rw [hkind] at hs'; cases hs'
  case h_6 => rfl
  all_goals
    next hkind =>
      rw [hkind] at hs
      exact absurd (by decide) hs

/-! ### A token was taken -/

section Begun

variable {α β : Type} {p : Parser α} {f : α → Parser β}

/-- If the parser replies with a value, a token was taken. -/
def BegunAt (p : Parser α) (s : State) : Prop := ∀ a t, p s = .ok a t → t.previous ≠ none

theorem Travels.begun (h : Travels s t) (hs : s.previous ≠ none) : t.previous ≠ none := by
  obtain ⟨passed, -, hprevious⟩ := h.passed
  rw [hprevious]
  intro hnone
  exact hs (Option.or_eq_none_iff.mp hnone).2

theorem BegunAt.bind (hp : BegunAt p s) (hf : ∀ a, Keeps (f a)) : BegunAt (p >>= f) s := by
  intro b u h
  obtain ⟨a, t, hfirst, hsecond⟩ := exists_of_bind h
  have hkept := hf a t
  rw [hsecond] at hkept
  exact hkept.1.begun (hp a t hfirst)

theorem begunAt_take (hs : s.kind ≠ .eof) : BegunAt take s := by
  intro a t h
  cases h
  obtain ⟨u, us, hrest⟩ := List.exists_cons_of_ne_nil (State.rest_ne_nil hs)
  rw [State.advance, hrest]
  exact Option.some_ne_none u

theorem BegunAt.take {g : Token → Parser β} {k : Kind} (hs : s.next.kind = k) (hk : k ≠ .eof)
    (hg : ∀ t, Keeps (g t)) : BegunAt (Parser.take >>= g) s :=
  (begunAt_take (by rw [State.kind, hs]; exact hk)).bind hg

/-- Looking at a token takes nothing. -/
theorem BegunAt.peek {g : Token → Parser β} (h : BegunAt (g s.next) s) :
    BegunAt (Parser.peek >>= g) s :=
  h

theorem begunAt_primary (h : again.Keep) (s : State) : BegunAt (primary again n) s := by
  refine .peek ?_
  simp only
  split
  case h_9 hkind => exact .take hkind nofun fun _ => (keeps_templateParts _ _).bind fun _ => .pure _
  case h_10 hkind =>
    exact .take hkind nofun fun _ => (keeps_functionRest h n _ _).bind fun _ => .pure _
  case h_11 hkind =>
    exact .take hkind nofun fun _ => h.expression.bind fun _ =>
      (Takes.expectMark _ _).keeps.bind fun _ => .pure _
  case h_12 hkind => exact .take hkind nofun fun _ => keeps_listLiteral h n _
  case h_13 hkind => exact .take hkind nofun fun _ => keeps_mapLiteral h n _
  case h_14 => exact nofun
  all_goals
    next hkind => exact .take hkind nofun fun _ => .pure _

theorem begunAt_unary (h : again.Keep) (s : State) : BegunAt (unary again n) s := by
  refine .peek ?_
  simp only
  split
  · next op hop =>
    refine .take rfl (fun hkind => ?_) fun _ => h.unary.bind fun _ => .pure _
    rw [hkind] at hop
    cases hop
  · exact (begunAt_primary h s).bind fun _ => keeps_trailers h n _

theorem begunAt_levels (levels : List (List (Symbol × (Expr → Expr → Expr))))
    {operand : Parser Expr} (hkeeps : Keeps operand) (hbegun : ∀ s, BegunAt operand s) (s : State) :
    BegunAt (levels.foldl (fun operand operators => chain (operatorIn operators) operand n)
      operand) s := by
  induction levels generalizing operand with
  | nil => exact hbegun s
  | cons operators levels ih =>
    exact ih (hkeeps.bind fun left => keeps_chainFrom hkeeps n left)
      fun s => (hbegun s).bind fun left => keeps_chainFrom hkeeps n left

theorem begunAt_expression (h : again.Keep) (s : State) : BegunAt (expression again n) s :=
  begunAt_levels levels (takes_unary h n).keeps (begunAt_unary h) s

end Begun

/-- What is read of a statement is further on among the tokens, and there is something of it. -/
theorem Simple.keeps {ending : Ending} (h : Simple again n s ending) (hagain : again.Keep) :
    Keeps ending.own ∧ BegunAt ending.own s := by
  have htaken {β : Type} {g : Token → Parser β} {k : Kind} (hs : s.kind = k) (hk : k ≠ .eof)
      (hg : ∀ t, Keeps (g t)) : Keeps (take >>= g) ∧ BegunAt (take >>= g) s :=
    ⟨Keeps.take.bind hg, .take hs hk hg⟩
  have hbinding (token : Token) : Keeps (do
      let name ← expectName "expected variable name"
      let initial ← if ← acceptMark .assign then some <$> again.expression else pure none
      return (name, initial, token.span)) := by
    refine (Takes.expectName _).keeps.bind fun _ => (Keeps.accept _).bind fun _ => ?_
    exact .ite_bind (hagain.expression.map _) (.pure _) fun _ => .pure _
  cases h with
  | var hs => exact htaken hs nofun hbinding
  | val hs => exact htaken hs nofun hbinding
  | importType hs =>
    exact htaken hs nofun fun _ => (Takes.expectName _).keeps.bind fun _ =>
      (keeps_pathRest n).bind fun _ => .pure _
  | ret hs =>
    exact htaken hs nofun fun _ => Keeps.peek.bind fun _ =>
      .ite_bind (.pure _) (hagain.expression.map _) fun _ => .pure _
  | brk hs => exact ⟨.take, begunAt_take (by rw [hs]; nofun)⟩
  | cont hs => exact ⟨.take, begunAt_take (by rw [hs]; nofun)⟩
  | expression hs hfun =>
    have hmore (target : Expr) : Keeps (do
        match assignment? (← peek).kind with
        | none => return (target, none)
        | some op =>
          let place := (← take).span
          return (target, some (op, place, ← again.expression))) := by
      refine Keeps.peek.bind fun token => ?_
      split
      · exact .pure _
      · exact Keeps.take.bind fun _ => hagain.expression.bind fun _ => .pure _
    exact ⟨(takes_expression hagain n).keeps.bind hmore, (begunAt_expression hagain s).bind hmore⟩

/-- Where nothing else ends a statement, a line does. -/
theorem Ending.parser_of_open {ending : Ending} {read : ending.Read} {first : Nat} {source : String}
    {tokens : List Token} {i : Nat} (hread : tokenizeAt first source = .ok tokens)
    (hown : ending.own s = .ok read t) (ht : t.At (vector tokens) i) (hi : 0 < i)
    (hmark : t.kind ≠ .symbol .semicolon) (hopen : t.kind.endsStatement = false) :
    ending.parser s = if t.Broken source then ending.finish read t
      else unexpected (ending.wanted read) t := by
  have hend := endStatement_of_ne (ending.wanted read) hmark
  rw [hopen, Bool.false_or] at hend
  have hlines := (ht.lines hread hi).2
  unfold Ending.parser
  rw [bind_of_ok hown]
  by_cases hbroken : t.Broken source
  · rw [if_pos (decide_eq_true (hlines.mpr hbroken))] at hend
    rw [if_pos hbroken, bind_of_ok hend]
  · rw [if_neg (by simpa using mt hlines.mp hbroken)] at hend
    rw [if_neg hbroken, bind_of_error hend]
    rfl

end Statements

/-- **Line breaks are judged by the text.** The parsing functions stay among the tokens of a text.
Where they stand behind one, a parenthesis or a bracket is taken to go on with an operand, unless a
newline lies in the token taken last or between the two; and so on behind that, until the operand is
complete. A statement that is no block and that nothing else ends is accepted if a newline lies in
its last token or behind it, and otherwise the next token is refused. The token taken last matters
only if it is a string or a template. -/
theorem line_breaks_by_text {first : Nat} {source : String} {tokens : List Token}
    (hread : tokenizeAt first source = .ok tokens) (n : Nat) :
    ((State.ofTokens tokens).At (vector tokens) 0 ∧
      ∀ {α : Type} (p : Parser α), ParsingFunction n p → ∀ s i, s.At (vector tokens) i →
        ∀ t ∈ (p s).state?, ∃ j, i ≤ j ∧ t.At (vector tokens) j) ∧
    (∀ s i, s.At (vector tokens) i → 0 < i →
      (s.last.kind.mayBreak = false → (s.Broken source ↔
        '\n' ∈ (textBetween source s.last.span.stop s.next.span.start).toList)) ∧
      (∀ m e, s.kind = .symbol .leftParen → trailers (productions n) (m + 1) e s =
        if s.Broken source then .ok e s
        else (callRest (productions n) e >>= trailers (productions n) m) s.advance) ∧
      (∀ m e, s.kind = .symbol .leftBracket → trailers (productions n) (m + 1) e s =
        if s.Broken source then .ok e s
        else ((productions n).expression >>= fun key =>
          expectMark .rightBracket "expected ']' after index" >>= fun close =>
            trailers (productions n) m (.index e key (e.span.upTo close.span))) s.advance) ∧
      ∀ e e' t, Trails source (productions n) e s e' t ↔
        ∃ m, ∀ k, m ≤ k → trailers (productions n) k e s = .ok e' t) ∧
    ∀ s i, s.At (vector tokens) i → ∀ ending, Simple (productions n) n s ending →
      ∀ read t, ending.own s = .ok read t → t.kind ≠ .symbol .semicolon →
        t.kind.endsStatement = false →
        anyStatement (productions n) n s = (if t.Broken source then ending.finish read t
          else unexpected (ending.wanted read) t) ∧
        (s.kind ∉ [.keyword .kwVar, .keyword .kwVal, .keyword .kwImport] →
          statement (productions n) n s = if t.Broken source then ending.finish read t
            else unexpected (ending.wanted read) t) := by
  have hagain := productions_keep n
  refine ⟨⟨at_ofTokens tokens, fun p hp s i hs t ht => hs.travels (hp.travels s t ht)⟩,
    fun s i hs hi => ⟨hs.broken_iff hread hi, fun m e hparen => ?_, fun m e hbracket => ?_,
      fun e e' t => ⟨exists_trailers_of_trails hread hagain hs hi, fun ⟨m, hm⟩ =>
        trails_of_trailers hread hagain hs hi (hm m (Nat.le_refl m))⟩⟩,
    fun s i hs ending h read t hown hmark hopen => ?_⟩
  · rw [trailers_of_leftParen hparen]
    simp only [hs.line_eq_iff hread hi, ite_not]
  · rw [trailers_of_leftBracket hbracket]
    simp only [hs.line_eq_iff hread hi, ite_not]
  · obtain ⟨hkeeps, hbegun⟩ := h.keeps hagain
    have hkept := hkeeps s
    rw [hown] at hkept
    obtain ⟨j, -, ht⟩ := hs.travels hkept.1
    have hj : 0 < j := by
      rw [Nat.pos_iff_ne_zero]
      rintro rfl
      exact hbegun read t hown ht.previous
    have hparser := Ending.parser_of_open hread hown ht hj hmark hopen
    exact ⟨h.anyStatement_eq.trans hparser, fun hdeclares => (h.statement_eq hdeclares).trans
      hparser⟩

/-- A string over two lines, and a bracket that stands close to it. -/
def spreadString : String := "\"a\nb\"[x]"

/-- Its tokens. -/
def spreadTokens : List Token :=
  [⟨.string "a\nb", ⟨0, 5, 1, 1⟩, "\"a\nb\""⟩, ⟨.symbol .leftBracket, ⟨5, 6, 2, 3⟩, "["⟩,
    ⟨.ident "x", ⟨6, 7, 2, 4⟩, "x"⟩, ⟨.symbol .rightBracket, ⟨7, 8, 2, 5⟩, "]"⟩,
    ⟨.eof, ⟨8, 8, 2, 6⟩, ""⟩]

/-- The bracket does not go on with the string, although no newline lies between them. -/
theorem line_breaks_by_text_spread :
    tokenizeAt 1 spreadString = .ok spreadTokens ∧
      let s := (State.ofTokens spreadTokens).advance
      s.At (vector spreadTokens) 1 ∧ s.kind = .symbol .leftBracket ∧
        '\n' ∉ (textBetween spreadString s.last.span.stop s.next.span.start).toList ∧
        ∀ n m e, trailers (productions n) (m + 1) e s = .ok e s := by
  have hread : tokenizeAt 1 spreadString = .ok spreadTokens := by
    have hmap : (tokenizeAt 1 spreadString).toOption = some spreadTokens := by decide +kernel
    cases hread : tokenizeAt 1 spreadString with
    | error fault => rw [hread] at hmap; cases hmap
    | ok tokens => rw [hread] at hmap; exact congrArg Except.ok (Option.some.inj hmap)
  have hdrop : (vector spreadTokens).drop 1
      = (State.ofTokens spreadTokens).advance.rest ++ ⟨.eof, ⟨8, 8, 2, 6⟩, ""⟩ :: [] := rfl
  have hs : (State.ofTokens spreadTokens).advance.At (vector spreadTokens) 1 :=
    State.at_of_ahead hdrop rfl rfl (by decide) rfl
  refine ⟨hread, hs, rfl, by decide +kernel, fun n m e => ?_⟩
  rw [((line_breaks_by_text hread n).2.1 _ 1 hs Nat.one_pos).2.2.1 m e rfl, if_pos]
  decide +kernel

end Parser

end ScriptEngine
