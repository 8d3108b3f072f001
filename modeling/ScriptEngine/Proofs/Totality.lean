import ScriptEngine.Proofs.Progress
/-!
# The parser is total

Every parsing function comes to a reply in front of all tokens, at a place among them and in the
block it was started in; and a whole text costs a token for each statement and each fault.

* `Parser.productions_keep` : the productions travel without adding to the tally.
* `Parser.State.At` : a parser stands at an index of the tokens it was given.
* `Parser.ParsingFunction` : the parsing functions.
* `Parser.parser_total` : reading the whole text ends, inside the tokens, in the blocks it began in,
  with no more statements and faults than there are tokens.

The parsing functions are all those of the grammar. How deep their own calls nest on a machine is
out of scope; the budget counts it, and it is at most the number of tokens.
-/

namespace ScriptEngine.Parser

/-! ## The parts of the grammar -/

/-- Productions that may be started again without adding to the tally. A declaration is only
started in front of something, and not in front of the brace that closes the block. -/
structure Productions.Keep (again : Productions) : Prop where
  expression : Keeps again.expression
  unary : Keeps again.unary
  statement : Keeps again.statement
  declaration : ∀ s : State, s.rest ≠ [] → (s.kind = .symbol .rightBrace → s.depth = 0) →
    Counts (·.toList.length) s (again.declaration s)

theorem Counts.kept {α : Type} {size : α → Nat} {s : State} {r : Reply α} (h : Counts size s r) :
    Kept s r := by
  cases r with
  | ok a t => exact ⟨h.1, Nat.le_of_add_right_le h.2⟩
  | error fault t => exact h
  | exhausted => trivial

section Parts

variable {again : Productions} (h : again.Keep) (n : Nat)

include h

/-! ### Blocks and functions -/

theorem counts_step {stops : Kind → Bool} {s : State}
    (hstops : stops (.symbol .rightBrace) = true ∨ s.depth = 0) :
    Counts (fun items => (items.getD []).length) s (step again stops s) := by
  by_cases hend : s.kind = .eof ∨ stops s.kind = true
  · rw [step_of_end hend]
    exact ⟨.refl s, Nat.le_refl _⟩
  rw [not_or, Bool.not_eq_true] at hend
  by_cases hmark : s.kind = .symbol .semicolon
  · rw [step_of_semicolon hmark hend.2]
    exact ⟨.advance s, s.tally_advance_le⟩
  have hbrace : s.kind = .symbol .rightBrace → s.depth = 0 := by
    intro hkind
    rcases hstops with hstops | hdepth
    · rw [hkind, hstops] at hend
      exact absurd hend.2 (by decide)
    · exact hdepth
  have hdeclaration := h.declaration s (State.rest_ne_nil hend.1) hbrace
  rw [step_of_declaration again stops hend.1 hend.2 hmark]
  cases hreply : again.declaration s with
  | ok stmt? t =>
    rw [hreply] at hdeclaration
    rw [bind_of_ok hreply]
    exact hdeclaration
  | error fault t =>
    rw [hreply] at hdeclaration
    rw [bind_of_error hreply]
    exact hdeclaration
  | exhausted =>
    rw [bind_of_exhausted hreply]
    trivial

/-- A sequence costs a token for each statement. -/
theorem counts_sequence {stops : Kind → Bool} {s : State}
    (hstops : stops (.symbol .rightBrace) = true ∨ s.depth = 0) :
    Counts List.length s (sequence again n stops s) := by
  rw [sequence_eq_gather]
  let Good (t : State) : Prop := stops (.symbol .rightBrace) = true ∨ t.depth = 0
  have htravels {t u : State} (ht : Good t) (hu : Travels t u) : Good u :=
    ht.imp_right hu.depth.trans
  exact counts_gather n hstops htravels fun t ht => counts_step h ht

theorem keeps_nested_sequence {stops : Kind → Bool} (hstops : stops (.symbol .rightBrace) = true) :
    Keeps (nested (sequence again n stops)) :=
  fun _ => .nested (counts_sequence h n (.inl hstops)).kept

theorem keeps_block : Keeps (block again n) :=
  (keeps_nested_sequence h n rfl).bind fun _ => (Takes.expectMark _ _).keeps.bind fun _ => .pure _

theorem keeps_functionRest (name : Option String) (span : Span) :
    Keeps (functionRest again n name span) := by
  refine (Takes.expectMark _ _).keeps.bind fun _ => (Keeps.check _).bind fun _ => ?_
  refine .ite_bind (.pure _) (keeps_separated (Takes.expectName _).keeps _) fun params => ?_
  refine (Takes.expectMark _ _).keeps.bind fun _ => ?_
  refine .ite_bind (.accept _) (.pure _) fun short => .ite ?_ ?_
  · exact h.expression.bind fun _ => .pure _
  · exact (Takes.expectMark _ _).keeps.bind fun _ => (keeps_block h n).bind fun _ => .pure _

/-! ### Expressions -/

omit h in
/-- Embedded code is read from tokens of its own. -/
theorem keeps_embedded (code : String) (span : Span) : Keeps (embedded again code span) := by
  intro s
  unfold embedded
  cases Token.tokenizeAt span.line code with
  | error fault => exact Keeps.stuck _ s
  | ok tokens =>
    simp only
    split
    · trivial
    · exact Keeps.stuck _ s
    · split
      · exact Keeps.stuck _ s
      · split
        · exact Keeps.stuck _ s
        · exact Keeps.stay s

omit h in
theorem keeps_templateParts (span : Span) (pieces : List Template.Piece) :
    Keeps (templateParts again span pieces) := by
  induction pieces with
  | nil => exact .pure _
  | cons piece pieces ih =>
    cases piece with
    | text cs => exact ih.bind fun _ => .pure _
    | unmatched => exact .fail _
    | code cs =>
      exact .ite (.fail _) ((keeps_embedded _ span).bind fun _ => ih.bind fun _ => .pure _)

theorem keeps_listLiteral (span : Span) : Keeps (listLiteral again n span) := by
  refine (Keeps.check _).bind fun _ => ?_
  refine .ite_bind (.pure _) (keeps_trailing _ h.expression n) fun elements => ?_
  exact (Takes.expectMark _ _).keeps.bind fun _ => .pure _

theorem keeps_mapEntry : Keeps (mapEntry again) := by
  refine Keeps.peek.bind fun token => ?_
  split
  case h_3 => exact (Keeps.unexpected _).bind fun _ => Keeps.take.bind fun _ =>
    (Takes.expectMark _ _).keeps.bind fun _ => h.expression.bind fun _ => .pure _
  all_goals
    exact (Keeps.pure _).bind fun _ => Keeps.take.bind fun _ =>
      (Takes.expectMark _ _).keeps.bind fun _ => h.expression.bind fun _ => .pure _

theorem keeps_mapLiteral (span : Span) : Keeps (mapLiteral again n span) := by
  refine (Keeps.check _).bind fun _ => ?_
  refine .ite_bind (.pure _) (keeps_trailing _ (keeps_mapEntry h) n) fun entries => ?_
  exact (Takes.expectMark _ _).keeps.bind fun _ => .pure _

theorem takes_primary : Takes (primary again n) := by
  intro s
  refine .peek ?_
  simp only
  split
  case h_9 body hkind =>
    have hne : s.kind ≠ .eof := by rw [State.kind, hkind]; simp
    exact .take hne fun _ => (keeps_templateParts _ _).bind fun _ => .pure _
  case h_10 hkind =>
    have hne : s.kind ≠ .eof := by rw [State.kind, hkind]; simp
    exact .take hne fun _ => (keeps_functionRest h n _ _).bind fun _ => .pure _
  case h_11 hkind =>
    have hne : s.kind ≠ .eof := by rw [State.kind, hkind]; simp
    exact .take hne fun _ => h.expression.bind fun _ =>
      (Takes.expectMark _ _).keeps.bind fun _ => .pure _
  case h_12 hkind =>
    exact .take (by rw [State.kind, hkind]; simp) fun _ => keeps_listLiteral h n _
  case h_13 hkind =>
    exact .take (by rw [State.kind, hkind]; simp) fun _ => keeps_mapLiteral h n _
  case h_14 => exact Takes.stuck _ s
  all_goals
    next hkind => exact .take (by rw [State.kind, hkind]; simp) fun _ => .pure _

theorem keeps_callRest (callee : Expr) : Keeps (callRest again callee) := by
  refine (Keeps.check _).bind fun _ => ?_
  refine .ite_bind (.pure _) (keeps_separated h.expression _) fun args => ?_
  exact (Takes.expectMark _ _).keeps.bind fun _ => .pure _

theorem keeps_trailers (e : Expr) : Keeps (trailers again n e) := by
  induction n generalizing e with
  | zero => exact .exhausted
  | succ n ih =>
    refine Keeps.state.bind fun s => ?_
    refine .ite (Keeps.take.bind fun _ => (keeps_callRest h e).bind fun _ => ih _) ?_
    refine .ite (Keeps.take.bind fun _ => h.expression.bind fun _ =>
      (Takes.expectMark _ _).keeps.bind fun _ => ih _) ?_
    refine .ite (Keeps.take.bind fun _ => (Takes.expectName _).keeps.bind fun _ =>
      Keeps.state.bind fun _ => ih _) (.pure e)

theorem takes_unary : Takes (unary again n) := by
  intro s
  refine .peek ?_
  simp only
  split
  · next op hop =>
    have hne : s.kind ≠ .eof := by
      intro hkind
      rw [State.kind] at hkind
      rw [hkind] at hop
      cases hop
    exact .take hne fun _ => h.unary.bind fun _ => .pure _
  · exact ((takes_primary h n).bind fun _ => keeps_trailers h n _) s

theorem takes_expression : Takes (expression again n) := takes_levels n levels (takes_unary h n)

/-! ### Statements -/

omit h in
theorem keeps_endStatement (wanted : String) : Keeps (endStatement wanted) := by
  refine (Keeps.accept _).bind fun _ => .ite (.pure _) (Keeps.state.bind fun _ => ?_)
  exact .ite (.pure _) (.unexpected _)

theorem takesNext_binding (constant : Bool) : TakesNext (binding again constant) := by
  refine .take fun _ => (Takes.expectName _).keeps.bind fun _ => (Keeps.accept _).bind fun _ => ?_
  refine .ite_bind (h.expression.map _) (.pure _) fun initial => ?_
  exact (keeps_endStatement _).bind fun _ => .pure _

theorem takesNext_functionDeclaration : TakesNext (functionDeclaration again n) :=
  .take fun _ => (Takes.expectName _).keeps.bind fun _ =>
    (keeps_functionRest h n _ _).bind fun _ => .pure _

theorem keeps_members (m : Nat) (static : Option (List Stmt)) :
    Keeps (members again n m static) := by
  induction m generalizing static with
  | zero => exact .exhausted
  | succ m ih =>
    refine Keeps.peek.bind fun token => ?_
    split
    · exact .pure _
    · exact .pure _
    · exact Keeps.take.bind fun _ => ih static
    · exact Keeps.take.bind fun _ => (Takes.expectName _).keeps.bind fun _ =>
        (keeps_functionRest h n _ _).bind fun _ => (ih static).bind fun _ => .pure _
    · exact .ite (Keeps.take.bind fun _ => (Takes.expectMark _ _).keeps.bind fun _ =>
        (keeps_block h n).bind fun _ => ih _) (.fail _)
    · exact .fail _

theorem takesNext_classDeclaration : TakesNext (classDeclaration again n) := by
  refine .take fun _ => (Takes.expectName _).keeps.bind fun _ => (Keeps.accept _).bind fun _ => ?_
  refine .ite (Keeps.peek.bind fun _ => (Takes.expectName _).keeps.bind fun _ =>
    (Keeps.pure _).bind fun _ => ?_) ((Keeps.pure _).bind fun _ => ?_)
  all_goals
    exact (Takes.expectMark _ _).keeps.bind fun _ => (keeps_members h n n _).bind fun _ =>
      (Takes.expectMark _ _).keeps.bind fun _ => .pure _

omit h in
theorem keeps_pathRest : Keeps (pathRest n) := by
  induction n with
  | zero => exact .exhausted
  | succ n ih =>
    exact (Keeps.accept _).bind fun _ => .ite ((Takes.expectName _).keeps.bind fun _ =>
      ih.bind fun _ => .pure _) (.pure _)

omit h in
theorem takesNext_importDeclaration : TakesNext (importDeclaration n) :=
  .take fun _ => (Takes.expectName _).keeps.bind fun _ => (keeps_pathRest n).bind fun _ =>
    (keeps_endStatement _).bind fun _ => .pure _

theorem takesNext_conditional : TakesNext (conditional again) := by
  refine .take fun _ => (Takes.expectMark _ _).keeps.bind fun _ => h.expression.bind fun _ => ?_
  refine (Takes.expectMark _ _).keeps.bind fun _ => h.statement.bind fun _ => ?_
  exact (Keeps.accept _).bind fun _ => .ite_bind (h.statement.map _) (.pure _) fun _ => .pure _

theorem takesNext_testedLoop : TakesNext (testedLoop again) :=
  .take fun _ => (Takes.expectMark _ _).keeps.bind fun _ => h.expression.bind fun _ =>
    (Takes.expectMark _ _).keeps.bind fun _ => h.statement.bind fun _ => .pure _

theorem takesNext_itemLoop : TakesNext (itemLoop again) := by
  refine .take fun _ => (Takes.expectMark _ _).keeps.bind fun _ => ?_
  refine (Takes.expectName _).keeps.bind fun _ => (Takes.expect (by simp) _).keeps.bind fun _ => ?_
  exact h.expression.bind fun _ => (Takes.expectMark _ _).keeps.bind fun _ =>
    h.statement.bind fun _ => .pure _

theorem keeps_switchCases (m : Nat) (hasDefault : Bool) :
    Keeps (switchCases again n m hasDefault) := by
  induction m generalizing hasDefault with
  | zero => exact .exhausted
  | succ m ih =>
    refine Keeps.peek.bind fun token => .ite (.pure _) ((Keeps.accept _).bind fun _ => ?_)
    refine .ite (((keeps_trailing _ h.expression n).map _).bind fun _ => ?_)
      ((Keeps.accept _).bind fun _ => .ite (.ite ((Keeps.fail _).bind fun _ => ?_)
        ((Keeps.pure _).bind fun _ => ?_)) ((Keeps.unexpected _).bind fun _ => ?_))
    all_goals
      exact (Takes.expectMark _ _).keeps.bind fun _ =>
        (keeps_nested_sequence h n rfl).bind fun _ => (ih _).bind fun _ => .pure _

theorem takesNext_switchStatement : TakesNext (switchStatement again n) := by
  refine .take fun _ => (Takes.expectMark _ _).keeps.bind fun _ => h.expression.bind fun _ => ?_
  refine (Takes.expectMark _ _).keeps.bind fun _ => (Takes.expectMark _ _).keeps.bind fun _ => ?_
  exact (keeps_switchCases h n n _).bind fun _ => (Takes.expectMark _ _).keeps.bind fun _ => .pure _

theorem takesNext_returnStatement : TakesNext (returnStatement again) := by
  refine .take fun _ => Keeps.peek.bind fun _ => ?_
  refine .ite_bind (.pure _) (h.expression.map _) fun _ => ?_
  exact (keeps_endStatement _).bind fun _ => .pure _

theorem takesNext_attempt : TakesNext (attempt again n) := by
  have hblock := keeps_block h n
  have hmark {mark : Symbol} {wanted : String} := (Takes.expectMark mark wanted).keeps
  refine .take fun _ => hmark.bind fun _ => hblock.bind fun _ => (Keeps.accept _).bind fun _ => ?_
  refine .ite (hmark.bind fun _ => (Takes.expectName _).keeps.bind fun _ => hmark.bind fun _ =>
    hmark.bind fun _ => hblock.bind fun _ => (Keeps.pure _).bind fun _ => ?_)
    ((Keeps.pure _).bind fun _ => ?_)
  all_goals
    refine (Keeps.accept _).bind fun _ => .ite ?_
      ((Keeps.pure _).bind fun _ => .ite (.fail _) (.pure _))
    exact hmark.bind fun _ => (hblock.map _).bind fun _ => .ite (.fail _) (.pure _)

theorem takes_expressionStatement : Takes (expressionStatement again n) := by
  refine (takes_expression h n).bind fun target => Keeps.peek.bind fun token => ?_
  split
  · exact (keeps_endStatement _).bind fun _ => .pure _
  · refine Keeps.take.bind fun _ => h.expression.bind fun _ => ?_
    refine (keeps_endStatement _).bind fun _ => ?_
    split
    · exact .pure _
    · exact .fail _

theorem takes_statement : Takes (statement again n) := by
  intro s
  refine .peek ?_
  have hne {k : Kind} (hkind : s.next.kind = k) (hk : k ≠ .eof) : s.kind ≠ .eof := by
    rw [State.kind, hkind]
    exact hk
  split
  · next hkind => exact (takesNext_conditional h).takes s (hne hkind (by simp))
  · next hkind => exact (takesNext_testedLoop h).takes s (hne hkind (by simp))
  · next hkind => exact (takesNext_itemLoop h).takes s (hne hkind (by simp))
  · next hkind => exact (takesNext_switchStatement h n).takes s (hne hkind (by simp))
  · next hkind => exact (takesNext_returnStatement h).takes s (hne hkind (by simp))
  · next hkind => exact (takesNext_attempt h n).takes s (hne hkind (by simp))
  · next hkind =>
    exact .take (hne hkind (by simp)) fun _ => (keeps_endStatement _).bind fun _ => .pure _
  · next hkind =>
    exact .take (hne hkind (by simp)) fun _ => (keeps_endStatement _).bind fun _ => .pure _
  · next hkind =>
    exact .take (hne hkind (by simp)) fun _ => (keeps_block h n).bind fun _ => .pure _
  · exact takes_expressionStatement h n s

theorem takes_anyStatement : Takes (anyStatement again n) := by
  intro s
  refine .state ?_
  have hne {k : Kind} (hkind : s.kind = k) (hk : k ≠ .eof) : s.kind ≠ .eof := hkind ▸ hk
  split
  · next hkind =>
    split
    · exact (takesNext_functionDeclaration h n).takes s (hne hkind (by simp))
    · exact takes_statement h n s
  · next hkind => exact (takesNext_classDeclaration h n).takes s (hne hkind (by simp))
  · next hkind => exact (takesNext_binding h false).takes s (hne hkind (by simp))
  · next hkind => exact (takesNext_binding h true).takes s (hne hkind (by simp))
  · next hkind => exact (takesNext_importDeclaration n).takes s (hne hkind (by simp))
  · exact takes_statement h n s

end Parts

/-- Whatever the budget is. -/
theorem productions_keep (n : Nat) : (productions n).Keep := by
  induction n with
  | zero => exact ⟨.exhausted, .exhausted, .exhausted, fun _ _ _ => trivial⟩
  | succ n ih =>
    exact {
      expression := (takes_expression ih n).keeps
      unary := (takes_unary ih n).keeps
      statement := (takes_statement ih n).keeps
      declaration := fun s hs hbrace => counts_recover (takes_anyStatement ih n s) hs hbrace }

/-! ## Places among the tokens -/

/-- The tokens a parser is given, as it sees them: without comments, and with an end token behind
them if there is none. -/
def vector (tokens : List Token) : List Token :=
  let seen := tokens.filter fun t => t.kind != .comment
  if seen.getLast?.any (·.kind == .eof) then seen
  else seen ++ [⟨.eof, (seen.getLast?.map Token.span).getD ⟨0, 0, 0, 0⟩, ""⟩]

/-- The parser stands at an index of the tokens: the next token is the one there, the token taken
last is the one before it, and the tokens up to the first end token are ahead. -/
structure State.At (s : State) (v : List Token) (i : Nat) : Prop where
  inside : i < v.length
  next : ∃ t, v[i]? = some t ∧ t.kind = s.kind ∧ t.span = s.next.span
  previous : s.previous = if i = 0 then none else v[i - 1]?
  ahead : ∃ last rest, v.drop i = s.rest ++ last :: rest ∧ last.kind = .eof ∧ last.span = s.stop
  noEnd : ∀ t ∈ s.rest, t.kind ≠ .eof

variable {s t : State} {v : List Token} {i : Nat}

theorem State.at_of_ahead {last : Token} {rest : List Token}
    (hdrop : v.drop i = s.rest ++ last :: rest) (hkind : last.kind = .eof)
    (hspan : last.span = s.stop) (hnoEnd : ∀ t ∈ s.rest, t.kind ≠ .eof)
    (hprevious : s.previous = if i = 0 then none else v[i - 1]?) : s.At v i := by
  have hnext : ∃ t, v[i]? = some t ∧ t.kind = s.kind ∧ t.span = s.next.span := by
    have hhead : v[i]? = (s.rest ++ last :: rest)[0]? := by
      rw [← hdrop, List.getElem?_drop, Nat.add_zero]
    unfold State.kind State.next
    cases hrest : s.rest with
    | nil => exact ⟨last, by rw [hhead, hrest]; rfl, hkind, hspan⟩
    | cons t ts => exact ⟨t, by rw [hhead, hrest]; rfl, rfl, rfl⟩
  have hinside : i < v.length := by
    by_contra hle
    rw [List.drop_eq_nil_of_le (Nat.not_lt.mp hle)] at hdrop
    simp at hdrop
  exact ⟨hinside, hnext, hprevious, ⟨last, rest, hdrop, hkind, hspan⟩, hnoEnd⟩

/-- A parser that moves forward stays among the tokens. -/
theorem State.At.travels (hs : s.At v i) (ht : Travels s t) : ∃ j, i ≤ j ∧ t.At v j := by
  obtain ⟨passed, hrest, hprevious⟩ := ht.passed
  obtain ⟨last, rest, hdrop, hkind, hspan⟩ := hs.ahead
  rw [hrest, List.append_assoc] at hdrop
  have hdrop' : v.drop (i + passed.length) = t.rest ++ last :: rest := by
    rw [← List.drop_drop, hdrop, List.drop_left]
  have hnoEnd : ∀ u ∈ t.rest, u.kind ≠ .eof := by
    intro u hu
    exact hs.noEnd u (hrest ▸ List.mem_append_right _ hu)
  refine ⟨i + passed.length, Nat.le_add_right _ _,
    State.at_of_ahead hdrop' hkind (hspan.trans ht.stop.symm) hnoEnd ?_⟩
  rw [hprevious]
  cases hlast : passed.getLast? with
  | none =>
    rw [List.getLast?_eq_none_iff.mp hlast]
    exact hs.previous
  | some t =>
    have hpos : 0 < passed.length := by
      rw [List.length_pos_iff]
      rintro rfl
      cases hlast
    rw [List.getLast?_eq_getElem?] at hlast
    have hindex : i + passed.length - 1 = i + (passed.length - 1) := by omega
    rw [if_neg (by omega), hindex, ← List.getElem?_drop, hdrop,
      List.getElem?_append_left (by omega), hlast]
    rfl

/-- A parser begins at the first token. -/
theorem at_ofTokens (tokens : List Token) : (State.ofTokens tokens).At (vector tokens) 0 := by
  simp only [State.ofTokens, vector]
  generalize tokens.filter (fun t => t.kind != .comment) = seen
  cases hfind : seen.find? fun t => t.kind == .eof with
  | some last =>
    obtain ⟨hlast, before, behind, hseen, hbefore⟩ := List.find?_eq_some_iff_append.mp hfind
    have htake : seen.takeWhile (fun t => t.kind != .eof) = before := by
      rw [hseen, List.takeWhile_append_of_pos (by simpa using hbefore), List.takeWhile_cons]
      simp [beq_iff_eq.mp hlast]
    have hnoEnd : ∀ t ∈ before, t.kind ≠ .eof := by simpa using hbefore
    simp only [htake]
    split
    · exact State.at_of_ahead hseen (beq_iff_eq.mp hlast) rfl hnoEnd rfl
    · have hvector (more : List Token) :
          (seen ++ more).drop 0 = before ++ last :: (behind ++ more) := by
        rw [List.drop_zero, hseen, List.append_assoc, List.cons_append]
      exact State.at_of_ahead (hvector _) (beq_iff_eq.mp hlast) rfl hnoEnd rfl
  | none =>
    rw [List.find?_eq_none] at hfind
    have htake : seen.takeWhile (fun t => t.kind != .eof) = seen := by
      have hall : (seen ++ []).takeWhile (fun t => t.kind != Kind.eof) = seen ++ _ :=
        List.takeWhile_append_of_pos (by simpa using hfind)
      simpa using hall
    have hlast : ¬ seen.getLast?.any (·.kind == .eof) = true := by
      rw [Option.any_eq_true_iff_get]
      rintro ⟨hsome, hend⟩
      exact hfind _ (List.mem_of_getLast? (Option.some_get hsome).symm) hend
    simp only [htake, if_neg hlast]
    have hdrop (last : Token) : (seen ++ [last]).drop 0 = seen ++ last :: [] := rfl
    exact State.at_of_ahead (hdrop _) rfl rfl (by simpa using hfind) rfl

/-! ## Parsing functions -/

/-- The parsing functions with a budget: those that move over single tokens, and those of the
grammar. The code in a template is read on its own, so its length counts as well. -/
inductive ParsingFunction (n : Nat) : {α : Type} → Parser α → Prop
  | take : ParsingFunction n take
  | check (kind : Kind) : ParsingFunction n (check kind)
  | accept (kind : Kind) : ParsingFunction n (accept kind)
  | expect (kind : Kind) (wanted : String) (hkind : kind ≠ .eof) :
      ParsingFunction n (expect kind wanted)
  | expectName (wanted : String) : ParsingFunction n (expectName wanted)
  | endStatement (wanted : String) : ParsingFunction n (endStatement wanted)
  | sequence (stops : Kind → Bool) (hstops : stops (.symbol .rightBrace) = true) :
      ParsingFunction n (sequence (productions n) n stops)
  | nested (stops : Kind → Bool) (hstops : stops (.symbol .rightBrace) = true) :
      ParsingFunction n (nested (sequence (productions n) n stops))
  | block : ParsingFunction n (block (productions n) n)
  | functionRest (name : Option String) (span : Span) :
      ParsingFunction n (functionRest (productions n) n name span)
  | embedded (code : String) (span : Span) (hcode : code.length < n) :
      ParsingFunction n (embedded (productions n) code span)
  | templateParts (span : Span) (pieces : List Template.Piece)
      (hpieces : ∀ code, .code code ∈ pieces → code.length < n) :
      ParsingFunction n (templateParts (productions n) span pieces)
  | listLiteral (span : Span) : ParsingFunction n (listLiteral (productions n) n span)
  | mapEntry : ParsingFunction n (mapEntry (productions n))
  | mapLiteral (span : Span) : ParsingFunction n (mapLiteral (productions n) n span)
  | primary : ParsingFunction n (primary (productions n) n)
  | callRest (callee : Expr) : ParsingFunction n (callRest (productions n) callee)
  | trailers (e : Expr) : ParsingFunction n (trailers (productions n) n e)
  | unary : ParsingFunction n (unary (productions n) n)
  | level (k : Nat) : ParsingFunction n ((levels.take k).foldl
      (fun operand operators => chain (operatorIn operators) operand n) (unary (productions n) n))
  | expression : ParsingFunction n (expression (productions n) n)
  | binding (constant : Bool) : ParsingFunction n (binding (productions n) constant)
  | functionDeclaration : ParsingFunction n (functionDeclaration (productions n) n)
  | members (static : Option (List Stmt)) :
      ParsingFunction n (members (productions n) n n static)
  | classDeclaration : ParsingFunction n (classDeclaration (productions n) n)
  | pathRest : ParsingFunction n (pathRest n)
  | importDeclaration : ParsingFunction n (importDeclaration n)
  | conditional : ParsingFunction n (conditional (productions n))
  | testedLoop : ParsingFunction n (testedLoop (productions n))
  | itemLoop : ParsingFunction n (itemLoop (productions n))
  | switchCases (hasDefault : Bool) :
      ParsingFunction n (switchCases (productions n) n n hasDefault)
  | switchStatement : ParsingFunction n (switchStatement (productions n) n)
  | returnStatement : ParsingFunction n (returnStatement (productions n))
  | attempt : ParsingFunction n (attempt (productions n) n)
  | expressionStatement : ParsingFunction n (expressionStatement (productions n) n)
  | statement : ParsingFunction n (statement (productions n) n)
  | anyStatement : ParsingFunction n (anyStatement (productions n) n)
  | declaration : ParsingFunction n (declaration (productions n) n)

namespace ParsingFunction

variable {α : Type} {n : Nat} {p : Parser α}

/-- Whatever the budget is, a parsing function moves forward and comes back to its block. -/
theorem travels (hp : ParsingFunction n p) (s : State) : Travelled s (p s) := by
  have h := productions_keep n
  cases hp with
  | take => exact (Keeps.take s).travelled
  | check kind => exact (Keeps.check kind s).travelled
  | accept kind => exact (Keeps.accept kind s).travelled
  | expect kind wanted hkind => exact ((Takes.expect hkind wanted).keeps s).travelled
  | expectName wanted => exact ((Takes.expectName wanted).keeps s).travelled
  | endStatement wanted => exact (keeps_endStatement wanted s).travelled
  | sequence stops hstops => exact (counts_sequence h n (.inl hstops)).kept.travelled
  | nested stops hstops => exact (keeps_nested_sequence h n hstops s).travelled
  | block => exact (keeps_block h n s).travelled
  | functionRest name span => exact (keeps_functionRest h n name span s).travelled
  | embedded code span => exact (keeps_embedded code span s).travelled
  | templateParts span pieces => exact (keeps_templateParts span pieces s).travelled
  | listLiteral span => exact (keeps_listLiteral h n span s).travelled
  | mapEntry => exact (keeps_mapEntry h s).travelled
  | mapLiteral span => exact (keeps_mapLiteral h n span s).travelled
  | primary => exact ((takes_primary h n).keeps s).travelled
  | callRest callee => exact (keeps_callRest h callee s).travelled
  | trailers e => exact (keeps_trailers h n e s).travelled
  | unary => exact ((takes_unary h n).keeps s).travelled
  | level k => exact ((takes_levels n (levels.take k) (takes_unary h n)).keeps s).travelled
  | expression => exact ((takes_expression h n).keeps s).travelled
  | binding constant => exact ((takesNext_binding h constant).keeps s).travelled
  | functionDeclaration => exact ((takesNext_functionDeclaration h n).keeps s).travelled
  | members static => exact (keeps_members h n n static s).travelled
  | classDeclaration => exact ((takesNext_classDeclaration h n).keeps s).travelled
  | pathRest => exact (keeps_pathRest n s).travelled
  | importDeclaration => exact ((takesNext_importDeclaration n).keeps s).travelled
  | conditional => exact ((takesNext_conditional h).keeps s).travelled
  | testedLoop => exact ((takesNext_testedLoop h).keeps s).travelled
  | itemLoop => exact ((takesNext_itemLoop h).keeps s).travelled
  | switchCases hasDefault => exact (keeps_switchCases h n n hasDefault s).travelled
  | switchStatement => exact ((takesNext_switchStatement h n).keeps s).travelled
  | returnStatement => exact ((takesNext_returnStatement h).keeps s).travelled
  | attempt => exact ((takesNext_attempt h n).keeps s).travelled
  | expressionStatement => exact ((takes_expressionStatement h n).keeps s).travelled
  | statement => exact ((takes_statement h n).keeps s).travelled
  | anyStatement => exact ((takes_anyStatement h n).keeps s).travelled
  | declaration => exact travels_recover ((takes_anyStatement h n).keeps s).travelled

/-! ### Coming to a reply -/

theorem ne_exhausted_of_settles {d m : Nat} {p' : Parser α} (h : Settles m d p p')
    (hs : s.load < m) : p s ≠ .exhausted := by
  intro hp
  have hsettled := (h s hs).1
  rw [hp] at hsettled
  exact hsettled

theorem ne_exhausted_of_settlesAt {d : Nat} {p' : Parser α} (h : SettlesAt d p p' s) :
    p s ≠ .exhausted := by
  intro hp
  have hsettled := h.1
  rw [hp] at hsettled
  exact hsettled

/-- A function that takes the next token comes to a reply if it does so at the end and in front of
any token. -/
theorem ne_exhausted_of_next {p' : Parser α} (hend : s.kind = .eof → s.rest = [])
    (hatEnd : s.rest = [] → p s ≠ .exhausted)
    (hnext : ∀ {k}, s.kind = k → k ≠ .eof → SettlesAt 1 p p' s) : p s ≠ .exhausted := by
  by_cases heof : s.kind = .eof
  · exact hatEnd (hend heof)
  · exact ne_exhausted_of_settlesAt (hnext rfl heof)

section AtTheEnd

variable {β : Type} (hrest : s.rest = [])

include hrest

theorem kind_of_end : s.kind = .eof := by
  rw [State.kind, State.next, hrest]
  rfl

theorem take_of_end {f : Token → Parser β} : (Parser.take >>= f) s = f s.next s := by
  have hstay : s.advance = s := by simp only [State.advance, hrest]
  have htake : Parser.take s = .ok s.next s := by rw [Parser.take, hstay]
  exact bind_of_ok htake

/-- At the end there is no token to be taken, and then no mark that is wanted. -/
theorem take_expectMark_of_end {mark : Symbol} {wanted : String} {f : Token → Token → Parser β} :
    (Parser.take >>= fun t => expectMark mark wanted >>= f t) s ≠ .exhausted := by
  have hne : s.kind ≠ .symbol mark := by
    rw [kind_of_end hrest]
    nofun
  have herror : expectMark mark wanted s = unexpected wanted s := expect_of_ne hne
  rw [take_of_end hrest, bind_of_error herror]
  nofun

theorem take_expectName_of_end {wanted : String} {f : Token → String → Parser β} :
    (Parser.take >>= fun t => Parser.expectName wanted >>= f t) s ≠ .exhausted := by
  have herror : Parser.expectName wanted s = unexpected wanted s := by
    unfold Parser.expectName
    rw [kind_of_end hrest]
  rw [take_of_end hrest, bind_of_error herror]
  nofun

theorem returnStatement_of_end {again again' : Productions} (h : again.Settle again' n)
    (hs : s.load < n) : Parser.returnStatement again s ≠ .exhausted := by
  unfold Parser.returnStatement
  rw [take_of_end hrest]
  exact ne_exhausted_of_settles (.bind .peek fun _ => .ite_bind (.pure _)
    (.map _ h.expression.weaken) fun _ => .bind (settles_endStatement _) fun _ => .pure _) hs

end AtTheEnd

/-- In front of tokens that count for less than the budget, a parsing function comes to a reply. -/
theorem returns (hp : ParsingFunction n p) (hs : s.load < n) (hend : s.kind = .eof → s.rest = []) :
    p s ≠ .exhausted := by
  have h := productions_settle (Nat.le_refl n)
  have hn := Nat.le_refl n
  have hs' := Nat.lt_succ_of_lt hs
  cases hp with
  | take => nofun
  | check kind => nofun
  | accept kind => exact ne_exhausted_of_settles (.accept kind) hs
  | expect kind wanted hkind => exact ne_exhausted_of_settles (.expect hkind wanted) hs
  | expectName wanted => exact ne_exhausted_of_settles (.expectName wanted) hs
  | endStatement wanted => exact ne_exhausted_of_settles (settles_endStatement wanted) hs
  | sequence stops hstops =>
    exact ne_exhausted_of_settlesAt (settlesAt_sequence h hn hs (.inl hstops))
  | nested stops hstops => exact ne_exhausted_of_settles (settles_nested_sequence h hn _ hstops) hs
  | block => exact ne_exhausted_of_settles (settles_block h hn) hs
  | functionRest name span => exact ne_exhausted_of_settles (settles_functionRest h hn _ _) hs
  | embedded code span hcode => exact ne_exhausted_of_settles (settles_embedded h hcode _) hs
  | templateParts span pieces hpieces =>
    exact ne_exhausted_of_settles (settles_templateParts h hpieces) hs
  | listLiteral span => exact ne_exhausted_of_settles (settles_listLiteral h hn _) hs
  | mapEntry => exact ne_exhausted_of_settles (settles_mapEntry h) hs
  | mapLiteral span => exact ne_exhausted_of_settles (settles_mapLiteral h hn _) hs
  | primary => exact ne_exhausted_of_settles (settles_primary h hn) hs'
  | callRest callee => exact ne_exhausted_of_settles (settles_callRest h _) hs
  | trailers e => exact ne_exhausted_of_settles (settles_trailers h hn hn e) hs
  | unary => exact ne_exhausted_of_settles (settles_unary h hn) hs'
  | level k => exact ne_exhausted_of_settles (settles_levels hn _ (settles_unary h hn)) hs'
  | expression => exact ne_exhausted_of_settles (settles_expression h hn) hs'
  | members static => exact ne_exhausted_of_settles (settles_members h hn hn hn static) hs
  | pathRest => exact ne_exhausted_of_settles (settles_pathRest hn) hs
  | switchCases hasDefault =>
    exact ne_exhausted_of_settles (settles_switchCases h hn hn hn hasDefault) hs
  | expressionStatement => exact ne_exhausted_of_settles (settles_expressionStatement h hn) hs'
  | statement => exact ne_exhausted_of_settles (settles_statement h hn) hs'
  | anyStatement => exact ne_exhausted_of_settles (settles_anyStatement h hn) hs'
  | declaration =>
    have hne := ne_exhausted_of_settles (settles_anyStatement h hn) hs'
    unfold Parser.declaration recover
    cases hreply : Parser.anyStatement (productions n) n s with
    | ok a t => nofun
    | error fault t => nofun
    | exhausted => exact absurd hreply hne
  | binding constant =>
    exact ne_exhausted_of_next hend (take_expectName_of_end ·) fun hkind hk =>
      settlesAt_binding h hkind hk hs' constant
  | functionDeclaration =>
    exact ne_exhausted_of_next hend (take_expectName_of_end ·) fun hkind hk =>
      settlesAt_functionDeclaration h hn hkind hk hs'
  | classDeclaration =>
    exact ne_exhausted_of_next hend (take_expectName_of_end ·) fun hkind hk =>
      settlesAt_classDeclaration h hn hkind hk hs'
  | importDeclaration =>
    exact ne_exhausted_of_next hend (take_expectName_of_end ·) fun hkind hk =>
      settlesAt_importDeclaration hn hkind hk hs'
  | conditional =>
    exact ne_exhausted_of_next hend (take_expectMark_of_end ·) fun hkind hk =>
      settlesAt_conditional h hkind hk hs'
  | testedLoop =>
    exact ne_exhausted_of_next hend (take_expectMark_of_end ·) fun hkind hk =>
      settlesAt_testedLoop h hkind hk hs'
  | itemLoop =>
    exact ne_exhausted_of_next hend (take_expectMark_of_end ·) fun hkind hk =>
      settlesAt_itemLoop h hkind hk hs'
  | switchStatement =>
    exact ne_exhausted_of_next hend (take_expectMark_of_end ·) fun hkind hk =>
      settlesAt_switchStatement h hn hkind hk hs'
  | attempt =>
    exact ne_exhausted_of_next hend (take_expectMark_of_end ·) fun hkind hk =>
      settlesAt_attempt h hn hkind hk hs'
  | returnStatement =>
    exact ne_exhausted_of_next hend (returnStatement_of_end · h hs) fun hkind hk =>
      settlesAt_returnStatement h hkind hk hs'

end ParsingFunction

/-! ## Whole texts -/

/-- The tokens that a text is made of: neither comments nor end tokens. -/
def wordsOf (tokens : List Token) : List Token :=
  tokens.filter fun t => t.kind != .comment && t.kind != .eof

theorem length_ofTokens_le (tokens : List Token) :
    (State.ofTokens tokens).rest.length ≤ (wordsOf tokens).length := by
  have hsub : (State.ofTokens tokens).rest.Sublist (tokens.filter fun t => t.kind != .comment) :=
    List.takeWhile_sublist _
  have hwords : ∀ t ∈ (State.ofTokens tokens).rest, (t.kind != .eof) = true :=
    List.all_eq_true.mp List.all_takeWhile
  calc (State.ofTokens tokens).rest.length
      = ((State.ofTokens tokens).rest.filter fun t => t.kind != .eof).length := by
        rw [List.filter_eq_self.mpr hwords]
    _ ≤ ((tokens.filter fun t => t.kind != .comment).filter fun t => t.kind != .eof).length :=
        (hsub.filter _).length_le
    _ = (wordsOf tokens).length := by
        rw [List.filter_filter, wordsOf]
        simp only [Bool.and_comm]

/-- At the end of a text all its tokens are used up. -/
theorem ReadsAll.kind_eq {s t : State} {stmts : List Stmt} (h : ReadsAll s stmts t) :
    t.kind = .eof := by
  induction h with
  | done hs => exact hs
  | semicolon _ _ ih => exact ih
  | statement _ _ _ _ ih => exact ih
  | mistake _ _ _ _ ih => exact ih

/-- However much greater the budget is, the same is read. -/
theorem sequence_of_readsAll {tokens : List Token} {stmts : List Stmt} {t : State}
    (h : ReadsAll (.ofTokens tokens) stmts t) {n : Nat} (hn : budget tokens ≤ n) :
    sequence (productions n) n nowhere (.ofTokens tokens) = .ok stmts t := by
  obtain ⟨stmts', t', hgather, h'⟩ := exists_readsAll (Nat.le_refl n)
    (Nat.lt_of_lt_of_le (load_ofTokens_lt tokens) hn) rfl
  obtain ⟨rfl, rfl⟩ := h.unique h'
  exact hgather

/-- **The parser is total.** A whole text is read to its end, in no block, and no budget above the
one it has changes what is read. The statements and the faults together are no more than the
tokens that are neither comments nor end tokens. A parsing function that is started at an index of
the tokens comes to a reply, if what is ahead counts for less than its budget, and then it stands
at an index that is no smaller, in the block it was started in. So a block is never left that was
not entered. -/
theorem parser_total (tokens : List Token) :
    (∃ t : State, (∀ n, budget tokens ≤ n →
        sequence (productions n) n nowhere (.ofTokens tokens) = .ok (readProgram tokens).1 t) ∧
      (readProgram tokens).2 = t.recorded.reverse ∧ t.kind = .eof ∧ t.depth = 0) ∧
    (readProgram tokens).1.length + (readProgram tokens).2.length ≤ (wordsOf tokens).length ∧
    (State.ofTokens tokens).At (vector tokens) 0 ∧
    (∀ (n : Nat) {α : Type} (p : Parser α), ParsingFunction n p →
      ∀ (s : State) (i : Nat), s.At (vector tokens) i → (s.load < n → p s ≠ .exhausted) ∧
        ∀ t ∈ (p s).state?, t.depth = s.depth ∧ ∃ j, i ≤ j ∧ t.At (vector tokens) j) ∧
    ∀ (n : Nat) (stops : Kind → Bool), stops (.symbol .rightBrace) = true →
      ∀ (s : State),
        ∀ t ∈ (sequence (productions n) n stops { s with depth := s.depth + 1 }).state?,
          0 < t.depth := by
  obtain ⟨stmts, t, hreads, hprogram⟩ := exists_readProgram tokens
  have hsequence := sequence_of_readsAll hreads (Nat.le_refl _)
  have hcounts : Counts List.length (.ofTokens tokens)
      (sequence (productions (budget tokens)) (budget tokens) nowhere (.ofTokens tokens)) :=
    counts_sequence (productions_keep _) _ (.inr rfl)
  rw [hsequence] at hcounts
  obtain ⟨htravels, htally⟩ := hcounts
  rw [hprogram]
  refine ⟨⟨t, fun n hn => sequence_of_readsAll hreads hn, rfl, hreads.kind_eq, htravels.depth⟩, ?_,
    at_ofTokens tokens, fun n α p hp s i hs => ⟨fun hload => hp.returns hload ?_, fun u hu => ?_⟩,
    fun n stops hstops s u hu => ?_⟩
  · have htokens := length_ofTokens_le tokens
    have htally : t.rest.length + t.recorded.length + stmts.length
        ≤ (State.ofTokens tokens).rest.length + 0 := htally
    change stmts.length + t.recorded.reverse.length ≤ _
    rw [List.length_reverse]
    omega
  · intro hkind
    by_contra hne
    obtain ⟨first, rest, hrest⟩ := List.exists_cons_of_ne_nil hne
    refine hs.noEnd first (hrest ▸ List.mem_cons_self) ?_
    rw [State.kind, State.next, hrest] at hkind
    exact hkind
  · have htravels := hp.travels s u hu
    exact ⟨htravels.depth, hs.travels htravels⟩
  · have htravels := (ParsingFunction.sequence (n := n) stops hstops).travels _ u hu
    rw [htravels.depth]
    exact Nat.succ_pos _

end ScriptEngine.Parser
