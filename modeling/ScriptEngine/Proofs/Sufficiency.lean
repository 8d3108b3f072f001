import ScriptEngine.Proofs.Settling
/-!
# Enough to read with

A production is only started again after a token was taken, so a budget above what the tokens ahead
count for is never used up. The body of a template counts for its characters, which is what the
tokens of the code embedded in it count for at most.

* `Token.load_le_length` : the tokens of a text count for no more than its characters.
* `Parser.Productions.Settle` : productions that settle; each part of the grammar hands it on.
* `Parser.productions_settle` : productions with any two budgets settle together.
-/

namespace ScriptEngine

/-! ## Embedded code -/

namespace Token

open ScriptEngine.Parser

theorem weight_of_not_template {t : Token} (h : ∀ body, t.kind ≠ .template body) :
    weight t = 1 := by
  unfold weight
  split
  · next body hkind => exact absurd hkind (h body)
  · rfl

/-- What is found counts for no more than the characters it takes. -/
def Scan.Light (cs : List Char) : Scan → Prop
  | .found kind more => ∀ t : Token, t.kind = kind →
    weight t + (cs.drop more).length ≤ cs.length + 1
  | .failed .. => True

theorem light_found {kind : Kind} {more : Nat} {cs : List Char}
    (h : ∀ body, kind ≠ .template body) :
    (Scan.found kind more).Light cs := by
  rintro t rfl
  rw [weight_of_not_template h, List.length_drop]
  omega

theorem Scan.Light.ite {c : Prop} [Decidable c] {cs : List Char} {a b : Scan} (ha : a.Light cs)
    (hb : b.Light cs) : (if c then a else b).Light cs := by
  split
  · exact ha
  · exact hb

theorem light_scanPair (cs : List Char) (short : Symbol) (longer : List (Char × Symbol)) :
    (scanPair cs short longer).Light cs := by
  unfold scanPair
  split <;> exact light_found (by simp)

theorem light_scanTemplate (quote c : Char) (cs : List Char) :
    (scanTemplate quote cs).Light (c :: cs) := by
  unfold scanTemplate
  split
  · next n _ =>
    intro t ht
    have hlength : (String.ofList (cs.take n)).length = min n cs.length := by
      rw [String.length_ofList, List.length_take]
    rw [weight, ht, List.length_drop, List.length_cons]
    simp only
    omega
  · trivial

theorem light_scanName (c : Char) (cs : List Char) : (scanName c cs).Light cs := by
  unfold scanName
  refine light_found fun body => ?_
  split <;> exact nofun

theorem light_scanNumber (c : Char) (cs : List Char) : (scanNumber c cs).Light cs := by
  unfold scanNumber
  refine .ite ?_ ?_ <;> split
  · exact light_found fun _ => nofun
  · trivial
  · exact light_found fun _ => nofun
  · trivial

theorem light_scanString (quote : Char) (cs : List Char) : (scanString quote cs).Light cs := by
  unfold scanString
  exact .ite (light_found fun _ => nofun) trivial

theorem light_scan (c : Char) (cs : List Char) : (scan c cs).Light cs := by
  unfold scan
  split
  case h_19 =>
    split
    · exact light_found (by simp)
    · split
      · exact light_found (by simp)
      · trivial
    · exact light_scanPair ..
  case h_20 | h_21 => exact .ite (light_found fun _ => nofun) trivial
  case h_22 =>
    refine .ite (light_scanString c cs) (.ite (light_scanNumber c cs) ?_)
    split
    · exact light_scanTemplate ..
    · exact light_scanTemplate ..
    · exact .ite (light_scanName c cs) trivial
  all_goals first | exact light_found (by simp) | exact light_scanPair ..

theorem load_ofTokens_cons_le (t : Token) (tokens : List Token) :
    (State.ofTokens (t :: tokens)).load ≤ weight t + (State.ofTokens tokens).load := by
  simp only [State.load, State.ofTokens, List.filter_cons]
  split
  · rw [List.takeWhile_cons]
    split
    · exact Nat.le_refl _
    · exact Nat.zero_le _
  · exact Nat.le_add_left _ _

/-- The tokens of a text count for no more than its characters. -/
theorem load_le_length {p : Position} {cs : List Char} {tokens : List Token}
    (h : tokensFrom p cs = .ok tokens) : (State.ofTokens tokens).load ≤ cs.length := by
  induction p, cs using tokensFrom.induct generalizing tokens with
  | case1 p =>
    rw [tokensFrom] at h
    cases h
    exact Nat.le_refl _
  | case2 p c cs hblank ih =>
    rw [tokensFrom, if_pos hblank] at h
    exact Nat.le_succ_of_le (ih h)
  | case3 p c cs hblank error more hscan =>
    rw [tokensFrom, if_neg hblank, hscan] at h
    cases h
  | case4 p c cs hblank kind more hscan lexeme =>
    rename_i ih
    rw [tokensFrom, if_neg hblank, hscan] at h
    have hlight := light_scan c cs
    rw [hscan] at hlight
    cases hrest : tokensFrom (p.after (c :: cs.take more)) (cs.drop more) with
    | error fault => simp [hrest, bind, Except.bind] at h
    | ok rest =>
      simp only [hrest, bind, Except.bind, pure, Except.pure, Except.ok.injEq] at h
      subst h
      have hload := load_ofTokens_cons_le (ofScan p kind (c :: cs.take more)) rest
      have hweight := hlight (ofScan p kind (c :: cs.take more)) rfl
      have hsum := ih hrest
      rw [List.length_cons]
      omega

/-- Embedded code is a part of the template's body. -/
theorem length_code_le {reversed cs code : List Char}
    (h : Template.Piece.code code ∈ Template.piecesFrom reversed cs) : code.length ≤ cs.length := by
  have htext (reversed : List Char) : Template.Piece.code code ∉ Template.textPiece reversed := by
    unfold Template.textPiece
    split <;> simp
  induction reversed, cs using Template.piecesFrom.induct with
  | case1 reversed =>
    rw [Template.piecesFrom] at h
    exact absurd h (htext _)
  | case2 reversed cs hcode =>
    rw [Template.piecesFrom, hcode] at h
    simp at h
  | case3 reversed cs n hcode ih =>
    rw [Template.piecesFrom, hcode] at h
    simp only [List.mem_append, htext, List.mem_cons, Template.Piece.code.injEq, false_or] at h
    rw [List.length_cons]
    rcases h with rfl | h
    · rw [List.length_take]
      omega
    · have := ih h
      rw [List.length_drop] at this
      omega
  | case4 reversed c cs hne ih =>
    rw [Template.piecesFrom] at h
    · exact Nat.le_succ_of_le (ih h)
    · exact hne

end Token

namespace Parser

/-! ## The parts of the grammar -/

/-- Productions with enough budget, and the same with more. A statement may be skipped, so it has to
be there; and the brace that closes a block is not skipped. -/
structure Productions.Settle (again again' : Productions) (n : Nat) : Prop where
  expression : Settles n 1 again.expression again'.expression
  unary : Settles n 1 again.unary again'.unary
  statement : Settles n 1 again.statement again'.statement
  declaration : ∀ s : State, s.load < n → s.rest ≠ [] →
    (s.kind = .symbol .rightBrace → s.depth = 0) →
      SettlesAt 1 again.declaration again'.declaration s

/-- A step through a sequence of statements: nothing at its end, and what a semicolon or a statement
yields in front of more. -/
def step (again : Productions) (stops : Kind → Bool) : Parser (Option (List Stmt)) := do
  let kind := (← peek).kind
  if kind == .eof || stops kind then return none
  else if ← acceptMark .semicolon then return some []
  else return some (← again.declaration).toList

section Step

variable {again : Productions} {stops : Kind → Bool} {s : State}

theorem sequence_eq_gather (again : Productions) (n : Nat) (stops : Kind → Bool) :
    sequence again n stops = gather (step again stops) n := rfl

theorem step_of_end (h : s.kind = .eof ∨ stops s.kind = true) :
    step again stops s = .ok none s := by
  have hend : (s.kind == .eof || stops s.kind) = true := by
    rw [Bool.or_eq_true, beq_iff_eq]
    exact h
  exact congrFun (if_pos hend) s

theorem step_of_go (again : Productions) (stops : Kind → Bool) (heof : s.kind ≠ .eof)
    (hstops : stops s.kind = false) :
    step again stops s = (acceptMark .semicolon >>= fun passed =>
      if passed then pure (some []) else again.declaration >>= fun stmt? =>
        pure (some stmt?.toList)) s := by
  have hgo : ¬ (s.kind == .eof || stops s.kind) = true := by
    rw [Bool.or_eq_true, beq_iff_eq, hstops]
    exact fun h => h.elim heof Bool.false_ne_true
  exact congrFun (if_neg hgo) s

theorem step_of_semicolon (hs : s.kind = .symbol .semicolon) (hstops : stops s.kind = false) :
    step again stops s = .ok (some []) s.advance :=
  (step_of_go _ _ (by rw [hs]; simp) hstops).trans (bind_of_ok (accept_of_eq hs))

theorem step_of_declaration (again : Productions) (stops : Kind → Bool) (heof : s.kind ≠ .eof)
    (hstops : stops s.kind = false) (hmark : s.kind ≠ .symbol .semicolon) :
    step again stops s = (again.declaration >>= fun stmt? => pure (some stmt?.toList)) s :=
  (step_of_go again stops heof hstops).trans (bind_of_ok (accept_of_ne hmark))

end Step

section Parts

variable {again again' : Productions} {n m : Nat} (h : again.Settle again' n)

include h

/-! ### Blocks and functions -/

theorem settlesAt_sequence (hn : n ≤ m) {stops : Kind → Bool} {s : State} (hs : s.load < n)
    (hstops : stops (.symbol .rightBrace) = true ∨ s.depth = 0) :
    SettlesAt 0 (sequence again n stops) (sequence again' m stops) s := by
  rw [sequence_eq_gather, sequence_eq_gather]
  refine settlesAt_gather hn hs fun t ht => ?_
  have hload : t.load < n := Nat.lt_of_le_of_lt ht.load_le hs
  by_cases hend : t.kind = .eof ∨ stops t.kind = true
  · exact .inl ⟨step_of_end hend, step_of_end hend⟩
  · rw [not_or, Bool.not_eq_true] at hend
    have hbrace : t.kind = .symbol .rightBrace → t.depth = 0 := by
      intro hkind
      rcases hstops with hstops | hdepth
      · rw [hkind, hstops] at hend
        exact absurd hend.2 (by decide)
      · exact ht.depth.trans hdepth
    have hgo := fun again => step_of_go again stops hend.1 hend.2
    refine .inr (SettlesAt.congr ?_ (hgo again) (hgo again'))
    refine .accept (Nat.le_refl 1) (by simp) (Nat.lt_succ_of_lt hload) (.pure _) fun _ => ?_
    exact (h.declaration t hload (State.rest_ne_nil hend.1) hbrace).bind (e := 0) fun _ u hu _ =>
      Settles.pure _ u (Nat.lt_of_le_of_lt hu.load_le hload)

theorem settles_nested_sequence (hn : n ≤ m) (stops : Kind → Bool)
    (hstops : stops (.symbol .rightBrace) = true) :
    Settles n 0 (nested (sequence again n stops)) (nested (sequence again' m stops)) :=
  fun _ hs => .nested (settlesAt_sequence h hn hs (.inl hstops))

theorem settles_block (hn : n ≤ m) : Settles n 0 (block again n) (block again' m) :=
  .bind (settles_nested_sequence h hn _ rfl) fun _ =>
    .bind (Settles.expectMark _ _).weaken fun _ => .pure _

theorem settles_functionRest (hn : n ≤ m) (name : Option String) (span : Span) :
    Settles n 0 (functionRest again n name span) (functionRest again' m name span) := by
  refine .bind (Settles.expectMark _ _).weaken fun _ => .bind (.check _) fun _ => ?_
  refine .ite_bind (.pure _) (settles_separated (.expectName _) _) fun params => ?_
  refine .bind (Settles.expectMark _ _).weaken fun _ => ?_
  refine .ite_bind (.accept _) (.pure _) fun short => .ite ?_ ?_
  · exact .bind h.expression.weaken fun _ => .pure _
  · exact .bind (Settles.expectMark _ _).weaken fun _ => .bind (settles_block h hn) fun _ => .pure _

/-! ### Expressions -/

theorem settles_embedded {code : String} (hcode : code.length < n) (span : Span) {k : Nat} :
    Settles k 0 (embedded again code span) (embedded again' code span) := by
  intro s _
  unfold SettlesAt embedded
  cases htokens : Token.tokenizeAt span.line code with
  | error fault => exact ⟨.refl s, rfl⟩
  | ok tokens =>
    have hload := Nat.lt_of_le_of_lt (Token.load_le_length htokens) hcode
    obtain ⟨hsettled, heq⟩ := h.expression _ hload
    cases hreply : again.expression (.ofTokens tokens) with
    | ok e inner =>
      rw [hreply] at heq
      simp only [hreply, heq]
      split
      · exact ⟨.refl s, trivial⟩
      · split
        · exact ⟨.refl s, trivial⟩
        · exact ⟨⟨.refl s, Nat.le_refl _⟩, trivial⟩
    | error fault inner =>
      rw [hreply] at heq
      simp only [hreply, heq]
      exact ⟨.refl s, trivial⟩
    | exhausted =>
      rw [hreply] at hsettled
      exact hsettled.elim

theorem settles_templateParts {span : Span} {pieces : List Template.Piece}
    (hpieces : ∀ code, .code code ∈ pieces → code.length < n) {k : Nat} :
    Settles k 0 (templateParts again span pieces) (templateParts again' span pieces) := by
  induction pieces with
  | nil => exact .pure _
  | cons piece pieces ih =>
    have hrest := ih fun code hcode => hpieces code (List.mem_cons_of_mem _ hcode)
    cases piece with
    | text cs => exact .bind hrest fun _ => .pure _
    | unmatched => exact .fail _
    | code cs =>
      have hcode : (String.ofList cs).length < n := by
        rw [String.length_ofList]
        exact hpieces cs List.mem_cons_self
      refine .ite (.fail _) ?_
      exact .bind (settles_embedded h hcode span) fun _ => .bind hrest fun _ => .pure _

theorem settles_listLiteral (hn : n ≤ m) (span : Span) :
    Settles n 0 (listLiteral again n span) (listLiteral again' m span) := by
  refine .bind (.check _) fun _ => ?_
  refine .ite_bind (.pure _) (settles_trailing _ h.expression (Nat.le_refl n) hn) fun elements => ?_
  exact .bind (Settles.expectMark _ _).weaken fun _ => .pure _

theorem settles_mapEntry : Settles n 1 (mapEntry again) (mapEntry again') := by
  intro s hs
  refine .peek ?_
  split
  case h_3 => exact ⟨.refl s, rfl⟩
  all_goals
    next hkind =>
    refine .pure_bind (.take hkind (by simp) (Nat.lt_succ_of_lt hs) fun _ => ?_)
    exact .bind (Settles.expectMark _ _).weaken fun _ => .bind h.expression.weaken fun _ => .pure _

theorem settles_mapLiteral (hn : n ≤ m) (span : Span) :
    Settles n 0 (mapLiteral again n span) (mapLiteral again' m span) := by
  refine .bind (.check _) fun _ => ?_
  refine .ite_bind (.pure _) (settles_trailing _ (settles_mapEntry h) (Nat.le_refl n) hn) fun _ =>
    ?_
  exact .bind (Settles.expectMark _ _).weaken fun _ => .pure _

theorem settles_primary (hn : n ≤ m) : Settles (n + 1) 1 (primary again n) (primary again' m) := by
  intro s hs
  refine .peek ?_
  simp only
  split
  case h_9 body hkind =>
    have hne : s.rest ≠ [] := State.rest_ne_nil (by rw [State.kind, hkind]; simp)
    have hload : body.length + 1 < n + 1 := by
      have hweight : weight s.next = body.length + 1 := by rw [weight, hkind]
      have := State.load_eq hne
      omega
    refine .take hkind (by simp) hs fun _ => .bind (settles_templateParts h ?_) fun _ => .pure _
    intro code hcode
    exact Nat.lt_of_le_of_lt (Token.length_code_le hcode) (Nat.lt_of_succ_lt_succ hload)
  case h_10 hkind =>
    exact .take hkind (by simp) hs fun _ => .bind (settles_functionRest h hn _ _) fun _ => .pure _
  case h_11 hkind =>
    refine .take hkind (by simp) hs fun _ => .bind h.expression.weaken fun _ => ?_
    exact .bind (Settles.expectMark _ _).weaken fun _ => .pure _
  case h_12 hkind => exact .take hkind (by simp) hs fun _ => settles_listLiteral h hn _
  case h_13 hkind => exact .take hkind (by simp) hs fun _ => settles_mapLiteral h hn _
  case h_14 => exact ⟨.refl s, rfl⟩
  all_goals
    next hkind => exact .take hkind (by simp) hs fun _ => .pure _

theorem settles_callRest (callee : Expr) :
    Settles n 0 (callRest again callee) (callRest again' callee) := by
  refine .bind (.check _) fun _ => ?_
  refine .ite_bind (.pure _) (settles_separated h.expression _) fun args => ?_
  exact .bind (Settles.expectMark _ _).weaken fun _ => .pure _

theorem settles_trailers {k k' : Nat} (hk : k ≤ n) (hle : k ≤ k') (e : Expr) :
    Settles k 0 (trailers again k e) (trailers again' k' e) := by
  induction k generalizing k' e with
  | zero => exact fun s hs => absurd hs (Nat.not_lt_zero _)
  | succ k ih =>
    obtain ⟨k', rfl⟩ := Nat.exists_eq_add_of_lt hle
    have hrest := ih (Nat.le_of_succ_le hk) (Nat.le_add_right k k')
    have hkn : k ≤ n := Nat.le_of_succ_le hk
    intro s hs
    refine .state ?_
    simp only
    split
    · next hcall =>
      rw [Bool.and_eq_true, beq_iff_eq, beq_iff_eq] at hcall
      refine (SettlesAt.take hcall.2 (by simp) hs fun _ => ?_).weaken
      exact .bind ((settles_callRest h e).mono hkn) fun _ => hrest _
    · split
      · next hindex =>
        rw [Bool.and_eq_true, beq_iff_eq, beq_iff_eq] at hindex
        refine (SettlesAt.take hindex.2 (by simp) hs fun _ => ?_).weaken
        refine .bind (h.expression.mono hkn).weaken fun _ => ?_
        exact .bind (Settles.expectMark _ _).weaken fun _ => hrest _
      · split
        · next hget =>
          rw [beq_iff_eq] at hget
          refine (SettlesAt.take hget (by simp) hs fun _ => ?_).weaken
          exact .bind (Settles.expectName _).weaken fun _ => .bind .state fun _ => hrest _
        · exact Settles.pure e s hs

theorem settles_unary (hn : n ≤ m) : Settles (n + 1) 1 (unary again n) (unary again' m) := by
  intro s hs
  refine .peek ?_
  simp only
  split
  · next op hop =>
    have hne : s.next.kind ≠ .eof := by
      intro hkind
      rw [hkind] at hop
      cases hop
    exact .take rfl hne hs fun _ => .bind h.unary.weaken fun _ => .pure _
  · exact Settles.bind_took (settles_primary h hn)
      (fun _ => settles_trailers h (Nat.le_refl n) hn _) s hs

theorem settles_expression (hn : n ≤ m) :
    Settles (n + 1) 1 (expression again n) (expression again' m) :=
  settles_levels hn levels (settles_unary h hn)

/-! ### Statements -/

omit h in
theorem settles_endStatement (wanted : String) :
    Settles n 0 (endStatement wanted) (endStatement wanted) := by
  refine .bind (.accept _) fun _ => .ite (.pure _) (.bind .state fun _ => ?_)
  exact .ite (.pure _) (.unexpected _)

theorem settlesAt_binding {s : State} {k : Kind} (hkind : s.kind = k) (hk : k ≠ .eof)
    (hs : s.load < n + 1) (constant : Bool) :
    SettlesAt 1 (binding again constant) (binding again' constant) s := by
  refine .take hkind hk hs fun _ => .bind (Settles.expectName _).weaken fun _ => ?_
  refine .bind (.accept _) fun _ => ?_
  refine .ite_bind (.map _ h.expression.weaken) (.pure _) fun initial => ?_
  exact .bind (settles_endStatement _) fun _ => .pure _

theorem settlesAt_functionDeclaration (hn : n ≤ m) {s : State} {k : Kind} (hkind : s.kind = k)
    (hk : k ≠ .eof) (hs : s.load < n + 1) :
    SettlesAt 1 (functionDeclaration again n) (functionDeclaration again' m) s :=
  .take hkind hk hs fun _ => .bind (Settles.expectName _).weaken fun _ =>
    .bind (settles_functionRest h hn _ _) fun _ => .pure _

theorem settles_members (hn : n ≤ m) {k k' : Nat} (hk : k ≤ n) (hle : k ≤ k')
    (static : Option (List Stmt)) :
    Settles k 0 (members again n k static) (members again' m k' static) := by
  induction k generalizing k' static with
  | zero => exact fun s hs => absurd hs (Nat.not_lt_zero _)
  | succ k ih =>
    obtain ⟨k', rfl⟩ := Nat.exists_eq_add_of_lt hle
    have hrest := ih (Nat.le_of_succ_le hk) (Nat.le_add_right k k')
    have hkn : k ≤ n := Nat.le_of_succ_le hk
    intro s hs
    refine .peek ?_
    simp only
    split
    · exact Settles.pure _ s hs
    · exact Settles.pure _ s hs
    · next hkind => exact (SettlesAt.take hkind (by simp) hs fun _ => hrest static).weaken
    · next hkind =>
      refine (SettlesAt.take hkind (by simp) hs fun _ => ?_).weaken
      refine .bind (Settles.expectName _).weaken fun _ => ?_
      exact .bind ((settles_functionRest h hn _ _).mono hkn) fun _ =>
        .bind (hrest static) fun _ => .pure _
    · next hkind =>
      split
      · refine (SettlesAt.take hkind (by simp) hs fun _ => ?_).weaken
        refine .bind (Settles.expectMark _ _).weaken fun _ => ?_
        exact .bind ((settles_block h hn).mono hkn) fun _ => hrest _
      · exact ⟨.refl s, rfl⟩
    · exact ⟨.refl s, rfl⟩

theorem settlesAt_classDeclaration (hn : n ≤ m) {s : State} {k : Kind} (hkind : s.kind = k)
    (hk : k ≠ .eof) (hs : s.load < n + 1) :
    SettlesAt 1 (classDeclaration again n) (classDeclaration again' m) s := by
  refine .take hkind hk hs fun _ => .bind (Settles.expectName _).weaken fun _ => ?_
  refine .bind (.accept _) fun _ => .ite
    (.bind .peek fun _ => .bind (Settles.expectName _).weaken fun _ => .bind (.pure _) fun _ => ?_)
    (.bind (.pure _) fun _ => ?_)
  all_goals
    refine .bind (Settles.expectMark _ _).weaken fun _ => ?_
    refine .bind (settles_members h hn (Nat.le_refl n) hn _) fun _ => ?_
    exact .bind (Settles.expectMark _ _).weaken fun _ => .pure _

omit h in
theorem settles_pathRest {k k' : Nat} (hle : k ≤ k') : Settles k 0 (pathRest k) (pathRest k') := by
  induction k generalizing k' with
  | zero => exact fun s hs => absurd hs (Nat.not_lt_zero _)
  | succ k ih =>
    obtain ⟨k', rfl⟩ := Nat.exists_eq_add_of_lt hle
    have hrest := ih (Nat.le_add_right k k')
    intro s hs
    refine .accept (Nat.zero_le 1) (by simp) hs ?_ fun _ => Settles.pure [] s hs
    exact .bind (Settles.expectName _).weaken fun _ => .bind hrest fun _ => .pure _

omit h in
theorem settlesAt_importDeclaration (hn : n ≤ m) {s : State} {k : Kind} (hkind : s.kind = k)
    (hk : k ≠ .eof) (hs : s.load < n + 1) :
    SettlesAt 1 (importDeclaration n) (importDeclaration m) s := by
  refine .take hkind hk hs fun _ => .bind (Settles.expectName _).weaken fun _ => ?_
  exact .bind (settles_pathRest hn) fun _ => .bind (settles_endStatement _) fun _ => .pure _

theorem settlesAt_conditional {s : State} {k : Kind} (hkind : s.kind = k) (hk : k ≠ .eof)
    (hs : s.load < n + 1) : SettlesAt 1 (conditional again) (conditional again') s := by
  refine .take hkind hk hs fun _ => .bind (Settles.expectMark _ _).weaken fun _ => ?_
  refine .bind h.expression.weaken fun _ => .bind (Settles.expectMark _ _).weaken fun _ => ?_
  refine .bind h.statement.weaken fun _ => .bind (.accept _) fun _ => ?_
  exact .ite_bind (.map _ h.statement.weaken) (.pure _) fun _ => .pure _

theorem settlesAt_testedLoop {s : State} {k : Kind} (hkind : s.kind = k) (hk : k ≠ .eof)
    (hs : s.load < n + 1) : SettlesAt 1 (testedLoop again) (testedLoop again') s := by
  refine .take hkind hk hs fun _ => .bind (Settles.expectMark _ _).weaken fun _ => ?_
  refine .bind h.expression.weaken fun _ => .bind (Settles.expectMark _ _).weaken fun _ => ?_
  exact .bind h.statement.weaken fun _ => .pure _

theorem settlesAt_itemLoop {s : State} {k : Kind} (hkind : s.kind = k) (hk : k ≠ .eof)
    (hs : s.load < n + 1) : SettlesAt 1 (itemLoop again) (itemLoop again') s := by
  refine .take hkind hk hs fun _ => .bind (Settles.expectMark _ _).weaken fun _ => ?_
  refine .bind (Settles.expectName _).weaken fun _ => ?_
  refine .bind (Settles.expect (by simp) _).weaken fun _ => ?_
  refine .bind h.expression.weaken fun _ => .bind (Settles.expectMark _ _).weaken fun _ => ?_
  exact .bind h.statement.weaken fun _ => .pure _

theorem settles_switchCases (hn : n ≤ m) {k k' : Nat} (hk : k ≤ n) (hle : k ≤ k')
    (hasDefault : Bool) :
    Settles k 0 (switchCases again n k hasDefault) (switchCases again' m k' hasDefault) := by
  induction k generalizing k' hasDefault with
  | zero => exact fun s hs => absurd hs (Nat.not_lt_zero _)
  | succ k ih =>
    obtain ⟨k', rfl⟩ := Nat.exists_eq_add_of_lt hle
    have hrest := ih (Nat.le_of_succ_le hk) (Nat.le_add_right k k')
    have hkn : k ≤ n := Nat.le_of_succ_le hk
    intro s hs
    refine .peek ?_
    simp only
    split
    · exact Settles.pure _ s hs
    · have hvalues := (settles_trailing .colon h.expression (Nat.le_refl n) hn).mono hkn
      have hbody := (settles_nested_sequence h hn (fun kind =>
        kind == .keyword .kwCase || kind == .keyword .kwDefault || kind == .symbol .rightBrace)
          rfl).mono hkn
      refine .accept (Nat.zero_le 1) (by simp) hs (.bind (.map _ hvalues) fun _ => ?_) fun _ =>
        .accept (Nat.zero_le 1) (by simp) hs (.ite (.ite (.bind (.fail _) fun _ => ?_)
          (.bind (.pure _) fun _ => ?_)) (.bind (.unexpected _) fun _ => ?_)) fun _ =>
            ⟨.refl s, rfl⟩
      all_goals
        refine .bind (Settles.expectMark _ _).weaken fun _ => .bind hbody fun _ => ?_
        exact .bind (hrest _) fun _ => .pure _

theorem settlesAt_switchStatement (hn : n ≤ m) {s : State} {k : Kind} (hkind : s.kind = k)
    (hk : k ≠ .eof) (hs : s.load < n + 1) :
    SettlesAt 1 (switchStatement again n) (switchStatement again' m) s := by
  refine .take hkind hk hs fun _ => .bind (Settles.expectMark _ _).weaken fun _ => ?_
  refine .bind h.expression.weaken fun _ => .bind (Settles.expectMark _ _).weaken fun _ => ?_
  refine .bind (Settles.expectMark _ _).weaken fun _ => ?_
  refine .bind (settles_switchCases h hn (Nat.le_refl n) hn _) fun _ => ?_
  exact .bind (Settles.expectMark _ _).weaken fun _ => .pure _

theorem settlesAt_returnStatement {s : State} {k : Kind} (hkind : s.kind = k) (hk : k ≠ .eof)
    (hs : s.load < n + 1) : SettlesAt 1 (returnStatement again) (returnStatement again') s := by
  refine .take hkind hk hs fun _ => .bind .peek fun _ => ?_
  refine .ite_bind (.pure _) (.map _ h.expression.weaken) fun _ => ?_
  exact .bind (settles_endStatement _) fun _ => .pure _

theorem settlesAt_attempt (hn : n ≤ m) {s : State} {k : Kind} (hkind : s.kind = k)
    (hk : k ≠ .eof) (hs : s.load < n + 1) :
    SettlesAt 1 (attempt again n) (attempt again' m) s := by
  have hblock := settles_block h hn
  refine .take hkind hk hs fun _ => .bind (Settles.expectMark _ _).weaken fun _ => ?_
  refine .bind hblock fun _ => .bind (.accept _) fun _ => .ite
    (.bind (Settles.expectMark _ _).weaken fun _ => .bind (Settles.expectName _).weaken fun _ =>
      .bind (Settles.expectMark _ _).weaken fun _ => .bind (Settles.expectMark _ _).weaken fun _ =>
      .bind hblock fun _ => .bind (.pure _) fun _ => ?_)
    (.bind (.pure _) fun _ => ?_)
  all_goals
    refine .bind (.accept _) fun _ => .ite ?_ (.bind (.pure _) fun _ => .ite (.fail _) (.pure _))
    refine .bind (Settles.expectMark _ _).weaken fun _ => .bind (.map _ hblock) fun _ => ?_
    exact .ite (.fail _) (.pure _)

theorem settles_expressionStatement (hn : n ≤ m) :
    Settles (n + 1) 1 (expressionStatement again n) (expressionStatement again' m) := by
  refine .bind_took (settles_expression h hn) fun target => .bind .peek fun token => ?_
  split
  · exact .bind (settles_endStatement _) fun _ => .pure _
  · refine .bind .take fun _ => .bind h.expression.weaken fun _ => ?_
    refine .bind (settles_endStatement _) fun _ => ?_
    split
    · exact .pure _
    · exact .fail _

theorem settles_statement (hn : n ≤ m) :
    Settles (n + 1) 1 (statement again n) (statement again' m) := by
  intro s hs
  refine .peek ?_
  simp only
  split
  · next hkind => exact settlesAt_conditional h hkind (by simp) hs
  · next hkind => exact settlesAt_testedLoop h hkind (by simp) hs
  · next hkind => exact settlesAt_itemLoop h hkind (by simp) hs
  · next hkind => exact settlesAt_switchStatement h hn hkind (by simp) hs
  · next hkind => exact settlesAt_returnStatement h hkind (by simp) hs
  · next hkind => exact settlesAt_attempt h hn hkind (by simp) hs
  · next hkind =>
    exact .take hkind (by simp) hs fun _ => .bind (settles_endStatement _) fun _ => .pure _
  · next hkind =>
    exact .take hkind (by simp) hs fun _ => .bind (settles_endStatement _) fun _ => .pure _
  · next hkind =>
    exact .take hkind (by simp) hs fun _ => .bind (settles_block h hn) fun _ => .pure _
  · exact settles_expressionStatement h hn s hs

theorem settles_anyStatement (hn : n ≤ m) :
    Settles (n + 1) 1 (anyStatement again n) (anyStatement again' m) := by
  intro s hs
  refine .state ?_
  split
  · next hkind =>
    split
    · exact settlesAt_functionDeclaration h hn hkind (by simp) hs
    · exact settles_statement h hn s hs
  · next hkind => exact settlesAt_classDeclaration h hn hkind (by simp) hs
  · next hkind => exact settlesAt_binding h hkind (by simp) hs false
  · next hkind => exact settlesAt_binding h hkind (by simp) hs true
  · next hkind => exact settlesAt_importDeclaration hn hkind (by simp) hs
  · exact settles_statement h hn s hs

/-- What settles with a budget settles with one more. -/
theorem settle_succ (hn : n ≤ m) :
    Productions.Settle
      ⟨expression again n, unary again n, statement again n, declaration again n⟩
      ⟨expression again' m, unary again' m, statement again' m, declaration again' m⟩ (n + 1) where
  expression := settles_expression h hn
  unary := settles_unary h hn
  statement := settles_statement h hn
  declaration s hs hne hbrace := (settles_anyStatement h hn s hs).recover hne hbrace

end Parts

/-- However much greater the second budget is. -/
theorem productions_settle {n m : Nat} (hn : n ≤ m) :
    (productions n).Settle (productions m) n := by
  induction n generalizing m with
  | zero =>
    have hnone {α : Type} {p p' : Parser α} : Settles 0 1 p p' :=
      fun s hs => absurd hs (Nat.not_lt_zero _)
    exact ⟨hnone, hnone, hnone, fun s hs => absurd hs (Nat.not_lt_zero _)⟩
  | succ n ih =>
    obtain ⟨m, rfl⟩ := Nat.exists_eq_add_of_lt hn
    exact settle_succ (ih (Nat.le_add_right n m)) (Nat.le_add_right n m)

end Parser

end ScriptEngine
