import ScriptEngine.Proofs.Settling
/-!
# Tokens alone and in front of others

The tokens of a statement without blocks are read in two texts: in the one they are the last, in the
other a semicolon and more may stand behind them. Both readings of an expression go on alike, and a
complaint about what stands behind the tokens is all that can differ.

* `Parser.Seam` : what lies behind the tokens in the longer text.
* `Parser.Beside` : the states of the two readings in front of the same tokens;
  `Parser.Beside.kind_cases` says what they see.
* `Parser.Renamed` : the same fault, or a complaint about what stands behind the tokens.
* `Parser.Follows` : a parser goes on alike in both texts. There is a rule for each part of an
  expression.
-/

namespace ScriptEngine

/-- Whether the token can stand in a statement without blocks. -/
def Kind.isPlain : Kind → Bool
  | .symbol mark => !([Symbol.leftBrace, .rightBrace, .semicolon].contains mark)
  | .comment | .eof => false
  | _ => true

/-- Whether the fault is that a value is assigned to what is no target. -/
def Fault.Misplaced (f : Fault) : Prop := f.cause = .syntactic .invalidAssignmentTarget

namespace Parser

/-! ## Two readings -/

/-- What two texts that share some tokens have behind them and have met before. The shorter one ends
there; in the longer one a semicolon may follow, and no `else` after it. -/
structure Seam where
  behind : List Token
  recorded : List Fault
  recorded' : List Fault
  closes : ∀ t ∈ behind.head?, t.kind = .symbol .semicolon
  noElse : ∀ t ∈ behind.tail.head?, t.kind ≠ .keyword .kwElse

/-- The states of two readings in front of the same tokens of a statement. They are `tight` once a
token was taken, which is then the last one of both. -/
structure Beside (seam : Seam) (tight : Bool) (s s' : State) : Prop where
  rest : s'.rest = s.rest ++ seam.behind
  plain : ∀ t ∈ s.rest, t.kind.isPlain
  quiet : ∀ t ∈ s.rest.tail, t.kind.startsStatement = false
  recorded : s.recorded = seam.recorded
  recorded' : s'.recorded = seam.recorded'
  depth' : s'.depth = 0
  previous : tight → ∃ t, s.previous = some t ∧ s'.previous = some t

namespace Beside

variable {seam : Seam} {tight : Bool} {s s' : State} {k : Kind}

theorem loosen (h : Beside seam tight s s') : Beside seam false s s' :=
  { h with previous := nofun }

theorem next_eq (h : Beside seam tight s s') (hs : s.rest ≠ []) : s'.next = s.next := by
  obtain ⟨t, ts, hrest⟩ := List.exists_cons_of_ne_nil hs
  rw [State.next, State.next, h.rest, hrest]
  rfl

theorem isPlain (h : Beside seam tight s s') (hs : s.rest ≠ []) : s.kind.isPlain := by
  obtain ⟨t, ts, hrest⟩ := List.exists_cons_of_ne_nil hs
  rw [State.kind, State.next, hrest]
  exact h.plain t (hrest ▸ List.mem_cons_self)

theorem kind_of_nil (hs : s.rest = []) : s.kind = .eof := by
  rw [State.kind, State.next, hs]
  rfl

/-- Behind the tokens stands the end of the text or a semicolon. -/
theorem kind_behind (h : Beside seam tight s s') (hs : s.rest = []) :
    s'.kind = .eof ∨ s'.kind = .symbol .semicolon := by
  have hrest : s'.rest = seam.behind := by rw [h.rest, hs, List.nil_append]
  rw [State.kind, State.next, hrest]
  cases hb : seam.behind with
  | nil => exact .inl rfl
  | cons mark tail => exact .inr (seam.closes mark (by rw [hb]; rfl))

theorem behind_eq_nil (h : Beside seam tight s s') (hs : s.rest = []) (hkind : s'.kind = .eof) :
    seam.behind = [] := by
  cases hbehind : seam.behind with
  | nil => rfl
  | cons mark tail =>
    have hmark := seam.closes mark (by rw [hbehind]; rfl)
    rw [State.kind, State.next, h.rest, hs, hbehind] at hkind
    exact absurd (hmark.symm.trans hkind) (by simp)

/-- Both readings see the same token, or the tokens are used up. -/
theorem kind_cases (h : Beside seam tight s s') :
    (s.rest ≠ [] ∧ s'.next = s.next ∧ s.kind.isPlain) ∨
      (s.rest = [] ∧ s.kind = .eof ∧ (s'.kind = .eof ∨ s'.kind = .symbol .semicolon)) := by
  by_cases hs : s.rest = []
  · exact .inr ⟨hs, kind_of_nil hs, h.kind_behind hs⟩
  · exact .inl ⟨hs, h.next_eq hs, h.isPlain hs⟩

theorem kind_iff (h : Beside seam tight s s') (hk : k.isPlain) : s'.kind = k ↔ s.kind = k := by
  rcases h.kind_cases with ⟨-, hnext, -⟩ | ⟨-, heof, hbehind⟩
  · rw [State.kind, hnext]
    rfl
  · rw [heof]
    rcases hbehind with hbehind | hbehind
    · rw [hbehind]
    · rw [hbehind]
      exact ⟨fun h => absurd (h ▸ hk) (by decide), fun h => absurd (h ▸ hk) (by decide)⟩

theorem rest_ne_nil (hs : s.kind = k) (hk : k.isPlain) : s.rest ≠ [] := by
  rintro hnil
  rw [kind_of_nil hnil] at hs
  subst hs
  exact absurd hk (by decide)

theorem advance (h : Beside seam tight s s') (hs : s.rest ≠ []) :
    Beside seam true s.advance s'.advance := by
  obtain ⟨t, ts, hrest⟩ := List.exists_cons_of_ne_nil hs
  have hrest' : s'.rest = t :: (ts ++ seam.behind) := by rw [h.rest, hrest]; rfl
  have hadvance : s.advance = { s with previous := some t, rest := ts } := by
    rw [State.advance, hrest]
  have hadvance' : s'.advance = { s' with previous := some t, rest := ts ++ seam.behind } := by
    rw [State.advance, hrest']
  have hquiet := h.quiet
  rw [hrest, List.tail_cons] at hquiet
  rw [hadvance, hadvance']
  exact {
    rest := rfl
    plain := fun u hu => h.plain u (hrest ▸ List.mem_cons_of_mem _ hu)
    quiet := fun u hu => hquiet u (List.mem_of_mem_tail hu)
    recorded := h.recorded
    recorded' := h.recorded'
    depth' := h.depth'
    previous := fun _ => ⟨t, rfl, rfl⟩ }

/-- Once a token was taken, it is the last one of both readings. -/
theorem last_eq (h : Beside seam true s s') : s'.last = s.last := by
  obtain ⟨t, hs, hs'⟩ := h.previous rfl
  rw [State.last, State.last, hs, hs']
  rfl

end Beside

/-! ## Faults -/

/-- A complaint about the end of a text, and the same complaint about what else stands there. -/
inductive Displaced (seen : Kind) : SyntaxError → SyntaxError → Prop
  | token (wanted : String) :
      Displaced seen (.expectedToken wanted Kind.eof.text) (.expectedToken wanted seen.text)
  | expression :
      Displaced seen (.expectedExpression Kind.eof.text) (.expectedExpression seen.text)
  | tooMany (what : String) : Displaced seen (.tooMany what) (.tooMany what)

/-- The same fault, or a complaint about the end of a text where the longer one ends as well or goes
on with a semicolon. -/
inductive Renamed : Fault → Fault → Prop
  | same (f : Fault) : Renamed f f
  | displaced {seen : Kind} {e e' : SyntaxError} (place place' : Span)
      (hseen : seen = .eof ∨ seen = .symbol .semicolon) (h : Displaced seen e e') :
      Renamed (.placed (.syntactic e) place) (.placed (.syntactic e') place')

theorem Renamed.misplaced_iff {f f' : Fault} (h : Renamed f f') : f.Misplaced ↔ f'.Misplaced := by
  cases h with
  | same => rfl
  | displaced place place' hseen h => cases h <;> exact ⟨nofun, nofun⟩

/-! ## Expressions in both readings -/

/-- How two readings reply in front of the same tokens: with the same value, or with a fault that is
the same up to what stands behind the tokens. -/
inductive Alike {α : Type} (seam : Seam) : Reply α → Reply α → Prop
  | ok {a : α} {t t' : State} (h : Beside seam true t t') : Alike seam (.ok a t) (.ok a t')
  | error {f f' : Fault} {t t' : State} (hf : Renamed f f') (hplace : ¬ f.Misplaced)
      (h : Beside seam false t t') : Alike seam (.error f t) (.error f' t')
  | exhausted : Alike seam .exhausted .exhausted

/-- The parsers reply alike, each in its state. -/
def AlikeAt {α : Type} (seam : Seam) (p p' : Parser α) (s s' : State) : Prop :=
  Alike seam (p s) (p' s')

/-- The parser goes on alike in both readings. -/
def Follows {α : Type} (seam : Seam) (tight : Bool) (p : Parser α) : Prop :=
  ∀ s s' : State, Beside seam tight s s' → AlikeAt seam p p s s'

section Rules

variable {α β : Type} {seam : Seam} {tight : Bool} {p : Parser α} {f : α → Parser β} {s s' : State}
  {k : Kind}

theorem AlikeAt.bind {p' : Parser α} (hp : AlikeAt seam p p' s s')
    (hf : ∀ a, Follows seam true (f a)) : AlikeAt seam (p >>= f) (p' >>= f) s s' := by
  unfold AlikeAt at hp ⊢
  simp only [Bind.bind]
  generalize p s = reply at hp ⊢
  generalize p' s' = reply' at hp ⊢
  cases hp with
  | ok h => exact hf _ _ _ h
  | error hfault hplace h => exact .error hfault hplace h
  | exhausted => exact .exhausted

/-- A token that is there is taken in both readings. -/
theorem Beside.alike_take (h : Beside seam tight s s') (hs : s.kind = k) (hk : k.isPlain) :
    AlikeAt seam Parser.take Parser.take s s' := by
  have hrest := Beside.rest_ne_nil hs hk
  unfold AlikeAt Parser.take
  rw [h.next_eq hrest]
  exact .ok (h.advance hrest)

theorem Beside.take {g : Token → Parser β} (h : Beside seam tight s s') (hs : s.kind = k)
    (hk : k.isPlain) (hg : ∀ t, Follows seam true (g t)) :
    AlikeAt seam (Parser.take >>= g) (Parser.take >>= g) s s' :=
  (h.alike_take hs hk).bind hg

namespace Follows

theorem tighten (hp : Follows seam false p) : Follows seam tight p :=
  fun s s' h => hp s s' h.loosen

theorem bind (hp : Follows seam tight p) (hf : ∀ a, Follows seam true (f a)) :
    Follows seam tight (p >>= f) :=
  fun s s' h => (hp s s' h).bind hf

theorem pure (a : α) : Follows seam true (pure a) := fun _ _ h => .ok h

theorem map (g : α → β) (hp : Follows seam tight p) : Follows seam tight (g <$> p) :=
  hp.bind fun a => pure (g a)

theorem ite {c : Prop} [Decidable c] {q : Parser α} (hp : Follows seam tight p)
    (hq : Follows seam tight q) : Follows seam tight (if c then p else q) := by
  split
  · exact hp
  · exact hq

/-- Either way the same goes on. -/
theorem ite_bind {c : Prop} [Decidable c] {q : Parser α} (hp : Follows seam tight p)
    (hq : Follows seam tight q) (hf : ∀ a, Follows seam true (f a)) :
    Follows seam tight (if c then p >>= f else q >>= f) :=
  .ite (hp.bind hf) (hq.bind hf)

theorem exhausted : Follows seam tight (exhausted : Parser α) := fun _ _ _ => .exhausted

theorem failAt {e : SyntaxError} (he : e ≠ .invalidAssignmentTarget) (span : Span) :
    Follows seam tight (failAt e span : Parser α) :=
  fun _ _ h => .error (.same _) (fun hm => he (Cause.syntactic.inj hm)) h.loosen

theorem unexpected (wanted : String) : Follows seam tight (unexpected wanted : Parser α) := by
  intro s s' h
  unfold AlikeAt Parser.unexpected
  rcases h.kind_cases with ⟨-, hnext, -⟩ | ⟨-, heof, hbehind⟩
  · rw [State.kind, State.kind, hnext]
    exact .error (.same _) (by rintro ⟨⟩) h.loosen
  · rw [heof]
    exact .error (.displaced _ _ hbehind (.token wanted)) (by rintro ⟨⟩) h.loosen

/-- What is looked at is the same token, or stands behind the tokens. -/
theorem peek {f : Token → Parser β}
    (hsame : ∀ s s', Beside seam tight s s' → s.kind.isPlain →
      AlikeAt seam (f s.next) (f s.next) s s')
    (hbehind : ∀ s s', Beside seam tight s s' → s.next.kind = .eof →
      s'.next.kind = .eof ∨ s'.next.kind = .symbol .semicolon →
        AlikeAt seam (f s.next) (f s'.next) s s') :
    Follows seam tight (Parser.peek >>= f) := by
  intro s s' h
  change AlikeAt seam (f s.next) (f s'.next) s s'
  rcases h.kind_cases with ⟨-, hnext, hplain⟩ | ⟨-, heof, hkind⟩
  · rw [hnext]
    exact hsame s s' h hplain
  · exact hbehind s s' h heof hkind

/-- The states see the same token, or what stands behind the tokens. -/
theorem state {f : State → Parser β}
    (hsame : ∀ s s', Beside seam tight s s' → s.kind.isPlain → s'.next = s.next →
      AlikeAt seam (f s) (f s') s s')
    (hbehind : ∀ s s', Beside seam tight s s' → s.kind = .eof →
      s'.kind = .eof ∨ s'.kind = .symbol .semicolon → AlikeAt seam (f s) (f s') s s') :
    Follows seam tight (Parser.state >>= f) := by
  intro s s' h
  change AlikeAt seam (f s) (f s') s s'
  rcases h.kind_cases with ⟨-, hnext, hplain⟩ | ⟨-, heof, hkind⟩
  · exact hsame s s' h hplain hnext
  · exact hbehind s s' h heof hkind

theorem check (hk : k.isPlain) : Follows seam true (check k) := by
  intro s s' h
  have hbeq : (s'.kind == k) = (s.kind == k) := by
    rw [Bool.eq_iff_iff, beq_iff_eq, beq_iff_eq]
    exact h.kind_iff hk
  unfold AlikeAt Parser.check
  rw [hbeq]
  exact .ok h

theorem accept (hk : k.isPlain) : Follows seam true (accept k) := by
  intro s s' h
  unfold AlikeAt
  by_cases hs : s.kind = k
  · rw [accept_of_eq hs, accept_of_eq ((h.kind_iff hk).mpr hs)]
    exact .ok (h.advance (Beside.rest_ne_nil hs hk))
  · rw [accept_of_ne hs, accept_of_ne (mt (h.kind_iff hk).mp hs)]
    exact .ok h

theorem expect (hk : k.isPlain) (wanted : String) : Follows seam tight (expect k wanted) := by
  intro s s' h
  unfold AlikeAt
  by_cases hs : s.kind = k
  · have hrest := Beside.rest_ne_nil hs hk
    rw [expect_of_eq hs, expect_of_eq ((h.kind_iff hk).mpr hs), h.next_eq hrest]
    exact .ok (h.advance hrest)
  · rw [expect_of_ne hs, expect_of_ne (mt (h.kind_iff hk).mp hs)]
    exact unexpected wanted s s' h

theorem expectName (wanted : String) : Follows seam tight (expectName wanted) := by
  intro s s' h
  have hfail := unexpected (α := String) wanted s s' h
  unfold AlikeAt Parser.expectName
  rcases h.kind_cases with ⟨hs, hnext, -⟩ | ⟨-, heof, hbehind⟩
  · rw [State.kind, State.kind, hnext]
    split
    · exact .ok (h.advance hs)
    · exact hfail
  · rw [heof]
    rcases hbehind with hbehind | hbehind <;> rw [hbehind] <;> exact hfail

/-- No block begins in either text. -/
theorem expectMark_leftBrace (wanted : String) (f : Token → Parser α) :
    Follows seam tight (expectMark .leftBrace wanted >>= f) := by
  intro s s' h
  have hs : s.kind ≠ .symbol .leftBrace ∧ s'.kind ≠ .symbol .leftBrace := by
    rcases h.kind_cases with ⟨-, hnext, hplain⟩ | ⟨-, heof, hbehind⟩
    · have hne : s.kind ≠ .symbol .leftBrace := fun hs => absurd (hs ▸ hplain) (by decide)
      rw [State.kind, State.kind, hnext]
      exact ⟨hne, hne⟩
    · rw [heof]
      rcases hbehind with hbehind | hbehind <;> rw [hbehind] <;> decide
  have hfail := unexpected (α := α) wanted s s' h
  have hexpect : expectMark .leftBrace wanted s = Parser.unexpected wanted s := expect_of_ne hs.1
  have hexpect' : expectMark .leftBrace wanted s' = Parser.unexpected wanted s' := expect_of_ne hs.2
  unfold AlikeAt
  rw [bind_of_error hexpect, bind_of_error hexpect']
  exact hfail

/-! ### Loops -/

theorem separated {what : String} {item : Parser α} (hitem : Follows seam true item) (room : Nat) :
    Follows seam true (separated what item room) := by
  induction room with
  | zero =>
    refine peek (fun s s' h _ => failAt (by simp) _ s s' h) fun s s' h _ hkind => ?_
    exact .error (.displaced _ _ hkind (.tooMany what)) nofun h.loosen
  | succ room ih =>
    exact hitem.bind fun a => (accept rfl).bind fun _ => .ite (ih.bind fun _ => .pure _) (.pure _)

theorem trailing {close : Symbol} (hclose : (Kind.symbol close).isPlain) {item : Parser α}
    (hitem : Follows seam true item) (n : Nat) : Follows seam true (trailing close item n) := by
  induction n with
  | zero => exact .exhausted
  | succ n ih =>
    refine hitem.bind fun a => (accept rfl).bind fun _ => .ite ?_ (.pure _)
    exact (check hclose).bind fun _ => .ite (.pure _) (ih.bind fun _ => .pure _)

section Levels

variable {operator? : Kind → Option (Expr → Expr → Expr)} {operand : Parser Expr}

theorem chainFrom (heof : operator? .eof = none) (hmark : operator? (.symbol .semicolon) = none)
    (hoperand : Follows seam true operand) (n : Nat) (left : Expr) :
    Follows seam true (chainFrom operator? operand n left) := by
  induction n generalizing left with
  | zero => exact .exhausted
  | succ n ih =>
    refine peek (fun s s' h hplain => ?_) fun s s' h hkind hkind' => ?_
    · cases operator? s.next.kind with
      | none => exact .ok h
      | some combine => exact h.take rfl hplain fun _ => hoperand.bind fun _ => ih _
    · have hnone : operator? s'.next.kind = none := by
        rcases hkind' with hkind' | hkind' <;> rw [hkind'] <;> assumption
      rw [hkind, heof, hnone]
      exact .ok h

/-- A semicolon is no operator. -/
theorem levels {n : Nat} {levels : List (List (Symbol × (Expr → Expr → Expr)))}
    (hlevels : ∀ operators ∈ levels, operators.lookup .semicolon = none)
    (hoperand : Follows seam false operand) :
    Follows seam false
      (levels.foldl (fun operand operators => chain (operatorIn operators) operand n) operand) := by
  induction levels generalizing operand with
  | nil => exact hoperand
  | cons operators levels ih =>
    refine ih (fun operators' hmem => hlevels operators' (List.mem_cons_of_mem _ hmem)) ?_
    exact hoperand.bind fun left =>
      chainFrom rfl (hlevels operators List.mem_cons_self) hoperand.tighten n left

end Levels

end Follows

end Rules

/-! ### The parts of an expression -/

/-- The expressions that are started again go on alike, at the front of a statement as well. -/
structure Productions.Follow (seam : Seam) (again : Productions) : Prop where
  expression : Follows seam false again.expression
  unary : Follows seam false again.unary

section Expressions

variable {seam : Seam} {again : Productions} {n : Nat} (h : again.Follow seam)

include h

namespace Follows

/-- Only a function whose body is an expression is read. -/
theorem functionRest (name : Option String) (span : Span) :
    Follows seam true (functionRest again n name span) := by
  refine (expect rfl _).bind fun _ => (check rfl).bind fun _ => ?_
  refine .ite_bind (.pure _) (.separated (.expectName _) _) fun params => ?_
  refine (expect rfl _).bind fun _ => .ite_bind (.accept rfl) (.pure _) fun short => .ite ?_ ?_
  · exact h.expression.tighten.bind fun _ => .pure _
  · exact .expectMark_leftBrace _ _

omit h in
theorem embedded (code : String) (span : Span) : Follows seam true (embedded again code span) := by
  intro s s' hbeside
  unfold Parser.embedded
  cases htokens : Token.tokenizeAt span.line code with
  | error fault => exact .error (.same _) nofun hbeside.loosen
  | ok tokens =>
    cases hreply : again.expression (.ofTokens tokens) with
    | ok e inner =>
      simp only [hreply]
      split
      · exact .error (.same _) nofun hbeside.loosen
      · split
        · exact .error (.same _) nofun hbeside.loosen
        · exact .ok hbeside
    | error fault inner =>
      simp only [hreply]
      exact .error (.same _) nofun hbeside.loosen
    | exhausted =>
      simp only [hreply]
      exact .exhausted

omit h in
theorem templateParts (span : Span) (pieces : List Template.Piece) :
    Follows seam true (templateParts again span pieces) := by
  induction pieces with
  | nil => exact .pure _
  | cons piece pieces ih =>
    cases piece with
    | text cs => exact ih.bind fun _ => .pure _
    | unmatched => exact .failAt (by simp) _
    | code cs =>
      exact .ite (.failAt (by simp) _) ((embedded _ span).bind fun _ => ih.bind fun _ => .pure _)

theorem listLiteral (span : Span) : Follows seam true (listLiteral again n span) := by
  refine (check rfl).bind fun _ => ?_
  refine .ite_bind (.pure _) (.trailing rfl h.expression.tighten n) fun elements => ?_
  exact (expect rfl _).bind fun _ => .pure _

theorem primary : Follows seam false (primary again n) := by
  refine .peek (fun s s' hbeside hplain => ?_) fun s s' hbeside hkind hkind' => ?_
  · simp only
    split
    case h_9 body hkind =>
      exact hbeside.take hkind rfl fun _ => (templateParts _ _).bind fun _ => .pure _
    case h_10 hkind =>
      exact hbeside.take hkind rfl fun _ => (functionRest h _ _).bind fun _ => .pure _
    case h_11 hkind =>
      refine hbeside.take hkind rfl fun _ => h.expression.tighten.bind fun _ => ?_
      exact (expect rfl _).bind fun _ => .pure _
    case h_12 hkind => exact hbeside.take hkind rfl fun _ => listLiteral h _
    case h_13 hkind =>
      have hbrace : s.kind = .symbol .leftBrace := hkind
      exact absurd (hbrace ▸ hplain) (by decide)
    case h_14 => exact Follows.failAt (by simp) _ s s' hbeside
    all_goals
      next hkind => exact hbeside.take hkind rfl fun _ => .pure _
  · have hfault : AlikeAt seam (Parser.failAt (.expectedExpression Kind.eof.text) s.next.span)
        (Parser.failAt (α := Expr) (.expectedExpression s'.next.kind.text) s'.next.span) s s' :=
      .error (.displaced _ _ hkind' .expression) nofun hbeside
    rcases hkind' with hkind' | hkind' <;> rw [hkind'] at hfault <;> simp only [hkind, hkind'] <;>
      exact hfault

theorem callRest (callee : Expr) : Follows seam true (callRest again callee) := by
  refine (check rfl).bind fun _ => ?_
  refine .ite_bind (.pure _) (.separated h.expression.tighten _) fun args => ?_
  exact (expect rfl _).bind fun _ => .pure _

theorem trailers (m : Nat) (e : Expr) : Follows seam true (trailers again m e) := by
  induction m generalizing e with
  | zero => exact .exhausted
  | succ m ih =>
    refine .state (fun s s' hbeside hplain hnext => ?_) fun s s' hbeside heof hbehind => ?_
    · have hkind : s'.kind = s.kind := congrArg Token.kind hnext
      simp only [hnext, hkind, hbeside.last_eq]
      split
      · next hcall =>
        rw [Bool.and_eq_true, beq_iff_eq, beq_iff_eq] at hcall
        exact hbeside.take hcall.2 rfl fun _ => (callRest h e).bind fun _ => ih _
      · split
        · next hindex =>
          rw [Bool.and_eq_true, beq_iff_eq, beq_iff_eq] at hindex
          refine hbeside.take hindex.2 rfl fun _ => h.expression.tighten.bind fun _ => ?_
          exact (expect rfl _).bind fun _ => ih _
        · split
          · next hget =>
            rw [beq_iff_eq] at hget
            refine hbeside.take hget rfl fun _ => (expectName _).bind fun name => ?_
            intro t t' ht
            change AlikeAt seam (Parser.trailers again m (.get e name (e.span.upTo t.last.span)))
              (Parser.trailers again m (.get e name (e.span.upTo t'.last.span))) t t'
            rw [ht.last_eq]
            exact ih _ t t' ht
          · exact .ok hbeside
    · rcases hbehind with hbehind | hbehind <;>
        simp only [heof, hbehind, Bool.and_eq_true, beq_iff_eq, reduceCtorEq, Kind.symbol.injEq,
          and_false, if_false] <;>
        exact .ok hbeside

theorem unary : Follows seam false (unary again n) := by
  have hoperand : Follows seam false
      (Parser.primary again n >>= fun e => Parser.trailers again n e) :=
    (primary h).bind fun e => trailers h n e
  refine .peek (fun s s' hbeside hplain => ?_) fun s s' hbeside hkind hkind' => ?_
  · simp only
    split
    · exact hbeside.take rfl hplain fun _ => h.unary.tighten.bind fun _ => .pure _
    · exact hoperand s s' hbeside
  · rcases hkind' with hkind' | hkind' <;> simp only [hkind, hkind'] <;>
      exact hoperand s s' hbeside

theorem expression : Follows seam false (expression again n) :=
  .levels (by decide) (unary h)

end Follows

end Expressions

end Parser

end ScriptEngine
