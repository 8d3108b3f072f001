import ScriptEngine.Proofs.Alongside
/-!
# Statements alone and in front of others

A statement without blocks is read alike alone and in front of a semicolon. Only its end takes the
semicolon; what follows that in a statement takes nothing more, and the one mistake that is met
there is an assignment to what is no target.

* `Parser.Past` : the states of the two readings once the semicolon was taken.
* `Parser.Completes` : a parser ends a statement alike in both texts. There is a rule for each form
  of statements.
* `Parser.Completes.anyStatement`, `Parser.productions_end` : every statement without blocks is read
  so, whatever the budget.
-/

namespace ScriptEngine

/-- Whether a statement ends in front of the token, wherever it begins. -/
def Kind.endsStatement : Kind → Bool
  | .eof | .symbol .rightBrace | .keyword .kwElse | .keyword .kwCase | .keyword .kwDefault => true
  | _ => false

namespace Parser

/-! ## Statements in both readings -/

/-- The shorter text is read to its end, the longer one through the semicolon behind the tokens. -/
structure Past (seam : Seam) (s s' : State) : Prop where
  rest : s.rest = []
  behind : ∃ mark, seam.behind = mark :: s'.rest
  recorded : s.recorded = seam.recorded
  recorded' : s'.recorded = seam.recorded'
  depth' : s'.depth = 0

namespace Past

variable {seam : Seam} {s s' : State}

theorem kind_eq (h : Past seam s s') : s.kind = .eof := Beside.kind_of_nil h.rest

theorem kind_ne_else (h : Past seam s s') : s'.kind ≠ .keyword .kwElse := by
  obtain ⟨mark, hbehind⟩ := h.behind
  have hnoElse := seam.noElse
  rw [hbehind, List.tail_cons] at hnoElse
  rw [State.kind, State.next]
  cases hrest : s'.rest with
  | nil => simp
  | cons t ts => exact hnoElse t (by rw [hrest]; rfl)

end Past

/-- How two readings reply to a statement. The longer one may have taken the semicolon; it is then
that a target is found to be none, but no other mistake is met so late. -/
inductive Closed {α : Type} (seam : Seam) : Reply α → Reply α → Prop
  | ok {a : α} {t t' : State} (h : Beside seam true t t') : Closed seam (.ok a t) (.ok a t')
  | past {a : α} {t t' : State} (h : Past seam t t') : Closed seam (.ok a t) (.ok a t')
  | error {f f' : Fault} {t t' : State} (hf : Renamed f f')
      (hplace : f.Misplaced → t.rest = [] → seam.behind = []) (h : Beside seam false t t') :
      Closed seam (.error f t) (.error f' t')
  | overrun {f : Fault} {t t' : State} (hplace : f.Misplaced) (h : Past seam t t') :
      Closed seam (.error f t) (.error f t')
  | exhausted : Closed seam .exhausted .exhausted

/-- The parsers end a statement, each in its state. -/
def ClosedAt {α : Type} (seam : Seam) (p p' : Parser α) (s s' : State) : Prop :=
  Closed seam (p s) (p' s')

/-- The parser ends a statement in both readings. -/
def Completes {α : Type} (seam : Seam) (tight : Bool) (p : Parser α) : Prop :=
  ∀ s s' : State, Beside seam tight s s' → ClosedAt seam p p s s'

section Rules

variable {α β : Type} {seam : Seam} {tight : Bool} {p p' : Parser α} {f : α → Parser β}
  {s s' : State} {k : Kind}

theorem AlikeAt.ends (hp : AlikeAt seam p p' s s') (hf : ∀ a, Completes seam true (f a)) :
    ClosedAt seam (p >>= f) (p' >>= f) s s' := by
  unfold AlikeAt at hp
  unfold ClosedAt
  simp only [Bind.bind]
  generalize p s = reply at hp ⊢
  generalize p' s' = reply' at hp ⊢
  cases hp with
  | ok h => exact hf _ _ _ h
  | error hfault hplace h => exact .error hfault (fun hm => absurd hm hplace) h
  | exhausted => exact .exhausted

/-- More of the statement follows, in front of its tokens or behind the semicolon. -/
theorem ClosedAt.bind (hp : ClosedAt seam p p' s s') (hf : ∀ a, Completes seam true (f a))
    (hpast : ∀ a t t', Past seam t t' → ClosedAt seam (f a) (f a) t t') :
    ClosedAt seam (p >>= f) (p' >>= f) s s' := by
  unfold ClosedAt at hp ⊢
  simp only [Bind.bind]
  generalize p s = reply at hp ⊢
  generalize p' s' = reply' at hp ⊢
  cases hp with
  | ok h => exact hf _ _ _ h
  | past h => exact hpast _ _ _ h
  | error hfault hplace h => exact .error hfault hplace h
  | overrun hplace h => exact .overrun hplace h
  | exhausted => exact .exhausted

theorem AlikeAt.closed (hp : AlikeAt seam p p' s s') : ClosedAt seam p p' s s' := by
  unfold AlikeAt at hp
  unfold ClosedAt
  generalize p s = reply at hp ⊢
  generalize p' s' = reply' at hp ⊢
  cases hp with
  | ok h => exact .ok h
  | error hfault hplace h => exact .error hfault (fun hm => absurd hm hplace) h
  | exhausted => exact .exhausted

theorem Follows.ends (hp : Follows seam tight p) (hf : ∀ a, Completes seam true (f a)) :
    Completes seam tight (p >>= f) :=
  fun s s' h => (hp s s' h).ends hf

namespace Completes

theorem of_follows (hp : Follows seam tight p) : Completes seam tight p :=
  fun s s' h => (hp s s' h).closed

theorem tighten (hp : Completes seam false p) : Completes seam tight p :=
  fun s s' h => hp s s' h.loosen

theorem map (hp : Completes seam tight p) (g : α → β) :
    Completes seam tight (p >>= fun a => pure (g a)) :=
  fun s s' h => (hp s s' h).bind (fun a => of_follows (.pure (g a))) fun _ _ _ h => .past h

/-- Either way the same goes on. -/
theorem ite_bind {c : Prop} [Decidable c] {q : Parser α} (hp : Follows seam tight p)
    (hq : Follows seam tight q) (hf : ∀ a, Completes seam true (f a)) :
    Completes seam tight (if c then p >>= f else q >>= f) := by
  split
  · exact hp.ends hf
  · exact hq.ends hf

theorem peek {f : Token → Parser β}
    (hsame : ∀ s s', Beside seam tight s s' → s.kind.isPlain →
      ClosedAt seam (f s.next) (f s.next) s s')
    (hbehind : ∀ s s', Beside seam tight s s' → s.next.kind = .eof →
      s'.next.kind = .eof ∨ s'.next.kind = .symbol .semicolon →
        ClosedAt seam (f s.next) (f s'.next) s s') :
    Completes seam tight (Parser.peek >>= f) := by
  intro s s' h
  change ClosedAt seam (f s.next) (f s'.next) s s'
  rcases h.kind_cases with ⟨-, hnext, hplain⟩ | ⟨-, heof, hkind⟩
  · rw [hnext]
    exact hsame s s' h hplain
  · exact hbehind s s' h heof hkind

theorem state {f : State → Parser β}
    (hsame : ∀ s s', Beside seam tight s s' → s.rest ≠ [] → s'.next = s.next →
      ClosedAt seam (f s) (f s') s s')
    (hbehind : ∀ s s', Beside seam tight s s' → s.kind = .eof →
      s'.kind = .eof ∨ s'.kind = .symbol .semicolon → ClosedAt seam (f s) (f s') s s') :
    Completes seam tight (Parser.state >>= f) := by
  intro s s' h
  change ClosedAt seam (f s) (f s') s s'
  rcases h.kind_cases with ⟨hs, hnext, -⟩ | ⟨-, heof, hkind⟩
  · exact hsame s s' h hs hnext
  · exact hbehind s s' h heof hkind

end Completes

/-- Where no semicolon stands, a statement ends without taking anything, or it does not. -/
theorem endStatement_of_ne (wanted : String) (hs : s.kind ≠ .symbol .semicolon) :
    endStatement wanted s =
      if s.kind.endsStatement || s.last.span.line < s.next.span.line then .ok () s
      else Parser.unexpected wanted s := by
  have hends : endStatement wanted s =
      (if s.kind.endsStatement || s.last.span.line < s.next.span.line then pure ()
        else Parser.unexpected wanted : Parser Unit) s := bind_of_ok (accept_of_ne hs)
  rw [hends]
  split <;> rfl

theorem endStatement_of_eof (wanted : String) (hs : s.kind = .eof) :
    endStatement wanted s = .ok () s := by
  rw [endStatement_of_ne wanted (by rw [hs]; simp), hs]
  rfl

theorem endStatement_of_semicolon (wanted : String) (hs : s.kind = .symbol .semicolon) :
    endStatement wanted s = .ok () s.advance :=
  bind_of_ok (accept_of_eq hs)

theorem Beside.past {tight : Bool} (h : Beside seam tight s s') (hs : s.rest = [])
    (hkind : s'.kind = .symbol .semicolon) : Past seam s s'.advance := by
  have hrest : s'.rest = seam.behind := by rw [h.rest, hs, List.nil_append]
  cases hbehind : seam.behind with
  | nil =>
    rw [State.kind, State.next, hrest, hbehind] at hkind
    cases hkind
  | cons mark tail =>
    have hadvance : s'.advance = { s' with previous := some mark, rest := tail } := by
      rw [State.advance, hrest, hbehind]
    rw [hadvance]
    exact ⟨hs, ⟨mark, hbehind⟩, h.recorded, h.recorded', h.depth'⟩

/-- A statement ends in both readings before more of its tokens, where the longer text ends as well,
or through the semicolon; or it does not end. -/
theorem Beside.endStatement_cases (h : Beside seam true s s') (wanted : String) :
    (endStatement wanted s = .ok () s ∧ endStatement wanted s' = .ok () s' ∧
        (s.rest = [] → seam.behind = [])) ∨
      (endStatement wanted s = .ok () s ∧ endStatement wanted s' = .ok () s'.advance ∧
        Past seam s s'.advance) ∨
      (endStatement wanted s = Parser.unexpected wanted s ∧
        endStatement wanted s' = Parser.unexpected wanted s') := by
  rcases h.kind_cases with ⟨hs, hnext, hplain⟩ | ⟨hs, heof, hbehind | hbehind⟩
  · have hkind : s'.kind = s.kind := congrArg Token.kind hnext
    have hmark : s.kind ≠ .symbol .semicolon := fun hs => absurd (hs ▸ hplain) (by decide)
    rw [endStatement_of_ne wanted hmark, endStatement_of_ne wanted (hkind ▸ hmark), hkind, hnext,
      h.last_eq]
    split
    · exact .inl ⟨rfl, rfl, fun hnil => absurd hnil hs⟩
    · exact .inr (.inr ⟨rfl, rfl⟩)
  · exact .inl ⟨endStatement_of_eof wanted heof, endStatement_of_eof wanted hbehind,
      fun _ => h.behind_eq_nil hs hbehind⟩
  · exact .inr (.inl ⟨endStatement_of_eof wanted heof, endStatement_of_semicolon wanted hbehind,
      h.past hs hbehind⟩)

theorem Completes.endStatement (wanted : String) : Completes seam true (endStatement wanted) := by
  intro s s' h
  unfold ClosedAt
  rcases h.endStatement_cases wanted with ⟨hs, hs', -⟩ | ⟨hs, hs', hpast⟩ | ⟨hs, hs'⟩
  · rw [hs, hs']
    exact .ok h
  · rw [hs, hs']
    exact .past hpast
  · rw [hs, hs']
    exact (Follows.unexpected wanted s s' h).closed

end Rules

/-! ### The statements -/

/-- The statements that are started again end as well. -/
structure Productions.End (seam : Seam) (again : Productions) : Prop extends again.Follow seam where
  statement : Completes seam false again.statement

section Statements

variable {seam : Seam} {again : Productions} {n : Nat} {s s' : State} {k : Kind}
  (h : again.End seam)

include h

theorem Beside.binding (hbeside : Beside seam false s s') (hs : s.kind = k) (hk : k.isPlain)
    (constant : Bool) : ClosedAt seam (binding again constant) (binding again constant) s s' := by
  refine (hbeside.alike_take hs hk).ends fun _ => (Follows.expectName _).ends fun _ => ?_
  refine (Follows.accept rfl).ends fun _ => ?_
  refine .ite_bind (.map _ h.expression.tighten) (.pure _) fun _ => ?_
  exact (Completes.endStatement _).map _

theorem Beside.functionDeclaration (hbeside : Beside seam false s s') (hs : s.kind = k)
    (hk : k.isPlain) :
    ClosedAt seam (functionDeclaration again n) (functionDeclaration again n) s s' := by
  refine (hbeside.take hs hk fun _ => (Follows.expectName _).bind fun _ => ?_).closed
  exact (Follows.functionRest h.toFollow _ _).bind fun _ => .pure _

omit h in
theorem Beside.classDeclaration (hbeside : Beside seam false s s') (hs : s.kind = k)
    (hk : k.isPlain) :
    ClosedAt seam (classDeclaration again n) (classDeclaration again n) s s' := by
  refine (hbeside.take hs hk fun _ => (Follows.expectName _).bind fun _ => ?_).closed
  refine (Follows.accept rfl).bind fun _ => .ite ?_ ?_
  · refine .peek (fun t t' ht _ => ?_) fun t t' ht heof hbehind => ?_
    · refine (Follows.expectName _).bind (fun _ => (Follows.pure _).bind fun _ => ?_) t t' ht
      exact .expectMark_leftBrace _ _
    · -- the places where the name is missing differ, so no value may come of them
      have hname (wanted : String) {u : State} (hu : u.kind = .eof ∨ u.kind = .symbol .semicolon) :
          expectName wanted u = unexpected wanted u := by
        unfold expectName
        rcases hu with hu | hu <;> rw [hu]
      unfold AlikeAt
      rw [bind_of_error (hname _ (.inl heof)), bind_of_error (hname _ hbehind)]
      exact Follows.unexpected _ t t' ht
  · exact (Follows.pure _).bind fun _ => .expectMark_leftBrace _ _

omit h in
theorem Follows.pathRest (m : Nat) : Follows seam true (pathRest m) := by
  induction m with
  | zero => exact .exhausted
  | succ m ih =>
    refine (Follows.accept rfl).bind fun _ => .ite ?_ (.pure _)
    exact (Follows.expectName _).bind fun _ => ih.bind fun _ => .pure _

omit h in
theorem Beside.importDeclaration (hbeside : Beside seam false s s') (hs : s.kind = k)
    (hk : k.isPlain) : ClosedAt seam (importDeclaration n) (importDeclaration n) s s' := by
  refine (hbeside.alike_take hs hk).ends fun _ => (Follows.expectName _).ends fun _ => ?_
  exact (Follows.pathRest n).ends fun _ => (Completes.endStatement _).map _

theorem Beside.conditional (hbeside : Beside seam false s s') (hs : s.kind = k)
    (hk : k.isPlain) : ClosedAt seam (conditional again) (conditional again) s s' := by
  refine (hbeside.alike_take hs hk).ends fun _ => (Follows.expect rfl _).ends fun test => ?_
  refine h.expression.tighten.ends fun _ => (Follows.expect rfl _).ends fun _ => ?_
  intro t t' ht
  refine (h.statement.tighten t t' ht).bind (fun thenBranch => ?_) fun thenBranch u u' hu => ?_
  · refine (Follows.accept rfl).ends fun _ => ?_
    split
    · exact (h.statement.tighten.map some).map _
    · exact .of_follows (.bind (.pure _) fun _ => .pure _)
  · have hword : acceptWord .kwElse u = .ok false u := accept_of_ne (by rw [hu.kind_eq]; simp)
    have hword' : acceptWord .kwElse u' = .ok false u' := accept_of_ne hu.kind_ne_else
    unfold ClosedAt
    rw [bind_of_ok hword, bind_of_ok hword']
    exact .past hu

theorem Beside.testedLoop (hbeside : Beside seam false s s') (hs : s.kind = k) (hk : k.isPlain) :
    ClosedAt seam (testedLoop again) (testedLoop again) s s' := by
  refine (hbeside.alike_take hs hk).ends fun _ => (Follows.expect rfl _).ends fun _ => ?_
  refine h.expression.tighten.ends fun _ => (Follows.expect rfl _).ends fun _ => ?_
  exact h.statement.tighten.map _

theorem Beside.itemLoop (hbeside : Beside seam false s s') (hs : s.kind = k) (hk : k.isPlain) :
    ClosedAt seam (itemLoop again) (itemLoop again) s s' := by
  refine (hbeside.alike_take hs hk).ends fun _ => (Follows.expect rfl _).ends fun _ => ?_
  refine (Follows.expectName _).ends fun _ => (Follows.expect rfl _).ends fun _ => ?_
  refine h.expression.tighten.ends fun _ => (Follows.expect rfl _).ends fun _ => ?_
  exact h.statement.tighten.map _

theorem Beside.switchStatement (hbeside : Beside seam false s s') (hs : s.kind = k)
    (hk : k.isPlain) : ClosedAt seam (switchStatement again n) (switchStatement again n) s s' := by
  refine (hbeside.take hs hk fun _ => (Follows.expect rfl _).bind fun _ => ?_).closed
  refine h.expression.tighten.bind fun _ => (Follows.expect rfl _).bind fun _ => ?_
  exact .expectMark_leftBrace _ _

theorem Beside.returnStatement (hbeside : Beside seam false s s') (hs : s.kind = k)
    (hk : k.isPlain) : ClosedAt seam (returnStatement again) (returnStatement again) s s' := by
  refine (hbeside.alike_take hs hk).ends fun token => ?_
  have hend (value : Option Expr) : Completes seam true (do
      endStatement "expected ';' or newline after return value"
      return Stmt.ret value token.span) := (Completes.endStatement _).map _
  refine .peek (fun t t' ht hplain => ?_) fun t t' ht hkind hkind' => ?_
  · refine Completes.ite_bind (.pure _) (.map _ h.expression.tighten) (fun value => ?_) t t' ht
    exact (Completes.endStatement _).map _
  · rcases hkind' with hkind' | hkind' <;> simp only [hkind, hkind'] <;>
      exact ((Completes.endStatement _).map _) t t' ht

omit h in
theorem Beside.attempt (hbeside : Beside seam false s s') (hs : s.kind = k) (hk : k.isPlain) :
    ClosedAt seam (attempt again n) (attempt again n) s s' :=
  (hbeside.take hs hk fun _ => .expectMark_leftBrace _ _).closed

omit h in
/-- That a target is none is found behind the semicolon, or in front of more tokens. -/
theorem Completes.assignment (op : AssignOp) (target value : Expr) (place : Span)
    (wanted : String) :
    Completes seam true (do
      Parser.endStatement wanted
      match assignTo op value target with
      | some stmt => return stmt
      | none => failAt .invalidAssignmentTarget place) := by
  intro s s' hbeside
  unfold ClosedAt
  rcases hbeside.endStatement_cases wanted with ⟨hs, hs', hend⟩ | ⟨hs, hs', hpast⟩ | ⟨hs, hs'⟩
  · rw [bind_of_ok hs, bind_of_ok hs']
    cases assignTo op value target with
    | some stmt => exact .ok hbeside
    | none => exact .error (.same _) (fun _ => hend) hbeside.loosen
  · rw [bind_of_ok hs, bind_of_ok hs']
    cases assignTo op value target with
    | some stmt => exact .past hpast
    | none => exact .overrun rfl hpast
  · rw [bind_of_error hs, bind_of_error hs']
    exact (Follows.unexpected wanted s s' hbeside).closed

theorem Completes.expressionStatement : Completes seam false (expressionStatement again n) := by
  refine (Follows.expression h.toFollow).ends fun target => .peek ?_ ?_
  · intro t t' ht hplain
    split
    · exact (Completes.endStatement _).map _ t t' ht
    · refine (ht.alike_take rfl hplain).ends fun _ => h.expression.tighten.ends fun _ => ?_
      exact .assignment _ _ _ _ _
  · intro t t' ht hkind hkind'
    rcases hkind' with hkind' | hkind' <;> simp only [hkind, hkind'] <;>
      exact ((Completes.endStatement _).map _) t t' ht

theorem Completes.statement : Completes seam false (statement again n) := by
  refine .peek (fun t t' ht hplain => ?_) fun t t' ht hkind hkind' => ?_
  · split
    · next hkind => exact ht.conditional h hkind rfl
    · next hkind => exact ht.testedLoop h hkind rfl
    · next hkind => exact ht.itemLoop h hkind rfl
    · next hkind => exact ht.switchStatement h hkind rfl
    · next hkind => exact ht.returnStatement h hkind rfl
    · next hkind => exact ht.attempt hkind rfl
    · next hkind => exact (ht.alike_take hkind rfl).ends fun _ => (Completes.endStatement _).map _
    · next hkind => exact (ht.alike_take hkind rfl).ends fun _ => (Completes.endStatement _).map _
    · next hkind =>
      have hbrace : t.kind = .symbol .leftBrace := hkind
      exact absurd (hbrace ▸ hplain) (by decide)
    · exact Completes.expressionStatement h t t' ht
  · rcases hkind' with hkind' | hkind' <;> simp only [hkind, hkind'] <;>
      exact Completes.expressionStatement h t t' ht

omit h in
theorem Beside.nameFollows_eq (hbeside : Beside seam false s s') (hs : s.rest ≠ []) :
    nameFollows s' = nameFollows s := by
  unfold nameFollows
  rcases (hbeside.advance hs).kind_cases with ⟨-, hnext, -⟩ | ⟨-, heof, hbehind⟩
  · have hkind : s'.advance.kind = s.advance.kind := congrArg Token.kind hnext
    rw [hkind]
  · rcases hbehind with hbehind | hbehind <;> rw [heof, hbehind]

/-- Every statement without blocks is read alike alone and in front of a semicolon. -/
theorem Completes.anyStatement : Completes seam false (anyStatement again n) := by
  refine .state (fun s s' hbeside hs hnext => ?_) fun s s' hbeside heof hbehind => ?_
  · have hkind : s'.kind = s.kind := congrArg Token.kind hnext
    simp only [hkind, hbeside.nameFollows_eq hs]
    split
    · next hkind =>
      split
      · exact hbeside.functionDeclaration h hkind rfl
      · exact Completes.statement h s s' hbeside
    · next hkind => exact hbeside.classDeclaration hkind rfl
    · next hkind => exact hbeside.binding h hkind rfl false
    · next hkind => exact hbeside.binding h hkind rfl true
    · next hkind => exact hbeside.importDeclaration hkind rfl
    · exact Completes.statement h s s' hbeside
  · rcases hbehind with hbehind | hbehind <;> simp only [heof, hbehind] <;>
      exact Completes.statement h s s' hbeside

end Statements

/-- The productions are alike in both texts, whatever their budget. -/
theorem productions_end (seam : Seam) (n : Nat) : (productions n).End seam := by
  induction n with
  | zero => exact ⟨⟨fun _ _ _ => .exhausted, fun _ _ _ => .exhausted⟩, fun _ _ _ => .exhausted⟩
  | succ n ih =>
    exact ⟨⟨.expression ih.toFollow, .unary ih.toFollow⟩, .statement ih⟩

end Parser

end ScriptEngine
