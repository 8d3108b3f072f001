import ScriptEngine.Proofs.Declarations
import ScriptEngine.Proofs.ParsedShapes
/-!
# Where parsed trees come from

Whatever is read from a text stands on a line of it. Lines count from one, for a text and for the
code in a template, which counts on from the line of the template. So every token has a line, every
node of a tree has the line of a token, and every complaint is about such a line. The literals of a
tree are those of tokens that were found in a text.

* `Token.Sourced`, `Expr.Sourced`, `Stmt.Sourced`, `Fault.OnLine` : tokens, nodes and faults with a
  line.
* `Token.sourced_of_tokenizeAt`, `Token.onLine_of_tokenizeAt` : the tokens of a text, or what is
  wrong with it.
* `Parser.Locates` : what holds of every value that a parser replies with in front of such tokens.
  There is one rule for each way to put parsers together.
* **`Parser.productions_source`** : the productions of every budget give such trees and faults.
* `Parser.sourced_of_programOf?` : the same for whole texts.
-/

namespace ScriptEngine

/-! ## Tokens -/

/-- The fault is placed, on a line. -/
def Fault.OnLine (f : Fault) : Prop := ∃ span, f.span = some span ∧ 1 ≤ span.line

/-- A line of the source beside a fault does not move it. -/
theorem Fault.span_withSource (f : Fault) (source : String) :
    (f.withSource source).span = f.span := by
  unfold withSource
  split
  · split
    · rfl
    · split <;> rfl
  · rfl

theorem Fault.onLine_withSource {f : Fault} (h : f.OnLine) (source : String) :
    (f.withSource source).OnLine := by
  obtain ⟨span, hspan, hline⟩ := h
  exact ⟨span, (f.span_withSource source).trans hspan, hline⟩

theorem Fault.onLine_placed (cause : Cause) {span : Span} (h : 1 ≤ span.line) :
    (placed cause span).OnLine :=
  ⟨span, rfl, h⟩

namespace Token

/-- A kind that is found somewhere. -/
def Scanned (kind : Kind) : Prop := ∃ c cs more, scan c cs = .found kind more

/-- A token that stands on a line and was found there, unless it is the end. -/
structure Sourced (t : Token) : Prop where
  line : 1 ≤ t.span.line
  kind : t.kind = .eof ∨ Scanned t.kind

theorem line_le_next (p : Position) (c : Char) : p.line ≤ (p.next c).line := by
  unfold Position.next
  split
  · exact Nat.le_succ _
  · exact Nat.le_refl _

theorem line_le_after (p : Position) (cs : List Char) : p.line ≤ (p.after cs).line := by
  induction cs generalizing p with
  | nil => exact Nat.le_refl _
  | cons c cs ih => exact Nat.le_trans (line_le_next p c) (ih (p.next c))

/-- The tokens of a text, or what is wrong with it, stand on lines. -/
theorem sourced_of_tokensFrom (p : Position) (cs : List Char) (hp : 1 ≤ p.line) :
    (∀ tokens, tokensFrom p cs = .ok tokens → ∀ t ∈ tokens, t.Sourced) ∧
      ∀ f, tokensFrom p cs = .error f → f.OnLine := by
  induction p, cs using tokensFrom.induct with
  | case1 p =>
    rw [tokensFrom]
    refine ⟨?_, fun _ h => nomatch h⟩
    rintro _ ⟨⟩
    exact List.forall_mem_singleton.mpr ⟨hp, .inl rfl⟩
  | case2 p c cs hblank ih =>
    rw [tokensFrom, if_pos hblank]
    exact ih (Nat.le_trans hp (line_le_next p c))
  | case3 p c cs hblank error more hscan =>
    rw [tokensFrom, if_neg hblank, hscan]
    refine ⟨fun _ h => (nomatch h), ?_⟩
    rintro _ ⟨⟩
    exact Fault.onLine_placed _ hp
  | case4 p c cs hblank kind more hscan lexeme ih =>
    rw [tokensFrom, if_neg hblank, hscan]
    obtain ⟨hok, herror⟩ := ih (Nat.le_trans hp (line_le_after p lexeme))
    have hhere : (ofScan p kind lexeme).Sourced := ⟨hp, .inr ⟨c, cs, more, hscan⟩⟩
    change (∀ tokens, (tokensFrom (p.after lexeme) (cs.drop more)).bind _ = .ok tokens → _) ∧
      ∀ f, (tokensFrom (p.after lexeme) (cs.drop more)).bind _ = .error f → _
    cases hrest : tokensFrom (p.after lexeme) (cs.drop more) with
    | error f =>
      refine ⟨fun _ h => (nomatch h), ?_⟩
      rintro _ ⟨⟩
      exact herror f hrest
    | ok rest =>
      refine ⟨?_, fun _ h => nomatch h⟩
      rintro _ ⟨⟩
      exact List.forall_mem_cons.mpr ⟨hhere, hok rest hrest⟩

variable {line : Nat} {source : String} {tokens : List Token}

theorem sourced_of_tokenizeAt (hline : 1 ≤ line) (h : tokenizeAt line source = .ok tokens) :
    ∀ t ∈ tokens, t.Sourced :=
  (sourced_of_tokensFrom (.atLine line) source.toList hline).1 tokens h

theorem onLine_of_tokenizeAt {f : Fault} (hline : 1 ≤ line)
    (h : tokenizeAt line source = .error f) :
    f.OnLine :=
  (sourced_of_tokensFrom (.atLine line) source.toList hline).2 f h

/-- There is an end token behind the others. -/
theorem exists_eof_of_tokensFrom {p : Position} {cs : List Char}
    (h : tokensFrom p cs = .ok tokens) :
    ∃ t ∈ tokens, t.kind = .eof := by
  induction p, cs using tokensFrom.induct generalizing tokens with
  | case1 p =>
    rw [tokensFrom] at h
    cases h
    exact ⟨_, List.mem_singleton_self _, rfl⟩
  | case2 p c cs hblank ih =>
    rw [tokensFrom, if_pos hblank] at h
    exact ih h
  | case3 p c cs hblank error more hscan =>
    rw [tokensFrom, if_neg hblank, hscan] at h
    cases h
  | case4 p c cs hblank kind more hscan lexeme =>
    rename_i ih
    rw [tokensFrom, if_neg hblank, hscan] at h
    change (tokensFrom (p.after lexeme) (cs.drop more)).bind _ = .ok tokens at h
    cases hrest : tokensFrom (p.after lexeme) (cs.drop more) with
    | error f =>
      rw [hrest] at h
      cases h
    | ok rest =>
      rw [hrest] at h
      cases h
      obtain ⟨t, ht, heof⟩ := ih hrest
      exact ⟨t, List.mem_cons_of_mem _ ht, heof⟩

end Token

/-! ## Trees -/

/-- The kind of token that a literal with a content of its own is read from. -/
def Expr.literalKind? : Expr → Option Kind
  | .number x _ => some (.number x)
  | .float x _ => some (.float x)
  | .string text _ => some (.string text)
  | _ => none

/-- The node stands on a line, and if it is a literal, it was found in a text. -/
structure Expr.Sourced (e : Expr) : Prop where
  line : 1 ≤ e.span.line
  literal : ∀ k ∈ e.literalKind?, Token.Scanned k

/-- The node stands on a line, and if it is a class, so does the name of what it extends. -/
structure Stmt.Sourced (s : Stmt) : Prop where
  line : 1 ≤ s.span.line
  superclass : ∀ decl, s = .classDecl decl → ∀ mention ∈ decl.superclass, 1 ≤ mention.2.line

/-- Every node of the expression stands on a line. -/
abbrev Expr.Traced : Expr → Prop := Expr.Throughout Expr.Sourced Stmt.Sourced

/-- Every node of the statement stands on a line. -/
abbrev Stmt.Traced : Stmt → Prop := Stmt.Throughout Expr.Sourced Stmt.Sourced

theorem Expr.Traced.line {e : Expr} (h : e.Traced) : 1 ≤ e.span.line :=
  (Expr.throughout_iff.mp h).1.line

theorem Expr.Traced.children {e : Expr} (h : e.Traced) : ∀ e' ∈ e.children, e'.Traced :=
  (Expr.throughout_iff.mp h).2.1

/-- A node whose content is in its operands. -/
theorem Expr.traced_of_children {e : Expr} (hline : 1 ≤ e.span.line) (hl : e.literalKind? = none)
    (hf : e.functions = []) (h : ∀ e' ∈ e.children, e'.Traced) : e.Traced :=
  ⟨⟨hline, by rw [hl]; exact nofun⟩, h, by rw [hf]; exact nofun⟩

/-- A statement that makes no functions. -/
theorem Stmt.traced_of_parts {s : Stmt} (hline : 1 ≤ s.span.line) (hc : ∀ decl, s ≠ .classDecl decl)
    (hf : s.functions = []) (he : ∀ e ∈ s.exprs, e.Traced) (hi : ∀ s' ∈ s.inner, s'.Traced) :
    s.Traced := by
  refine ⟨⟨hline, fun decl h => absurd h (hc decl)⟩, he, hi, by rw [hf]; exact nofun, ?_⟩
  cases s with
  | classDecl decl => exact absurd rfl (hc decl)
  | _ => exact nofun

namespace Parser

variable {α β : Type} {p : Parser α} {f : α → Parser β} {P P' : α → Prop} {Q : β → Prop} {s : State}

/-! ## Parsers in front of such tokens -/

/-- The tokens ahead stand on lines, and so does everything that was recorded. -/
structure State.Sourced (s : State) : Prop where
  previous : ∀ t ∈ s.previous, t.Sourced
  rest : ∀ t ∈ s.rest, t.Sourced
  stop : 1 ≤ s.stop.line
  recorded : ∀ f ∈ s.recorded, f.OnLine

/-- The value is in `P`, or the fault is on a line, and so is everything ahead. -/
def Reply.Sourced (P : α → Prop) : Reply α → Prop
  | .ok a t => P a ∧ t.Sourced
  | .error f t => f.OnLine ∧ t.Sourced
  | .exhausted => True

/-- In front of tokens on lines the parser replies with a value in `P`, or with a fault on a
line. -/
def Locates (p : Parser α) (P : α → Prop) : Prop := ∀ s : State, s.Sourced → (p s).Sourced P

namespace State.Sourced

theorem next (h : s.Sourced) : s.next.Sourced := by
  cases hrest : s.rest with
  | nil =>
    have hnext : s.next = ⟨.eof, s.stop, ""⟩ := by rw [State.next, hrest]; rfl
    rw [hnext]
    exact ⟨h.stop, .inl rfl⟩
  | cons t ts =>
    have hnext : s.next = t := by rw [State.next, hrest]; rfl
    rw [hnext]
    exact h.rest t (hrest ▸ List.mem_cons_self)

theorem advance (h : s.Sourced) : s.advance.Sourced := by
  unfold State.advance
  split
  · exact h
  · next t ts hrest =>
    refine ⟨?_, fun u hu => h.rest u (hrest ▸ List.mem_cons_of_mem t hu), h.stop, h.recorded⟩
    rintro u ⟨⟩
    exact h.rest t (hrest ▸ List.mem_cons_self)

theorem atDepth (h : s.Sourced) (depth : Nat) : State.Sourced { s with depth } :=
  ⟨h.previous, h.rest, h.stop, h.recorded⟩

theorem skipFrom {previous : Option Token} {tokens : List Token} (hp : ∀ t ∈ previous, t.Sourced)
    (ht : ∀ t ∈ tokens, t.Sourced) : (∀ t ∈ (Parser.skipFrom previous tokens).1, t.Sourced) ∧
      ∀ t ∈ (Parser.skipFrom previous tokens).2, t.Sourced := by
  induction tokens generalizing previous with
  | nil => exact ⟨hp, ht⟩
  | cons t ts ih =>
    obtain ⟨hhead, htail⟩ := List.forall_mem_cons.mp ht
    unfold Parser.skipFrom
    split
    · exact ⟨hp, ht⟩
    · exact ih (fun u hu => by cases hu; exact hhead) htail

/-- Where reading goes on after a mistake there are no other tokens. -/
theorem resume (h : s.Sourced) : s.resume.Sourced := by
  have hfrom {t : State} (ht : t.Sourced) : State.Sourced
      { t with
        previous := (Parser.skipFrom t.previous t.rest).1
        rest := (Parser.skipFrom t.previous t.rest).2 } :=
    ⟨(skipFrom ht.previous ht.rest).1, (skipFrom ht.previous ht.rest).2, ht.stop, ht.recorded⟩
  unfold State.resume
  simp only
  split
  · exact hfrom h
  · exact hfrom h.advance

end State.Sourced

/-- A parser begins in front of the tokens of a text. -/
theorem sourced_ofTokens {line : Nat} {source : String} {tokens : List Token} (hline : 1 ≤ line)
    (h : Token.tokenizeAt line source = .ok tokens) : (State.ofTokens tokens).Sourced := by
  have hall := Token.sourced_of_tokenizeAt hline h
  have hseen : ∀ t ∈ tokens.filter fun t => t.kind != .comment, t.Sourced :=
    fun t ht => hall t (List.mem_filter.mp ht).1
  refine ⟨nofun, fun t ht => hseen t ((List.takeWhile_sublist _).subset ht), ?_,
    List.forall_mem_nil _⟩
  obtain ⟨stop, hmem, heof⟩ := Token.exists_eof_of_tokensFrom h
  have hfind :
      ((tokens.filter fun t => t.kind != .comment).find? fun t => t.kind == .eof).isSome := by
    refine List.find?_isSome.mpr ⟨stop, List.mem_filter.mpr ⟨hmem, ?_⟩, ?_⟩
    · rw [heof]; rfl
    · rw [heof]; rfl
  obtain ⟨t, ht⟩ := Option.isSome_iff_exists.mp hfind
  unfold State.ofTokens
  simp only [ht]
  exact (hseen t (List.mem_of_find?_eq_some ht)).line

namespace Locates

/-- What the first parser gives, the second one may count on. -/
theorem bind (hp : Locates p P) (hf : ∀ a, P a → Locates (f a) Q) : Locates (p >>= f) Q := by
  intro s hs
  have hfirst := hp s hs
  change Reply.Sourced Q (match p s with
    | .ok a s' => f a s' | .error e s' => .error e s' | .exhausted => .exhausted)
  cases hr : p s with
  | ok a t =>
    rw [hr] at hfirst
    exact hf a hfirst.1 t hfirst.2
  | error fault t => rw [hr] at hfirst; exact hfirst
  | exhausted => trivial

theorem imp (hp : Locates p P) (h : ∀ a, P a → P' a) : Locates p P' := by
  intro s hs
  have hp := hp s hs
  unfold Reply.Sourced at *
  split at hp
  · exact ⟨h _ hp.1, hp.2⟩
  · exact hp
  · trivial

theorem pure {a : α} (h : P a) : Locates (Pure.pure a) P := fun _ hs => ⟨h, hs⟩

theorem exhausted : Locates exhausted P := fun _ _ => trivial

theorem failAt (error : SyntaxError) {span : Span} (h : 1 ≤ span.line) :
    Locates (failAt error span) P :=
  fun _ hs => ⟨Fault.onLine_placed _ h, hs⟩

theorem unexpected (wanted : String) : Locates (unexpected wanted) P :=
  fun _ hs => ⟨Fault.onLine_placed _ hs.next.line, hs⟩

theorem peek : Locates peek Token.Sourced := fun _ hs => ⟨hs.next, hs⟩

theorem take : Locates take Token.Sourced := fun _ hs => ⟨hs.next, hs.advance⟩

theorem state : Locates state State.Sourced := fun _ hs => ⟨hs, hs⟩

theorem check (k : Kind) : Locates (check k) fun _ => True := fun _ hs => ⟨trivial, hs⟩

theorem accept (k : Kind) : Locates (accept k) fun _ => True := by
  intro s hs
  unfold Parser.accept
  split
  · exact ⟨trivial, hs.advance⟩
  · exact ⟨trivial, hs⟩

theorem expect (k : Kind) (wanted : String) : Locates (expect k wanted) Token.Sourced := by
  intro s hs
  unfold Parser.expect
  split
  · exact ⟨hs.next, hs.advance⟩
  · exact unexpected wanted s hs

theorem expectName (wanted : String) : Locates (expectName wanted) fun _ => True := by
  intro s hs
  unfold Parser.expectName
  split
  · exact ⟨trivial, hs.advance⟩
  · exact unexpected wanted s hs

theorem ite {c : Prop} [Decidable c] {q : Parser α} (hp : Locates p P) (hq : Locates q P) :
    Locates (if c then p else q) P := by
  split
  · exact hp
  · exact hq

/-- Either way the same goes on. -/
theorem ite_bind {c : Prop} [Decidable c] {q : Parser α} (hp : Locates p P) (hq : Locates q P)
    (hf : ∀ a, P a → Locates (f a) Q) : Locates (if c then p >>= f else q >>= f) Q :=
  .ite (hp.bind hf) (hq.bind hf)

/-- A mark or a word that is passed over. -/
theorem pass {f : Token → Parser β} (k : Kind) (wanted : String) (hf : ∀ t, Locates (f t) Q) :
    Locates (Parser.expect k wanted >>= f) Q :=
  (expect k wanted).bind fun t _ => hf t

/-- A thing that may be left out. -/
theorem some (hp : Locates p P) : Locates (Option.some <$> p) fun o => ∀ a ∈ o, P a :=
  hp.bind fun _ ha => .pure fun _ hb => by cases hb; exact ha

theorem none : Locates (Pure.pure (Option.none : Option α)) fun o => ∀ a ∈ o, P a := .pure nofun

theorem nil : Locates (Pure.pure ([] : List α)) fun as => ∀ a ∈ as, P a := .pure nofun

theorem cons {a : α} {q : Parser (List α)} (ha : P a) (hq : Locates q fun as => ∀ a ∈ as, P a) :
    Locates (do return a :: (← q)) fun as => ∀ a ∈ as, P a :=
  hq.bind fun _ has => .pure (List.forall_mem_cons.mpr ⟨ha, has⟩)

theorem nested (hp : Locates p P) : Locates (nested p) P := by
  intro s hs
  have hp := hp _ (hs.atDepth (s.depth + 1))
  unfold Parser.nested
  cases hr : p { s with depth := s.depth + 1 } with
  | ok a t => rw [hr] at hp; exact ⟨hp.1, hp.2.atDepth _⟩
  | error fault t => rw [hr] at hp; exact ⟨hp.1, State.Sourced.atDepth hp.2 _⟩
  | exhausted => trivial

/-- What cannot be read is recorded. -/
theorem recover (hp : Locates p P) : Locates (recover p) fun o => ∀ a ∈ o, P a := by
  intro s hs
  have hp := hp s hs
  unfold Parser.recover
  cases hr : p s with
  | ok a t =>
    rw [hr] at hp
    exact ⟨fun b hb => by cases hb; exact hp.1, hp.2⟩
  | error fault t =>
    rw [hr] at hp
    refine ⟨nofun, State.Sourced.resume (s := { t with recorded := fault :: t.recorded }) ?_⟩
    exact ⟨hp.2.previous, hp.2.rest, hp.2.stop, List.forall_mem_cons.mpr ⟨hp.1, hp.2.recorded⟩⟩
  | exhausted => trivial

end Locates

/-! ### Loops -/

theorem locates_gather {step : Parser (Option (List α))}
    (hstep : Locates step fun o => ∀ as ∈ o, ∀ a ∈ as, P a) (n : Nat) :
    Locates (gather step n) fun as => ∀ a ∈ as, P a := by
  induction n with
  | zero => exact .exhausted
  | succ n ih =>
    refine hstep.bind fun o ho => ?_
    cases o with
    | none => exact .nil
    | some as =>
      exact ih.bind fun rest hrest => .pure (List.forall_mem_append.mpr ⟨ho as rfl, hrest⟩)

theorem locates_separated (what : String) (hp : Locates p P) (room : Nat) :
    Locates (separated what p room) fun as => ∀ a ∈ as, P a := by
  induction room with
  | zero => exact .bind .peek fun t ht => .failAt _ ht.line
  | succ room ih =>
    exact hp.bind fun a ha => .bind (.accept _) fun _ _ =>
      .ite (.cons ha ih) (.pure (List.forall_mem_singleton.mpr ha))

theorem locates_trailing (close : Symbol) (hp : Locates p P) (n : Nat) :
    Locates (trailing close p n) fun as => ∀ a ∈ as, P a := by
  induction n with
  | zero => exact .exhausted
  | succ n ih =>
    refine hp.bind fun a ha => ?_
    have single : Locates (return [a]) fun as => ∀ a ∈ as, P a :=
      .pure (List.forall_mem_singleton.mpr ha)
    exact .bind (.accept _) fun _ _ =>
      .ite (.bind (.check _) fun _ _ => .ite single (.cons ha ih)) single

theorem locates_chainFrom {operator? : Kind → Option (Expr → Expr → Expr)} {operand : Parser Expr}
    {P : Expr → Prop} (hoperand : Locates operand P)
    (hcombine : ∀ k combine, operator? k = some combine → ∀ a b, P a → P b → P (combine a b))
    (n : Nat) {left : Expr} (hleft : P left) : Locates (chainFrom operator? operand n left) P := by
  induction n generalizing left with
  | zero => exact .exhausted
  | succ n ih =>
    refine .bind .peek fun token _ => ?_
    split
    · exact .pure hleft
    · next combine hk =>
      exact .bind .take fun _ _ => hoperand.bind fun right hright =>
        ih (hcombine _ combine hk left right hleft hright)

/-! ## The grammar -/

/-- Productions that give trees and faults on lines. -/
structure Productions.Source (again : Productions) : Prop where
  expression : Locates again.expression Expr.Traced
  unary : Locates again.unary Expr.Traced
  statement : Locates again.statement Stmt.Traced
  declaration : Locates again.declaration fun o => ∀ s ∈ o, s.Traced

/-- A function whose statements stand on lines, declared on a line. -/
def FunctionTraced (span : Span) (d : FunctionDecl) : Prop := d.span = span ∧ ∀ s ∈ d.body, s.Traced

section Parts

variable {again : Productions} (h : again.Source) (n : Nat) {span : Span} (hspan : 1 ≤ span.line)

/-! ### Blocks and functions -/

include h in
theorem locates_sequence (stops : Kind → Bool) :
    Locates (sequence again n stops) fun body => ∀ s ∈ body, s.Traced := by
  refine locates_gather (.bind .peek fun token _ => .ite (.pure nofun) (.bind (.accept _) fun _ _ =>
    .ite ?_ ?_)) n
  · exact .pure fun as has => by cases has; exact nofun
  · refine h.declaration.bind fun o ho => .pure fun as has s hs => ?_
    cases has
    exact ho s (Option.mem_toList.mp hs)

include h in
theorem locates_block : Locates (block again n) fun body => ∀ s ∈ body, s.Traced :=
  (locates_sequence h n _).nested.bind fun _ hbody => .pass _ _ fun _ => .pure hbody

include h in
theorem locates_functionRest (name : Option String) (span : Span) :
    Locates (functionRest again n name span) (FunctionTraced span) := by
  have params : Locates (separated "parameters" (expectName "expected parameter name") maxArguments)
      fun _ => True :=
    (locates_separated _ (.expectName _) _).imp fun _ _ => trivial
  refine .pass _ _ fun _ => .bind (.check _) fun _ _ => .ite_bind (.pure trivial) params
    fun params _ =>
    .pass _ _ fun _ => .ite_bind (.accept _) (.pure trivial) fun short _ => .ite ?_ ?_
  · exact h.expression.bind fun value hvalue => .pure ⟨rfl, List.forall_mem_singleton.mpr
      (Stmt.traced_of_parts hvalue.line nofun rfl (List.forall_mem_singleton.mpr hvalue) nofun)⟩
  · exact .pass _ _ fun _ => (locates_block h n).bind fun body hbody => .pure ⟨rfl, hbody⟩

/-! ### Expressions -/

include h hspan in
/-- The code in a template counts its lines from the template's. -/
theorem locates_embedded (code : String) : Locates (embedded again code span) Expr.Traced := by
  intro s hs
  have hbad (cause : Cause) : Reply.Sourced Expr.Traced (.error (.placed cause span) s) :=
    ⟨Fault.onLine_placed _ hspan, hs⟩
  unfold embedded
  simp only
  split
  · exact hbad _
  · next tokens htokens =>
    have hread := h.expression _ (sourced_ofTokens hspan htokens)
    cases hr : again.expression (.ofTokens tokens) with
    | ok e inner =>
      rw [hr] at hread
      simp only
      split
      · exact hbad _
      · split
        · exact hbad _
        · exact ⟨hread.1, hs⟩
    | error f inner => exact hbad _
    | exhausted => trivial

include h hspan in
theorem locates_templateParts (pieces : List Template.Piece) :
    Locates (templateParts again span pieces)
      fun parts => ∀ p ∈ parts, ∀ e ∈ p.expr?, e.Traced := by
  induction pieces with
  | nil => exact .nil
  | cons piece pieces ih =>
    cases piece with
    | text cs => exact .cons (a := Part.literal (String.ofList cs)) nofun ih
    | unmatched => exact .failAt _ hspan
    | code cs =>
      exact .ite (.failAt _ hspan) ((locates_embedded h hspan _).bind fun e he =>
        .cons (a := Part.embedded e) (fun _ hmem => by cases hmem; exact he) ih)

include h hspan in
theorem locates_listLiteral : Locates (listLiteral again n span) Expr.Traced :=
  .bind (.check _) fun _ _ => .ite_bind .nil (locates_trailing _ h.expression n) fun _ helements =>
    .pass _ _ fun _ => .pure (Expr.traced_of_children hspan rfl rfl helements)

include h in
theorem locates_mapEntry : Locates (mapEntry again) fun entry => entry.2.Traced := by
  have rest (key : String) : Locates (do
      let _ ← take
      let _ ← expectMark .colon "expected ':' after map key"
      return (key, ← again.expression)) fun entry => entry.2.Traced :=
    .bind .take fun _ _ => .pass _ _ fun _ => h.expression.bind fun _ he => .pure he
  refine .bind .peek fun token _ => ?_
  split
  · exact .bind (.pure (P := fun _ => True) trivial) fun key _ => rest key
  · exact .bind (.pure (P := fun _ => True) trivial) fun key _ => rest key
  · exact .bind (.unexpected (P := fun _ => True) _) fun key _ => rest key

include h hspan in
theorem locates_mapLiteral : Locates (mapLiteral again n span) Expr.Traced := by
  refine .bind (.check _) fun _ _ => .ite_bind .nil (locates_trailing _ (locates_mapEntry h) n)
    fun _ hentries => .pass _ _ fun _ => .pure (Expr.traced_of_children hspan rfl rfl fun e he =>
      ?_)
  obtain ⟨entry, hentry, rfl⟩ := List.mem_map.mp he
  exact hentries entry hentry

include h in
theorem locates_primary : Locates (primary again n) Expr.Traced := by
  have leaf {e : Expr} (hline : 1 ≤ e.span.line) (hl : ∀ k ∈ e.literalKind?, Token.Scanned k)
      (hc : e.children = []) (hf : e.functions = []) :
      Locates (do let _ ← take; return e) Expr.Traced :=
    .bind .take fun _ _ => .pure
      ⟨⟨hline, hl⟩, by rw [hc]; exact nofun, by rw [hf]; exact nofun⟩
  refine .bind .peek fun token htoken => ?_
  have hline := htoken.line
  -- what a literal holds was found in the text
  have hscanned {k : Kind} (hk : token.kind = k) (hne : k ≠ .eof) : ∀ k' ∈ some k,
      Token.Scanned k' := by
    rintro k' ⟨⟩
    exact hk ▸ htoken.kind.resolve_left (hk ▸ hne)
  simp only
  split
  case h_1 hk => exact leaf hline (hscanned hk nofun) rfl rfl
  case h_2 hk => exact leaf hline (hscanned hk nofun) rfl rfl
  case h_3 hk => exact leaf hline (hscanned hk nofun) rfl rfl
  case h_9 body _ =>
    refine .bind .take fun _ _ => (locates_templateParts h hline _).bind fun parts hparts =>
      .pure (Expr.traced_of_children hline rfl rfl fun e he => ?_)
    obtain ⟨p, hp, hpe⟩ := List.mem_filterMap.mp he
    exact hparts p hp e hpe
  case h_10 =>
    exact .bind .take fun _ _ => (locates_functionRest h n _ _).bind fun d hd =>
      .pure ⟨⟨hline, nofun⟩, nofun, List.forall_mem_singleton.mpr hd.2⟩
  case h_11 =>
    exact .bind .take fun _ _ => h.expression.bind fun _ he => .pass _ _ fun _ => .pure he
  case h_12 => exact .bind .take fun _ _ => locates_listLiteral h n hline
  case h_13 => exact .bind .take fun _ _ => locates_mapLiteral h n hline
  case h_14 => exact .failAt _ hline
  all_goals exact leaf hline nofun rfl rfl

include h in
theorem locates_callRest {callee : Expr} (hcallee : callee.Traced) :
    Locates (callRest again callee) Expr.Traced :=
  .bind (.check _) fun _ _ => .ite_bind .nil (locates_separated _ h.expression _) fun _ hargs =>
    .pass _ _ fun _ => .pure (Expr.traced_of_children hcallee.line rfl rfl
      (List.forall_mem_cons.mpr ⟨hcallee, hargs⟩))

include h in
theorem locates_trailers {e : Expr} (he : e.Traced) : Locates (trailers again n e) Expr.Traced := by
  induction n generalizing e with
  | zero => exact .exhausted
  | succ n ih =>
    refine .bind .state fun _ _ => .ite ?_ (.ite ?_ (.ite ?_ (.pure he)))
    · exact .bind .take fun _ _ => (locates_callRest h he).bind fun _ => ih
    · exact .bind .take fun _ _ => h.expression.bind fun _ hkey => .pass _ _ fun _ =>
        ih (Expr.traced_of_children he.line rfl rfl (by simp [Expr.children, he, hkey]))
    · exact .bind .take fun _ _ => .bind (.expectName _) fun _ _ => .bind .state fun _ _ =>
        ih (Expr.traced_of_children he.line rfl rfl (by simp [Expr.children, he]))

include h in
theorem locates_unary : Locates (unary again n) Expr.Traced := by
  refine .bind .peek fun token htoken => ?_
  simp only
  split
  · exact .bind .take fun _ _ => h.unary.bind fun _ he =>
      .pure (Expr.traced_of_children htoken.line rfl rfl (by simp [Expr.children, he]))
  · exact (locates_primary h n).bind fun _ => locates_trailers h n

/-- An operator between operands stands where the left one does. -/
theorem traced_operatorIn {operators : List (Symbol × (Expr → Expr → Expr))}
    (hlevel : operators ∈ levels) {k : Kind} {combine : Expr → Expr → Expr}
    (hk : operatorIn operators k = some combine) {a b : Expr} (ha : a.Traced) (hb : b.Traced) :
    (combine a b).Traced := by
  rcases tree_of_operatorIn hlevel hk with ⟨op, rfl⟩ | ⟨op, rfl⟩
  · exact Expr.traced_of_children ha.line rfl rfl (by simp [binaryTree, Expr.children, ha, hb])
  · exact Expr.traced_of_children ha.line rfl rfl (by simp [logicalTree, Expr.children, ha, hb])

theorem locates_levels {operand : Parser Expr} (hoperand : Locates operand Expr.Traced) :
    ∀ ls : List (List (Symbol × (Expr → Expr → Expr))), ls ⊆ levels →
      Locates (ls.foldl (fun operand operators => chain (operatorIn operators) operand n) operand)
        Expr.Traced
  | [], _ => hoperand
  | operators :: ls, hsub => by
    have hlevel : operators ∈ levels := hsub List.mem_cons_self
    have hchain : Locates (chain (operatorIn operators) operand n) Expr.Traced :=
      hoperand.bind fun _ hleft =>
        locates_chainFrom hoperand (fun _ _ hk _ _ => traced_operatorIn hlevel hk) n hleft
    exact locates_levels hchain ls fun _ hmem => hsub (List.mem_cons_of_mem _ hmem)

include h in
theorem locates_expression : Locates (expression again n) Expr.Traced :=
  locates_levels n (locates_unary h n) levels (List.Subset.refl _)

/-! ### Declarations -/

theorem locates_endStatement (wanted : String) : Locates (endStatement wanted) fun _ => True := by
  refine .bind (.accept _) fun _ _ => .ite (.pure trivial) (.bind .state fun s _ => ?_)
  simp only
  exact .ite (.pure trivial) (.unexpected _)

include h in
theorem locates_binding (constant : Bool) : Locates (binding again constant) Stmt.Traced :=
  .bind .take fun _ ht => .bind (.expectName _) fun _ _ => .bind (.accept _) fun _ _ =>
    .ite_bind (.some h.expression) .none fun _ hinitial =>
      .bind (locates_endStatement _) fun _ _ => .pure (Stmt.traced_of_parts ht.line nofun rfl
        (fun e he => hinitial e (Option.mem_toList.mp he)) nofun)

include h in
theorem locates_functionDeclaration : Locates (functionDeclaration again n) Stmt.Traced :=
  .bind .take fun _ ht => .bind (.expectName _) fun _ _ => (locates_functionRest h n _ _).bind
    fun _ hd =>
    .pure ⟨⟨(congrArg Span.line hd.1).symm ▸ ht.line, nofun⟩, nofun, nofun,
      List.forall_mem_singleton.mpr hd.2, nofun⟩

include h in
theorem locates_members (m : Nat) {static : Option (List Stmt)}
    (hstatic : ∀ block ∈ static, ∀ s ∈ block, s.Traced) :
    Locates (members again n m static) fun found =>
      (∀ d ∈ found.1, ∀ s ∈ d.body, s.Traced) ∧ ∀ block ∈ found.2, ∀ s ∈ block, s.Traced := by
  induction m generalizing static with
  | zero => exact .exhausted
  | succ m ih =>
    refine .bind .peek fun token htoken => ?_
    split
    · exact .pure ⟨nofun, hstatic⟩
    · exact .pure ⟨nofun, hstatic⟩
    · exact .bind .take fun _ _ => ih hstatic
    · exact .bind .take fun _ _ => .bind (.expectName _) fun name _ =>
        (locates_functionRest h n _ _).bind fun d hd => (ih hstatic).bind fun found hfound =>
          .pure ⟨List.forall_mem_cons.mpr ⟨hd.2, hfound.1⟩, hfound.2⟩
    · refine .ite (.bind .take fun _ _ => .pass _ _ fun _ =>
        (locates_block h n).bind fun body hbody => ih ?_)
        (.failAt _ htoken.line)
      rintro block ⟨⟩
      exact hbody
    · exact .failAt _ htoken.line

include h in
theorem locates_classDeclaration : Locates (classDeclaration again n) Stmt.Traced := by
  have hnone : ∀ block ∈ (none : Option (List Stmt)), ∀ s ∈ block, s.Traced := nofun
  have rest {name : String} {superclass : Option (String × Span)}
      (hs : ∀ mention ∈ superclass, 1 ≤ mention.2.line) {span : Span} (hspan : 1 ≤ span.line) :
      Locates (do
        let _ ← expectMark .leftBrace "expected '\x7b' before class body"
        let found ← members again n n none
        let _ ← expectMark .rightBrace "expected '\x7d' after class body"
        return Stmt.classDecl ⟨name, superclass, found.1, found.2, span⟩) Stmt.Traced :=
    .pass _ _ fun _ => (locates_members h n n hnone).bind fun found hfound => .pass _ _ fun _ =>
      .pure
      ⟨⟨hspan, fun decl hd => by cases hd; exact hs⟩, nofun, nofun, hfound.1,
        fun block hblock => hfound.2 block (Option.mem_toList.mp hblock)⟩
  refine .bind .take fun t ht => .bind (.expectName _) fun name _ => .bind (.accept _) fun _ _ =>
    .ite ?_ ?_
  · refine .bind .peek fun mention hmention => .bind (.expectName _) fun superName _ =>
      .bind (.pure (P := fun o => ∀ mention ∈ o, 1 ≤ mention.2.line) ?_) fun o ho => rest ho ht.line
    rintro _ ⟨⟩
    exact hmention.line
  · exact .bind (.pure (P := fun o => ∀ mention ∈ o, 1 ≤ mention.2.line) nofun) fun o ho =>
      rest ho ht.line

theorem locates_pathRest (m : Nat) : Locates (pathRest m) fun _ => True := by
  induction m with
  | zero => exact .exhausted
  | succ m ih =>
    exact .bind (.accept _) fun _ _ =>
      .ite (.bind (.expectName _) fun _ _ => ih.bind fun _ _ => .pure trivial) (.pure trivial)

theorem locates_importDeclaration : Locates (importDeclaration n) Stmt.Traced :=
  .bind .take fun _ ht => .bind (.expectName _) fun _ _ => (locates_pathRest n).bind fun _ _ =>
    .bind (locates_endStatement _) fun _ _ =>
      .pure (Stmt.traced_of_parts ht.line nofun rfl nofun nofun)

/-! ### Statements -/

include h in
theorem locates_conditional : Locates (conditional again) Stmt.Traced := by
  refine .bind .take fun t ht => .pass _ _ fun _ => h.expression.bind fun test htest =>
    .pass _ _ fun _ => ?_
  refine h.statement.bind fun thenBranch hthen => .bind (.accept _) fun _ _ =>
    .ite_bind (.some h.statement) .none fun elseBranch helse => .pure ?_
  exact Stmt.traced_of_parts ht.line nofun rfl (List.forall_mem_singleton.mpr htest)
    (List.forall_mem_cons.mpr ⟨hthen, fun b hb => helse b (Option.mem_toList.mp hb)⟩)

include h in
theorem locates_testedLoop : Locates (testedLoop again) Stmt.Traced :=
  .bind .take fun _ ht => .pass _ _ fun _ => h.expression.bind fun _ htest => .pass _ _ fun _ =>
    h.statement.bind fun _ hbody => .pure (Stmt.traced_of_parts ht.line nofun rfl
      (List.forall_mem_singleton.mpr htest) (List.forall_mem_singleton.mpr hbody))

include h in
theorem locates_itemLoop : Locates (itemLoop again) Stmt.Traced :=
  .bind .take fun _ ht => .pass _ _ fun _ => .bind (.expectName _) fun _ _ => .pass _ _ fun _ =>
    h.expression.bind fun _ hiterable => .pass _ _ fun _ => h.statement.bind fun _ hbody =>
      .pure (Stmt.traced_of_parts ht.line nofun rfl (List.forall_mem_singleton.mpr hiterable)
        (List.forall_mem_singleton.mpr hbody))

/-- A clause whose values and statements stand on lines. -/
def ClauseTraced (clause : SwitchCase) : Prop :=
  (∀ e ∈ clause.values.getD [], e.Traced) ∧ ∀ s ∈ clause.body, s.Traced

include h in
theorem locates_switchCases (m : Nat) (hasDefault : Bool) :
    Locates (switchCases again n m hasDefault) fun clauses => ∀ k ∈ clauses, ClauseTraced k := by
  induction m generalizing hasDefault with
  | zero => exact .exhausted
  | succ m ih =>
    have rest (values : Option (List Expr)) (hvalues : ∀ es ∈ values, ∀ e ∈ es, e.Traced)
      (span : Span) :
        Locates (do
          let _ ← expectMark .colon "expected ':' after case/default"
          let body ← nested (sequence again n fun kind =>
            kind == .keyword .kwCase || kind == .keyword .kwDefault || kind == .symbol .rightBrace)
          let cases ← switchCases again n m (hasDefault || values.isNone)
          return ⟨values, body, span⟩ :: cases) fun clauses => ∀ k ∈ clauses, ClauseTraced k := by
      refine .pass _ _ fun _ => (locates_sequence h n _).nested.bind fun body hbody =>
        (ih _).bind fun clauses hclauses => .pure (List.forall_mem_cons.mpr ⟨⟨?_, hbody⟩, hclauses⟩)
      cases values with
      | none => exact nofun
      | some es => exact hvalues es rfl
    refine .bind .peek fun token htoken => .ite (.pure nofun)
      (.bind (.accept _) fun _ _ => .ite ?_ (.bind (.accept _) fun _ _ => .ite ?_
        (.bind (.unexpected _) fun values hvalues => rest values hvalues _)))
    · exact (Locates.some (locates_trailing _ h.expression n)).bind fun values hvalues =>
        rest values hvalues _
    · exact .ite (.bind (.failAt _ htoken.line) fun values hvalues => rest values hvalues _)
        (.bind .none fun values hvalues => rest values hvalues _)

include h in
theorem locates_switchStatement : Locates (switchStatement again n) Stmt.Traced := by
  refine .bind .take fun t ht => .pass _ _ fun _ => h.expression.bind fun subject hsubject =>
    .pass _ _ fun _ => .pass _ _ fun _ => (locates_switchCases h n n _).bind fun clauses hclauses =>
      .pass _ _ fun _ => .pure (Stmt.traced_of_parts ht.line nofun rfl ?_ ?_)
  · refine List.forall_mem_cons.mpr ⟨hsubject, fun e he => ?_⟩
    obtain ⟨k, hk, hke⟩ := List.mem_flatMap.mp he
    exact (hclauses k hk).1 e hke
  · intro s hs
    obtain ⟨k, hk, hks⟩ := List.mem_flatMap.mp hs
    exact (hclauses k hk).2 s hks

include h in
theorem locates_returnStatement : Locates (returnStatement again) Stmt.Traced :=
  .bind .take fun _ ht => .bind .peek fun _ _ => .ite_bind .none (.some h.expression)
    fun _ hvalue =>
    .bind (locates_endStatement _) fun _ _ => .pure (Stmt.traced_of_parts ht.line nofun rfl
      (fun e he => hvalue e (Option.mem_toList.mp he)) nofun)

include h in
theorem locates_attempt : Locates (attempt again n) Stmt.Traced := by
  have hblock := locates_block h n
  have rest {body : List Stmt} (hbody : ∀ s ∈ body, s.Traced)
    {handler : Option (String × List Stmt)}
      (hhandler : ∀ k ∈ handler, ∀ s ∈ k.2, s.Traced) {span : Span} (hspan : 1 ≤ span.line) :
      Locates (do
        let cleanup ← if ← acceptWord .kwFinally then do
            let _ ← expectMark .leftBrace "expected '\x7b' before 'finally' body"
            some <$> block again n
          else pure none
        if handler.isNone && cleanup.isNone then failAt .tryWithoutHandler span
        else return Stmt.attempt body handler cleanup span) Stmt.Traced := by
    have hends (cleanup : Option (List Stmt)) (hcleanup : ∀ k ∈ cleanup, ∀ s ∈ k, s.Traced) :
        Locates (if handler.isNone && cleanup.isNone then failAt .tryWithoutHandler span
          else return Stmt.attempt body handler cleanup span) Stmt.Traced := by
      refine .ite (.failAt _ hspan) (.pure (Stmt.traced_of_parts hspan nofun rfl nofun ?_))
      refine List.forall_mem_append.mpr ⟨List.forall_mem_append.mpr ⟨hbody, ?_⟩, ?_⟩
      · cases handler with
        | none => exact nofun
        | some k => exact hhandler k rfl
      · cases cleanup with
        | none => exact nofun
        | some k => exact hcleanup k rfl
    exact .bind (.accept _) fun _ _ => .ite
      (.pass _ _ fun _ => (Locates.some hblock).bind fun cleanup hcleanup => hends cleanup hcleanup)
      (Locates.none.bind fun cleanup hcleanup => hends cleanup hcleanup)
  refine .bind .take fun t ht => .pass _ _ fun _ => hblock.bind fun body hbody =>
    .bind (.accept _) fun _ _ =>
    .ite ?_ ?_
  · refine .pass _ _ fun _ => .bind (.expectName _) fun name _ => .pass _ _ fun _ =>
      .pass _ _ fun _ => ?_
    refine hblock.bind fun handler hhandler =>
      Locates.bind (P := fun o => ∀ k ∈ o, ∀ s ∈ k.2, s.Traced)
        (.pure fun k hk => by cases hk; exact hhandler) fun o ho => rest hbody ho ht.line
  · exact Locates.bind (P := fun o => ∀ k ∈ o, ∀ s ∈ k.2, s.Traced) .none fun o ho =>
      rest hbody ho ht.line

/-- An assignment stands where its target does. -/
theorem traced_assignTo {op : AssignOp} {value target : Expr} (hvalue : value.Traced)
    (htarget : target.Traced) {s : Stmt} (hs : assignTo op value target = some s) : s.Traced := by
  have hline := htarget.line
  have hparts := htarget.children
  unfold assignTo at hs
  have of_expr {e : Expr} (hs : some (.expr e) = some s) (he : e.Traced) : s.Traced := by
    cases hs
    exact Stmt.traced_of_parts he.line (fun _ h => Stmt.noConfusion h) rfl
      (List.forall_mem_singleton.mpr he)
      (List.forall_mem_nil _)
  split at hs
  · cases hs
    exact Stmt.traced_of_parts hline (fun _ h => Stmt.noConfusion h) rfl
      (List.forall_mem_singleton.mpr hvalue)
      (List.forall_mem_nil _)
  · exact of_expr hs (Expr.traced_of_children hline rfl rfl (by simp_all [Expr.children]))
  · exact of_expr hs (Expr.traced_of_children hline rfl rfl (by simp_all [Expr.children]))
  · cases hs

include h in
theorem locates_expressionStatement : Locates (expressionStatement again n) Stmt.Traced := by
  refine (locates_expression h n).bind fun target htarget => .bind .peek fun token _ => ?_
  split
  · exact .bind (locates_endStatement _) fun _ _ =>
      .pure (Stmt.traced_of_parts htarget.line nofun rfl
      (List.forall_mem_singleton.mpr htarget) nofun)
  · refine .bind .take fun place hplace => h.expression.bind fun value hvalue =>
      .bind (locates_endStatement _) fun _ _ => ?_
    split
    · next hs => exact .pure (traced_assignTo hvalue htarget hs)
    · exact .failAt _ hplace.line

include h in
theorem locates_statement : Locates (statement again n) Stmt.Traced := by
  have word {t : Token} (ht : t.Sourced) (wanted : String) {stmt : Span → Stmt}
      (hstmt : (stmt t.span).Traced) : Locates (do endStatement wanted; return stmt t.span)
      Stmt.Traced :=
    .bind (locates_endStatement _) fun _ _ => .pure hstmt
  refine .bind .peek fun token _ => ?_
  split
  · exact locates_conditional h
  · exact locates_testedLoop h
  · exact locates_itemLoop h
  · exact locates_switchStatement h n
  · exact locates_returnStatement h
  · exact locates_attempt h n
  · exact .bind .take fun t ht => word ht _ (Stmt.traced_of_parts ht.line nofun rfl nofun nofun)
  · exact .bind .take fun t ht => word ht _ (Stmt.traced_of_parts ht.line nofun rfl nofun nofun)
  · exact .bind .take fun t ht => (locates_block h n).bind fun body hbody =>
      .pure (Stmt.traced_of_parts ht.line nofun rfl nofun hbody)
  · exact locates_expressionStatement h n

include h in
theorem locates_anyStatement : Locates (anyStatement again n) Stmt.Traced := by
  refine .bind .state fun s _ => ?_
  split
  · exact .ite (locates_functionDeclaration h n) (locates_statement h n)
  · exact locates_classDeclaration h n
  · exact locates_binding h false
  · exact locates_binding h true
  · exact locates_importDeclaration n
  · exact locates_statement h n

end Parts

/-! ## Whole texts -/

/-- **The productions of every budget** give trees on lines, and faults on lines. -/
theorem productions_source : ∀ n, (productions n).Source
  | 0 => ⟨.exhausted, .exhausted, .exhausted, .exhausted⟩
  | n + 1 => by
    have h := productions_source n
    exact ⟨locates_expression h n, locates_unary h n, locates_statement h n,
      (locates_anyStatement h n).recover⟩

/-- The statements that are read from a text stand on lines, and so does what is wrong with it. -/
theorem sourced_of_readProgram {line : Nat} {source : String} {tokens : List Token}
    (hline : 1 ≤ line) (h : Token.tokenizeAt line source = .ok tokens) :
    (∀ s ∈ (readProgram tokens).1, s.Traced) ∧ ∀ f ∈ (readProgram tokens).2, f.OnLine := by
  have hread := locates_sequence (productions_source (budget tokens)) (budget tokens) (fun _ =>
    false) _
    (sourced_ofTokens hline h)
  unfold readProgram
  simp only
  split
  · next hseq =>
    rw [hseq] at hread
    exact ⟨hread.1, fun f hf => hread.2.recorded f (List.mem_reverse.mp hf)⟩
  · exact ⟨List.forall_mem_nil _, List.forall_mem_nil _⟩
  · exact ⟨List.forall_mem_nil _, List.forall_mem_nil _⟩

/-- The statements of a source text stand on lines, or what is wrong with it does. -/
theorem sourced_of_programOf? (source : String) :
    (∀ program, programOf? source = .ok program → ∀ s ∈ program, s.Traced) ∧
      ∀ f, programOf? source = .error f → f.OnLine := by
  have hfaults : ∀ faults, programOf source = .error faults → ∀ f ∈ faults, f.OnLine := by
    unfold programOf
    intro faults h
    split at h
    · next f htokens =>
      cases h
      have hline := Token.onLine_of_tokenizeAt (Nat.le_refl 1) htokens
      exact List.forall_mem_singleton.mpr (Fault.onLine_withSource hline _)
    · next tokens htokens =>
      have hread := (sourced_of_readProgram (Nat.le_refl 1) htokens).2
      split at h
      · cases h
      · next heq =>
        cases h
        rw [heq] at hread
        intro f hf
        obtain ⟨f', hf', rfl⟩ := List.mem_map.mp hf
        exact Fault.onLine_withSource (hread f' hf') _
  have hprogram : ∀ program, programOf source = .ok program → ∀ s ∈ program, s.Traced := by
    unfold programOf
    intro program h
    split at h
    · cases h
    · next tokens htokens =>
      have hread := (sourced_of_readProgram (Nat.le_refl 1) htokens).1
      split at h
      · next heq =>
        cases h
        rwa [heq] at hread
      · cases h
  unfold programOf?
  cases h : programOf source with
  | ok program =>
    refine ⟨?_, fun _ hf => nomatch hf⟩
    rintro _ ⟨⟩
    exact hprogram program h
  | error faults =>
    cases faults with
    | nil =>
      refine ⟨?_, fun _ hf => nomatch hf⟩
      rintro _ ⟨⟩
      exact List.forall_mem_nil _
    | cons f faults =>
      refine ⟨fun _ hp => (nomatch hp), ?_⟩
      rintro _ ⟨⟩
      exact hfaults _ h f List.mem_cons_self

end Parser

end ScriptEngine
