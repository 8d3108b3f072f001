import ScriptEngine.Parser.Program
import ScriptEngine.Proofs.WellFormed
/-!
# What the parser gives

The evaluator was made for well-formed trees and checks none of it. The parser makes no others, and
it makes none when it goes on behind a mistake either: a statement that cannot be read is left out
as a whole, so what is around it was made by the same rules. The rules give something more than
well-formed trees. An expression of theirs writes nothing, for an assignment is made where a
statement is read; and a branch of theirs declares nothing, for a declaration is read in a sequence
of statements only.

* `Parser.Gives` : what holds of every value that a parser replies with.
* `Parser.Gives.bind`, `Parser.gives_gather`, … : one rule for each way to put parsers together.
* `Parser.Productions.Shape` : productions that give such trees.
* `Parser.productions_shape` : the productions of every budget do.
* **`Parser.wellFormed_of_readProgram`** : the statements that are read from any tokens.
* `Parser.shaped_of_programOf` : the statements of a source text are shaped.

Out of scope is what the parser does not look at: whether a name is bound, a class exists, or a
signal stands inside of what takes it. Those are errors at run time.
-/

namespace ScriptEngine

/-! ## Pieces of templates -/

namespace Template

/-- Whether the piece is text. -/
def Piece.isText : Piece → Bool
  | .text _ => true
  | _ => false

/-- There are characters in every text, and something is between two of them. -/
structure Separate (pieces : List Piece) : Prop where
  nonempty : .text [] ∉ pieces
  apart : (pieces.map Piece.isText).IsChain fun a b => (a && b) = false

theorem Separate.code {pieces : List Piece} (h : Separate pieces) (cs : List Char) :
    Separate (.code cs :: pieces) where
  nonempty := List.not_mem_cons_of_ne_of_not_mem nofun h.nonempty
  apart := h.apart.cons fun _ _ => rfl

theorem Separate.textPiece {pieces : List Piece} {cs : List Char}
    (h : Separate (.code cs :: pieces)) (reversed : List Char) :
    Separate (textPiece reversed ++ .code cs :: pieces) := by
  unfold Template.textPiece
  split
  · exact h
  · next hne =>
    refine ⟨List.not_mem_cons_of_ne_of_not_mem (fun heq => hne ?_) h.nonempty,
      List.isChain_cons_cons.mpr ⟨rfl, h.apart⟩⟩
    rw [List.reverse_eq_nil_iff.mp (Piece.text.inj heq).symm]
    rfl

theorem separate_textPiece (reversed : List Char) : Separate (textPiece reversed) := by
  unfold textPiece
  split
  · exact ⟨nofun, .nil⟩
  · next hne =>
    refine ⟨fun hmem => hne ?_, .singleton _⟩
    rw [List.reverse_eq_nil_iff.mp (Piece.text.inj (List.mem_singleton.mp hmem)).symm]
    rfl

/-- A text goes on until code begins. -/
theorem separate_piecesFrom (reversed cs : List Char) : Separate (piecesFrom reversed cs) := by
  induction reversed, cs using piecesFrom.induct with
  | case1 reversed =>
    rw [piecesFrom]
    exact separate_textPiece reversed
  | case2 reversed cs hcode =>
    rw [piecesFrom, hcode]
    exact ⟨by simp, .singleton _⟩
  | case3 reversed cs n hcode ih =>
    rw [piecesFrom, hcode]
    exact (ih.code _).textPiece reversed
  | case4 reversed c cs hne ih =>
    rw [piecesFrom]
    · exact ih
    · exact hne

end Template

namespace Parser

variable {α β : Type} {p : Parser α} {f : α → Parser β} {P : α → Prop} {Q : β → Prop}

/-! ## Values of parsers -/

/-- Every value that the parser replies with is in `P`. -/
def Gives (p : Parser α) (P : α → Prop) : Prop := ∀ s a t, p s = .ok a t → P a

namespace Gives

/-- What the first parser gives, the second one may count on. -/
theorem bind (hp : Gives p P) (hf : ∀ a, P a → Gives (f a) Q) : Gives (p >>= f) Q := by
  intro s b t h
  simp only [Bind.bind] at h
  cases hr : p s with
  | ok a u =>
    rw [hr] at h
    exact hf a (hp s a u hr) u b t h
  | error fault u => rw [hr] at h; cases h
  | exhausted => rw [hr] at h; cases h

/-- A parser whose value does not matter. -/
theorem skip (hf : ∀ a, Gives (f a) Q) : Gives (p >>= f) Q :=
  bind (P := fun _ => True) (fun _ _ _ _ => trivial) fun a _ => hf a

theorem imp {P' : α → Prop} (hp : Gives p P) (h : ∀ a, P a → P' a) : Gives p P' :=
  fun s a t hr => h a (hp s a t hr)

theorem pure {a : α} (h : P a) : Gives (Pure.pure a) P := by
  rintro s b t ⟨⟩
  exact h

theorem fail (fault : Fault) : Gives (fail fault) P := fun _ _ _ h => by cases h

theorem unexpected (wanted : String) : Gives (unexpected wanted) P := fun _ _ _ h => by cases h

theorem exhausted : Gives exhausted P := fun _ _ _ h => by cases h

theorem ite {c : Prop} [Decidable c] {q : Parser α} (hp : Gives p P) (hq : Gives q P) :
    Gives (if c then p else q) P := by
  split
  · exact hp
  · exact hq

/-- Either way the same goes on. -/
theorem ite_bind {c : Prop} [Decidable c] {q : Parser α} (hp : Gives p P) (hq : Gives q P)
    (hf : ∀ a, P a → Gives (f a) Q) : Gives (if c then p >>= f else q >>= f) Q :=
  .ite (hp.bind hf) (hq.bind hf)

/-- A thing that may be left out. -/
theorem some (hp : Gives p P) : Gives (Option.some <$> p) fun o => ∀ a ∈ o, P a :=
  hp.bind fun _ ha => .pure fun _ hb => by cases hb; exact ha

theorem none : Gives (Pure.pure (Option.none : Option α)) fun o => ∀ a ∈ o, P a := .pure nofun

theorem nil : Gives (Pure.pure ([] : List α)) fun as => ∀ a ∈ as, P a := .pure nofun

theorem nested (hp : Gives p P) : Gives (nested p) P := by
  intro s a t h
  unfold Parser.nested at h
  split at h
  · next b u hr =>
    cases h
    exact hp _ _ _ hr
  · cases h
  · cases h

theorem recover (hp : Gives p P) : Gives (recover p) fun o => ∀ a ∈ o, P a := by
  intro s o t h a ha
  unfold Parser.recover at h
  split at h
  · next b u hr =>
    cases h
    cases ha
    exact hp _ _ _ hr
  · cases h
    cases ha
  · cases h

end Gives

/-! ### Loops -/

theorem gives_gather {step : Parser (Option (List α))}
    (hstep : Gives step fun o => ∀ as ∈ o, ∀ a ∈ as, P a) (n : Nat) :
    Gives (gather step n) fun as => ∀ a ∈ as, P a := by
  induction n with
  | zero => exact .exhausted
  | succ n ih =>
    refine hstep.bind fun o ho => ?_
    cases o with
    | none => exact .nil
    | some as =>
      exact ih.bind fun rest hrest => .pure (List.forall_mem_append.mpr ⟨ho as rfl, hrest⟩)

theorem gives_separated (what : String) (hp : Gives p P) (room : Nat) :
    Gives (separated what p room) fun as => (∀ a ∈ as, P a) ∧ as.length ≤ room := by
  induction room with
  | zero => exact .skip fun _ => .fail _
  | succ room ih =>
    refine hp.bind fun a ha => .skip fun _ => .ite ?_ ?_
    · exact ih.bind fun as has =>
        .pure ⟨List.forall_mem_cons.mpr ⟨ha, has.1⟩, Nat.succ_le_succ has.2⟩
    · exact .pure ⟨List.forall_mem_singleton.mpr ha, Nat.succ_le_succ (Nat.zero_le _)⟩

theorem gives_trailing (close : Symbol) (hp : Gives p P) (n : Nat) :
    Gives (trailing close p n) fun as => (∀ a ∈ as, P a) ∧ as ≠ [] := by
  induction n with
  | zero => exact .exhausted
  | succ n ih =>
    refine hp.bind fun a ha => ?_
    have single : Gives (return [a]) fun as => (∀ a ∈ as, P a) ∧ as ≠ [] :=
      .pure ⟨List.forall_mem_singleton.mpr ha, List.cons_ne_nil _ _⟩
    refine .skip fun _ => .ite (.skip fun _ => .ite single ?_) single
    exact ih.bind fun as has => .pure ⟨List.forall_mem_cons.mpr ⟨ha, has.1⟩, List.cons_ne_nil _ _⟩

theorem gives_chainFrom {operator? : Kind → Option (Expr → Expr → Expr)} {operand : Parser Expr}
    {P : Expr → Prop} (hoperand : Gives operand P)
    (hcombine : ∀ k combine, operator? k = some combine → ∀ a b, P a → P b → P (combine a b))
    (n : Nat) {left : Expr} (hleft : P left) : Gives (chainFrom operator? operand n left) P := by
  induction n generalizing left with
  | zero => exact .exhausted
  | succ n ih =>
    refine .skip fun token => ?_
    split
    · exact .pure hleft
    · next combine hk =>
      exact .skip fun _ => hoperand.bind fun right hright =>
        ih (hcombine _ combine hk left right hleft hright)

/-! ## The grammar -/

/-- Productions that give well-formed trees. What writes and what declares is given by one of them
each. -/
structure Productions.Shape (again : Productions) : Prop where
  expression : Gives again.expression Expr.IsOperand
  unary : Gives again.unary Expr.IsOperand
  statement : Gives again.statement Stmt.IsBranch
  declaration : Gives again.declaration fun o => ∀ s ∈ o, s.AllWellFormed

section Parts

variable {again : Productions} (h : again.Shape) (n : Nat)

include h

/-! ### Blocks and functions -/

theorem gives_sequence (stops : Kind → Bool) :
    Gives (sequence again n stops) fun body => ∀ s ∈ body, s.AllWellFormed := by
  refine gives_gather (.skip fun token => .ite (.pure nofun) (.skip fun _ => .ite ?_ ?_)) n
  · exact .pure fun as has => by cases has; exact nofun
  · refine h.declaration.bind fun o ho => .pure fun as has s hs => ?_
    cases has
    exact ho s (Option.mem_toList.mp hs)

theorem gives_block : Gives (block again n) fun body => ∀ s ∈ body, s.AllWellFormed :=
  (gives_sequence h n _).nested.bind fun _ hbody => .skip fun _ => .pure hbody

theorem gives_functionRest (name : Option String) (span : Span) :
    Gives (functionRest again n name span) (FunctionDecl.WellFormed name) := by
  have params : Gives (separated "parameters" (expectName "expected parameter name") maxArguments)
      fun params => params.length ≤ 255 :=
    (gives_separated _ (P := fun _ => True) (fun _ _ _ _ => trivial) _).imp fun _ hparams =>
      hparams.2
  refine .skip fun _ => .skip fun _ => .ite_bind (.pure (Nat.zero_le _)) params
    fun params hparams =>
    .skip fun _ => ?_
  refine .ite_bind (P := fun _ => True) (fun _ _ _ _ => trivial) (.pure trivial) fun short _ =>
    .ite ?_ ?_
  · refine h.expression.bind fun value hvalue =>
      .pure ⟨rfl, hparams, List.forall_mem_singleton.mpr ?_⟩
    exact Stmt.allWellFormed_of_simple rfl (List.forall_mem_singleton.mpr hvalue) nofun
  · exact .skip fun _ => (gives_block h n).bind fun body hbody => .pure ⟨rfl, hparams, hbody⟩

/-! ### Expressions -/

theorem gives_embedded (code : String) (span : Span) :
    Gives (embedded again code span) Expr.IsOperand := by
  intro s e t hr
  unfold embedded at hr
  split at hr
  · cases hr
  · split at hr
    · cases hr
    · cases hr
    · next hreply =>
      split at hr
      · cases hr
      · split at hr
        · cases hr
        · cases hr
          exact h.expression _ _ _ hreply

/-- The pieces become the parts one by one, texts and codes in the same places. -/
theorem gives_templateParts (span : Span) {pieces : List Template.Piece}
    (hpieces : .text [] ∉ pieces) :
    Gives (templateParts again span pieces) fun parts =>
      (∀ p ∈ parts, ∀ e ∈ p.expr?, e.IsOperand) ∧ .literal "" ∉ parts ∧
        parts.map Part.isLiteral = pieces.map Template.Piece.isText := by
  induction pieces with
  | nil => exact .pure ⟨nofun, nofun, rfl⟩
  | cons piece pieces ih =>
    obtain ⟨hhead, hrest⟩ := List.ne_and_not_mem_of_not_mem_cons hpieces
    cases piece with
    | text cs =>
      refine (ih hrest).bind fun parts ⟨hexprs, hnonempty, hkinds⟩ => .pure ⟨?_, ?_, ?_⟩
      · exact List.forall_mem_cons.mpr ⟨nofun, hexprs⟩
      · refine List.not_mem_cons_of_ne_of_not_mem (fun heq => hhead ?_) hnonempty
        rw [String.ofList_eq_empty_iff.mp (Part.literal.inj heq).symm]
      · exact congrArg (true :: ·) hkinds
    | unmatched => exact .fail _
    | code cs =>
      refine .ite (.fail _) ((gives_embedded h _ span).bind fun e he => (ih hrest).bind
        fun parts ⟨hexprs, hnonempty, hkinds⟩ => .pure ⟨?_, ?_, ?_⟩)
      · exact List.forall_mem_cons.mpr ⟨fun _ hmem => by cases hmem; exact he, hexprs⟩
      · exact List.not_mem_cons_of_ne_of_not_mem nofun hnonempty
      · exact congrArg (false :: ·) hkinds

theorem gives_listLiteral (span : Span) : Gives (listLiteral again n span) Expr.IsOperand :=
  .skip fun _ => .ite_bind .nil ((gives_trailing _ h.expression n).imp fun _ h => h.1)
    fun _ helements =>
    .skip fun _ => .pure (Expr.isOperand_of_simple rfl helements)

theorem gives_mapEntry : Gives (mapEntry again) fun entry => entry.2.IsOperand := by
  refine .skip fun token => ?_
  split
  case h_3 =>
    exact .skip fun _ => .skip fun _ => .skip fun _ => h.expression.bind fun _ he => .pure he
  all_goals
    exact .skip fun _ => .skip fun _ => .skip fun _ => h.expression.bind fun _ he => .pure he

theorem gives_mapLiteral (span : Span) : Gives (mapLiteral again n span) Expr.IsOperand := by
  refine .skip fun _ => .ite_bind .nil ((gives_trailing _ (gives_mapEntry h) n).imp fun _ h => h.1)
    fun _ hentries => .skip fun _ => .pure (Expr.isOperand_of_simple rfl fun e he => ?_)
  obtain ⟨entry, hentry, rfl⟩ := List.mem_map.mp he
  exact hentries entry hentry

theorem gives_primary : Gives (primary again n) Expr.IsOperand := by
  have leaf {e : Expr} (hs : e.isSimple) (hc : e.children = []) :
      Gives (do let _ ← take; return e) Expr.IsOperand :=
    .skip fun _ => .pure (Expr.isOperand_of_simple hs (by rw [hc]; exact nofun))
  refine .skip fun token => ?_
  simp only
  split
  case h_9 body _ =>
    have hpieces := Template.separate_piecesFrom [] body.toList
    refine .skip fun _ => (gives_templateParts h _ hpieces.nonempty).bind
      fun parts ⟨hexprs, hnonempty, hkinds⟩ => .pure (Expr.isOperand_template hexprs hnonempty ?_)
    rw [hkinds]
    exact hpieces.apart
  case h_10 =>
    exact .skip fun _ => (gives_functionRest h n _ _).bind fun d hd =>
      .pure (Expr.isOperand_lambda hd)
  case h_11 => exact .skip fun _ => h.expression.bind fun _ he => .skip fun _ => .pure he
  case h_12 => exact .skip fun _ => gives_listLiteral h n _
  case h_13 => exact .skip fun _ => gives_mapLiteral h n _
  case h_14 => exact .fail _
  all_goals exact leaf rfl rfl

theorem gives_callRest {callee : Expr} (hcallee : callee.IsOperand) :
    Gives (callRest again callee) Expr.IsOperand :=
  .skip fun _ => .ite_bind (P := fun args => (∀ e ∈ args, e.IsOperand) ∧ args.length ≤ 255)
    (.pure ⟨nofun, Nat.zero_le _⟩) (gives_separated _ h.expression _) fun _ hargs =>
      .skip fun _ => .pure (Expr.isOperand_call hcallee hargs.1 hargs.2)

theorem gives_trailers {e : Expr} (he : e.IsOperand) :
    Gives (trailers again n e) Expr.IsOperand := by
  induction n generalizing e with
  | zero => exact .exhausted
  | succ n ih =>
    refine .skip fun _ => .ite ?_ (.ite ?_ (.ite ?_ (.pure he)))
    · exact .skip fun _ => (gives_callRest h he).bind fun _ => ih
    · exact .skip fun _ => h.expression.bind fun _ hkey => .skip fun _ =>
        ih (Expr.isOperand_of_simple rfl (by simp [Expr.children, he, hkey]))
    · exact .skip fun _ => .skip fun _ => .skip fun _ =>
        ih (Expr.isOperand_of_simple rfl (by simp [Expr.children, he]))

theorem gives_unary : Gives (unary again n) Expr.IsOperand := by
  refine .skip fun token => ?_
  simp only
  split
  · exact .skip fun _ => h.unary.bind fun _ he =>
      .pure (Expr.isOperand_of_simple rfl (by simp [Expr.children, he]))
  · exact (gives_primary h n).bind fun _ => gives_trailers h n

omit h in
/-- Every operator makes a tree of its two operands. -/
theorem tree_of_operatorIn {operators : List (Symbol × (Expr → Expr → Expr))}
    (hlevel : operators ∈ levels) {k : Kind} {combine : Expr → Expr → Expr}
    (hk : operatorIn operators k = some combine) :
    (∃ op, combine = binaryTree op) ∨ ∃ op, combine = logicalTree op := by
  have hmem : ∃ mark, (mark, combine) ∈ operators := by
    unfold operatorIn at hk
    split at hk
    · next mark =>
      obtain ⟨before, rest, rfl, -⟩ := List.lookup_eq_some_iff.mp hk
      exact ⟨mark, List.mem_append_right _ List.mem_cons_self⟩
    · cases hk
  obtain ⟨mark, hmem⟩ := hmem
  simp only [levels, List.mem_cons, List.not_mem_nil, or_false] at hlevel
  rcases hlevel with rfl | rfl | rfl | rfl | rfl | rfl <;>
    simp only [List.mem_cons, Prod.mk.injEq, List.not_mem_nil, or_false] at hmem
  · rcases hmem with ⟨-, rfl⟩ | ⟨-, rfl⟩ | ⟨-, rfl⟩ <;> exact .inl ⟨_, rfl⟩
  · rcases hmem with ⟨-, rfl⟩ | ⟨-, rfl⟩ <;> exact .inl ⟨_, rfl⟩
  · rcases hmem with ⟨-, rfl⟩ | ⟨-, rfl⟩ | ⟨-, rfl⟩ | ⟨-, rfl⟩ <;> exact .inl ⟨_, rfl⟩
  · rcases hmem with ⟨-, rfl⟩ | ⟨-, rfl⟩ <;> exact .inl ⟨_, rfl⟩
  · obtain ⟨-, rfl⟩ := hmem; exact .inr ⟨_, rfl⟩
  · obtain ⟨-, rfl⟩ := hmem; exact .inr ⟨_, rfl⟩

omit h in
theorem isOperand_operatorIn {operators : List (Symbol × (Expr → Expr → Expr))}
    (hlevel : operators ∈ levels) {k : Kind} {combine : Expr → Expr → Expr}
    (hk : operatorIn operators k = some combine) {a b : Expr} (ha : a.IsOperand)
    (hb : b.IsOperand) :
    (combine a b).IsOperand := by
  rcases tree_of_operatorIn hlevel hk with ⟨op, rfl⟩ | ⟨op, rfl⟩
  · exact Expr.isOperand_of_simple rfl (by simp [binaryTree, Expr.children, ha, hb])
  · exact Expr.isOperand_of_simple rfl (by simp [logicalTree, Expr.children, ha, hb])

omit h in
theorem gives_levels {operand : Parser Expr} (hoperand : Gives operand Expr.IsOperand) :
    ∀ ls : List (List (Symbol × (Expr → Expr → Expr))), ls ⊆ levels →
      Gives (ls.foldl (fun operand operators => chain (operatorIn operators) operand n) operand)
        Expr.IsOperand
  | [], _ => hoperand
  | operators :: ls, hsub => by
    have hlevel : operators ∈ levels := hsub List.mem_cons_self
    have hchain : Gives (chain (operatorIn operators) operand n) Expr.IsOperand :=
      hoperand.bind fun _ hleft =>
        gives_chainFrom hoperand (fun _ _ hk _ _ => isOperand_operatorIn hlevel hk) n hleft
    exact gives_levels hchain ls fun _ hmem => hsub (List.mem_cons_of_mem _ hmem)

theorem gives_expression : Gives (expression again n) Expr.IsOperand :=
  gives_levels n (gives_unary h n) levels (List.Subset.refl _)

/-! ### Declarations -/

theorem gives_binding (constant : Bool) : Gives (binding again constant) Stmt.AllWellFormed :=
  .skip fun _ => .skip fun _ => .skip fun _ => .ite_bind (.some h.expression) .none
    fun _ hinitial =>
    .skip fun _ => .pure (Stmt.allWellFormed_of_simple rfl
      (fun e he => hinitial e (Option.mem_toList.mp he)) nofun)

theorem gives_functionDeclaration : Gives (functionDeclaration again n) Stmt.AllWellFormed :=
  .skip fun _ => .skip fun _ => (gives_functionRest h n _ _).bind fun _ hd =>
    .pure (Stmt.allWellFormed_function hd)

theorem gives_members (m : Nat) {static : Option (List Stmt)}
    (hstatic : ∀ block ∈ static, ∀ s ∈ block, s.AllWellFormed) :
    Gives (members again n m static) fun found =>
      (∀ d ∈ found.1, ∃ name, d.WellFormed (some name)) ∧
        ∀ block ∈ found.2, ∀ s ∈ block, s.AllWellFormed := by
  induction m generalizing static with
  | zero => exact .exhausted
  | succ m ih =>
    refine .skip fun token => ?_
    split
    · exact .pure ⟨nofun, hstatic⟩
    · exact .pure ⟨nofun, hstatic⟩
    · exact .skip fun _ => ih hstatic
    · exact .skip fun _ => .skip fun name => (gives_functionRest h n _ _).bind fun d hd =>
        (ih hstatic).bind fun found hfound =>
          .pure ⟨List.forall_mem_cons.mpr ⟨⟨name, hd⟩, hfound.1⟩, hfound.2⟩
    · refine .ite (.skip fun _ => .skip fun _ => (gives_block h n).bind fun body hbody => ih ?_)
        (.fail _)
      intro block hblock
      cases hblock
      exact hbody
    · exact .fail _

theorem gives_classDeclaration : Gives (classDeclaration again n) Stmt.AllWellFormed := by
  have hnone : ∀ block ∈ (none : Option (List Stmt)), ∀ s ∈ block, s.AllWellFormed := nofun
  have hmembers := gives_members h n n hnone
  refine .skip fun _ => .skip fun _ => .skip fun _ => .ite ?_ ?_
  · exact .skip fun _ => .skip fun _ => .skip fun _ => .skip fun _ => hmembers.bind fun _ hfound =>
      .skip fun _ => .pure (Stmt.allWellFormed_class hfound.1 hfound.2)
  · exact .skip fun _ => .skip fun _ => hmembers.bind fun _ hfound =>
      .skip fun _ => .pure (Stmt.allWellFormed_class hfound.1 hfound.2)

omit h in
theorem gives_importDeclaration : Gives (importDeclaration n) Stmt.AllWellFormed :=
  .skip fun _ => .skip fun _ => .skip fun _ => .skip fun _ =>
    .pure (Stmt.allWellFormed_import (List.cons_ne_nil _ _))

/-! ### Statements -/

theorem gives_conditional :
    Gives (conditional again) Stmt.IsBranch := by
  refine .skip fun _ => .skip fun _ => h.expression.bind fun test htest => .skip fun _ => ?_
  refine h.statement.bind fun thenBranch hthen => .skip fun _ =>
    .ite_bind (.some h.statement) .none fun elseBranch helse => .pure ?_
  refine Stmt.isBranch_of_branches rfl (List.cons_ne_nil _ _) (List.forall_mem_singleton.mpr htest)
    ?_
  exact List.forall_mem_cons.mpr ⟨hthen, fun b hb => helse b (Option.mem_toList.mp hb)⟩

theorem gives_testedLoop : Gives (testedLoop again) Stmt.IsBranch := by
  refine .skip fun _ => .skip fun _ => h.expression.bind fun test htest => .skip fun _ => ?_
  exact h.statement.bind fun body hbody =>
    .pure (Stmt.isBranch_of_branches rfl (List.cons_ne_nil _ _)
    (List.forall_mem_singleton.mpr htest) (List.forall_mem_singleton.mpr hbody))

theorem gives_itemLoop : Gives (itemLoop again) Stmt.IsBranch := by
  refine .skip fun _ => .skip fun _ => .skip fun _ => .skip fun _ => ?_
  refine h.expression.bind fun iterable hiterable => .skip fun _ => ?_
  exact h.statement.bind fun body hbody =>
    .pure (Stmt.isBranch_of_branches rfl (List.cons_ne_nil _ _)
    (List.forall_mem_singleton.mpr hiterable) (List.forall_mem_singleton.mpr hbody))

/-- A clause has values unless it is the default clause, and that is read once. -/
theorem gives_switchCases (m : Nat) (hasDefault : Bool) :
    Gives (switchCases again n m hasDefault) fun clauses =>
      (∀ k ∈ clauses, (∀ e ∈ k.values.getD [], e.IsOperand) ∧ k.values ≠ some [] ∧
        ∀ s ∈ k.body, s.AllWellFormed) ∧
      (clauses.filter fun k => k.values.isNone).length ≤ (!hasDefault).toNat := by
  induction m generalizing hasDefault with
  | zero => exact .exhausted
  | succ m ih =>
    have rest (values : Option (List Expr))
        (hvalues : (∀ es ∈ values, (∀ e ∈ es, e.IsOperand) ∧ es ≠ []) ∧
          (values = none → hasDefault = false))
        (span : Span) : Gives (do
          let _ ← expectMark .colon "expected ':' after case/default"
          let body ← nested (sequence again n fun kind =>
            kind == .keyword .kwCase || kind == .keyword .kwDefault || kind == .symbol .rightBrace)
          let cases ← switchCases again n m (hasDefault || values.isNone)
          return ⟨values, body, span⟩ :: cases) fun clauses =>
            (∀ k ∈ clauses, (∀ e ∈ SwitchCase.values k |>.getD [], e.IsOperand) ∧
              k.values ≠ some [] ∧
              ∀ s ∈ k.body, s.AllWellFormed) ∧
            (clauses.filter fun k => k.values.isNone).length ≤ (!hasDefault).toNat := by
      refine .skip fun _ => (gives_sequence h n _).nested.bind fun body hbody =>
        (ih _).bind fun clauses hclauses => .pure ⟨List.forall_mem_cons.mpr ⟨?_, hclauses.1⟩, ?_⟩
      · cases values with
        | none => exact ⟨nofun, nofun, hbody⟩
        | some es =>
          obtain ⟨hes, hne⟩ := hvalues.1 es rfl
          exact ⟨hes, fun heq => hne (Option.some.inj heq), hbody⟩
      · have hcount := hclauses.2
        cases values with
        | none =>
          rw [hvalues.2 rfl] at hcount ⊢
          exact Nat.succ_le_succ hcount
        | some es => rwa [Option.isNone_some, Bool.or_false] at hcount
    refine .skip fun token => .ite (.pure ⟨nofun, Nat.zero_le _⟩)
      (.skip fun _ => .ite ?_ (.skip fun _ => .ite ?_ (.bind (.unexpected _) fun values hvalues =>
        rest values hvalues _)))
    · refine Gives.bind ?_ fun values hvalues => rest values hvalues _
      exact (gives_trailing _ h.expression n).bind fun es hes =>
        .pure ⟨fun _ heq => by cases heq; exact hes, nofun⟩
    · split
      · exact .bind (.fail _) fun values hvalues => rest values hvalues _
      · next hnot =>
        exact .bind (.pure ⟨nofun, fun _ => Bool.eq_false_iff.mpr hnot⟩) fun values hvalues =>
          rest values hvalues _

theorem gives_switchStatement :
    Gives (switchStatement again n) Stmt.IsBranch := by
  refine .skip fun _ => .skip fun _ => h.expression.bind fun subject hsubject => .skip fun _ => ?_
  refine .skip fun _ => (gives_switchCases h n n _).bind fun clauses ⟨hclauses, hone⟩ =>
    .skip fun _ => .pure (Stmt.isBranch_switch ?_ ?_ hone fun k hk => (hclauses k hk).2.1)
  · refine List.forall_mem_cons.mpr ⟨hsubject, fun e he => ?_⟩
    obtain ⟨k, hk, hke⟩ := List.mem_flatMap.mp he
    exact (hclauses k hk).1 e hke
  · intro s hs
    obtain ⟨k, hk, hks⟩ := List.mem_flatMap.mp hs
    exact (hclauses k hk).2.2 s hks

theorem gives_returnStatement :
    Gives (returnStatement again) Stmt.IsBranch :=
  .skip fun _ => .skip fun _ => .ite_bind .none (.some h.expression) fun _ hvalue => .skip fun _ =>
    .pure ⟨Stmt.allWellFormed_of_simple rfl (fun e he => hvalue e (Option.mem_toList.mp he)) nofun,
      rfl⟩

theorem gives_attempt : Gives (attempt again n) Stmt.IsBranch := by
  have rest {body : List Stmt} (hbody : ∀ s ∈ body, s.AllWellFormed)
      {handler : Option (String × List Stmt)} (hhandler : ∀ k ∈ handler, ∀ s ∈ k.2, s.AllWellFormed)
      {cleanup : Option (List Stmt)} (hcleanup : ∀ k ∈ cleanup, ∀ s ∈ k, s.AllWellFormed)
      (span : Span) :
      Gives (if handler.isNone && cleanup.isNone then failAt .tryWithoutHandler span
        else return Stmt.attempt body handler cleanup span) Stmt.IsBranch := by
    split
    · exact .fail _
    · next hguarded =>
      refine .pure (Stmt.isBranch_attempt hguarded ?_)
      refine List.forall_mem_append.mpr ⟨List.forall_mem_append.mpr ⟨hbody, ?_⟩, ?_⟩
      · cases handler with
        | none => exact nofun
        | some k => exact hhandler k rfl
      · cases cleanup with
        | none => exact nofun
        | some k => exact hcleanup k rfl
  have hblock := gives_block h n
  refine .skip fun _ => .skip fun _ => hblock.bind fun body hbody => .skip fun _ => .ite ?_ ?_
  · refine .skip fun _ => .skip fun name => .skip fun _ => .skip fun _ => ?_
    refine hblock.bind fun handler hhandler =>
      Gives.bind (P := fun o => ∀ k ∈ o, ∀ s ∈ k.2, s.AllWellFormed)
        (.pure fun k hk => by cases hk; exact hhandler) fun o ho => .skip fun _ => .ite ?_ ?_
    · exact .skip fun _ => (Gives.some hblock).bind fun cleanup hcleanup => rest hbody ho hcleanup _
    · exact Gives.none.bind fun cleanup hcleanup => rest hbody ho hcleanup _
  · refine Gives.bind (P := fun o => ∀ k ∈ o, ∀ s ∈ k.2, s.AllWellFormed) .none fun o ho =>
      .skip fun _ => .ite ?_ ?_
    · exact .skip fun _ => (Gives.some hblock).bind fun cleanup hcleanup => rest hbody ho hcleanup _
    · exact Gives.none.bind fun cleanup hcleanup => rest hbody ho hcleanup _

omit h in
/-- What is assigned to is taken apart, so nothing that writes gets into what does. -/
theorem isBranch_assignTo {op : AssignOp} {value target : Expr} (hvalue : value.IsOperand)
    (htarget : target.IsOperand) {s : Stmt} (hs : assignTo op value target = some s) :
    s.IsBranch := by
  have parts := htarget.children
  unfold assignTo at hs
  split at hs
  · cases hs
    exact ⟨Stmt.allWellFormed_of_simple rfl (List.forall_mem_singleton.mpr hvalue) nofun, rfl⟩
  · cases hs
    exact Stmt.isBranch_write rfl (by simp_all [Expr.children])
  · cases hs
    exact Stmt.isBranch_write rfl (by simp_all [Expr.children])
  · cases hs

theorem gives_expressionStatement :
    Gives (expressionStatement again n) Stmt.IsBranch := by
  refine (gives_expression h n).bind fun target htarget => .skip fun token => ?_
  split
  · exact .skip fun _ => .pure
      ⟨Stmt.allWellFormed_of_simple rfl (List.forall_mem_singleton.mpr htarget) nofun, rfl⟩
  · refine .skip fun _ => h.expression.bind fun value hvalue => .skip fun _ => ?_
    split
    · next hs => exact .pure (isBranch_assignTo hvalue htarget hs)
    · exact .fail _

/-- **A statement declares nothing.** -/
theorem gives_statement : Gives (statement again n) Stmt.IsBranch := by
  refine .skip fun token => ?_
  split
  · exact gives_conditional h
  · exact gives_testedLoop h
  · exact gives_itemLoop h
  · exact gives_switchStatement h n
  · exact gives_returnStatement h
  · exact gives_attempt h n
  · exact .skip fun _ => .skip fun _ => .pure ⟨Stmt.allWellFormed_of_simple rfl nofun nofun, rfl⟩
  · exact .skip fun _ => .skip fun _ => .pure ⟨Stmt.allWellFormed_of_simple rfl nofun nofun, rfl⟩
  · exact .skip fun _ => (gives_block h n).bind fun body hbody =>
      .pure ⟨Stmt.allWellFormed_of_simple rfl nofun hbody, rfl⟩
  · exact gives_expressionStatement h n

theorem gives_anyStatement : Gives (anyStatement again n) Stmt.AllWellFormed := by
  have hstatement : Gives (statement again n) Stmt.AllWellFormed :=
    (gives_statement h n).imp fun _ hs => hs.1
  refine .skip fun s => ?_
  split
  · exact .ite (gives_functionDeclaration h n) hstatement
  · exact gives_classDeclaration h n
  · exact gives_binding h false
  · exact gives_binding h true
  · exact gives_importDeclaration n
  · exact hstatement

end Parts

/-! ## Whole texts -/

/-- The productions of every budget. -/
theorem productions_shape : ∀ n, (productions n).Shape
  | 0 => ⟨.exhausted, .exhausted, .exhausted, .exhausted⟩
  | n + 1 => by
    have h := productions_shape n
    exact ⟨gives_expression h n, gives_unary h n, gives_statement h n,
      (gives_anyStatement h n).recover⟩

/-- **Every statement that is read is well formed**, to the bottom of its functions and of the code
in its templates, and so are the statements that are left when others could not be read. -/
theorem wellFormed_of_readProgram (tokens : List Token) :
    ∀ s ∈ (readProgram tokens).1, s.AllWellFormed := by
  unfold readProgram
  simp only
  split
  · next hseq => exact gives_sequence (productions_shape _) _ _ _ _ _ hseq
  · exact nofun
  · exact nofun

/-- A function with three statements of which the last one alone can be read: an attempt that
catches nothing, a declaration under a condition, and an assignment. -/
def twoMistakes : String :=
  "fun f(a) \x7b try \x7b \x7d; if (a) var x; b.c = f'\x7ba\x7d!' \x7d"

theorem wellFormed_of_readProgram_mistakes :
    ∃ tokens, Token.tokenize twoMistakes = .ok tokens ∧ (readProgram tokens).2.length = 2 ∧
      (readProgram tokens).1.map (fun s => s.functions.map fun d => d.body.length) = [[1]] ∧
      ∀ s ∈ (readProgram tokens).1, s.AllWellFormed := by
  have hmap : (Token.tokenize twoMistakes).toOption.map (fun tokens =>
      ((readProgram tokens).2.length,
        (readProgram tokens).1.map fun s => s.functions.map fun d => d.body.length)) =
        some (2, [[1]]) := by
    decide +kernel
  cases hread : Token.tokenize twoMistakes with
  | error fault =>
    rw [hread] at hmap
    cases hmap
  | ok tokens =>
    rw [hread] at hmap
    obtain ⟨hfaults, hbodies⟩ := Prod.mk.inj (Option.some.inj hmap)
    exact ⟨tokens, rfl, hfaults, hbodies, wellFormed_of_readProgram tokens⟩

/-- Every statement of a source text is shaped, to the bottom of its functions. -/
theorem shaped_of_programOf {source : String} {program : List Stmt}
    (hp : programOf source = .ok program) :
    ∀ s ∈ program, s.Throughout (fun _ => True) Stmt.Shaped := by
  unfold programOf at hp
  split at hp
  · cases hp
  · next tokens _ =>
    split at hp
    · next heq =>
      cases hp
      intro s hs
      refine Stmt.allShaped_of_allWellFormed (wellFormed_of_readProgram tokens s ?_)
      rwa [heq]
    · cases hp

end Parser

end ScriptEngine
