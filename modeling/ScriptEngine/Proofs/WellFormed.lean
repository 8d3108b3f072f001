import Mathlib.Data.List.Chain
import ScriptEngine.Parser.Template
import ScriptEngine.Proofs.Declarations
/-!
# Well-formed trees

The types of trees allow more than the evaluator was made for: an attempt that catches nothing, a
switch with two defaults, an assignment in the middle of an expression. What is left out is said of
one node at a time, and of a whole tree by `Throughout`.

* `Expr.WellFormed`, `Stmt.WellFormed` : nodes that the evaluator was made for.
* `Expr.AllWellFormed`, `Stmt.AllWellFormed` : trees of such nodes.
* `Expr.IsOperand`, `Stmt.IsBranch` : the trees that may stand in any expression, and under any
  condition.
* `Stmt.allShaped_of_allWellFormed` : a declaration in such a tree stands in braces.
-/

namespace ScriptEngine

/-! ## Nodes -/

/-- Whether the piece is text. -/
def Part.isLiteral : Part → Bool
  | literal _ => true
  | embedded _ => false

namespace Expr

/-- Whether the expression writes a property or an element. -/
def isWrite : Expr → Bool
  | set .. | indexSet .. => true
  | _ => false

/-- The arguments that the expression calls with. -/
def args : Expr → List Expr
  | call _ args _ => args
  | _ => []

/-- The pieces that the expression joins. -/
def parts : Expr → List Part
  | template parts _ => parts
  | _ => []

/-- A node that the evaluator was made for. -/
structure WellFormed (e : Expr) : Prop where
  children : ∀ e' ∈ e.children, e'.isWrite = false
  anonymous : ∀ d ∈ e.functions, d.name? = none
  params : ∀ d ∈ e.functions, d.params.length ≤ 255
  args : e.args.length ≤ 255
  nonempty : .literal "" ∉ e.parts
  apart : (e.parts.map Part.isLiteral).IsChain fun a b => (a && b) = false

/-- Neither a function nor a template nor a call, and it writes nothing. -/
def isSimple : Expr → Bool
  | lambda .. | template .. | call .. | set .. | indexSet .. => false
  | _ => true

end Expr

namespace Stmt

/-- Whether the statement binds a name. -/
def isDeclaration : Stmt → Bool
  | binding .. | function _ | classDecl _ | importType .. => true
  | _ => false

/-- The clauses that the statement chooses from. -/
def clauses : Stmt → List SwitchCase
  | switch _ cases _ => cases
  | _ => []

/-- A node that the evaluator was made for. -/
structure WellFormed (s : Stmt) : Prop where
  branches : ∀ b ∈ s.branches, b.isDeclaration = false
  exprs : ∀ e ∈ s.exprs, e.isWrite → s = .expr e
  named : ∀ d ∈ s.functions, d.name?.isSome
  params : ∀ d ∈ s.functions, d.params.length ≤ 255
  guarded : ∀ body span, s ≠ .attempt body none none span
  oneDefault : (s.clauses.filter fun k => k.values.isNone).length ≤ 1
  selected : ∀ k ∈ s.clauses, k.values ≠ some []
  path : ∀ path span, s = .importType path span → path ≠ []

/-- There are no rules for such a statement but the one on what it writes. -/
def isSimple : Stmt → Bool
  | expr _ | binding .. | assign .. | block .. | ret .. | brk _ | cont _ => true
  | _ => false

end Stmt

/-! ## Trees -/

/-- All nodes of the expression are well formed. -/
abbrev Expr.AllWellFormed : Expr → Prop := Expr.Throughout Expr.WellFormed Stmt.WellFormed

/-- All nodes of the statement are well formed. -/
abbrev Stmt.AllWellFormed : Stmt → Prop := Stmt.Throughout Expr.WellFormed Stmt.WellFormed

/-- The expression writes nothing, so it may stand in another one. -/
def Expr.IsOperand (e : Expr) : Prop := e.AllWellFormed ∧ e.isWrite = false

/-- The statement is no declaration, so it may stand without braces around it. -/
def Stmt.IsBranch (s : Stmt) : Prop := s.AllWellFormed ∧ s.isDeclaration = false

/-- The function has that name, and its nodes are well formed. -/
structure FunctionDecl.WellFormed (name : Option String) (d : FunctionDecl) : Prop where
  name : d.name? = name
  params : d.params.length ≤ 255
  body : ∀ s ∈ d.body, s.AllWellFormed

namespace Expr

variable {e : Expr}

theorem wellFormed_of_simple (hs : e.isSimple) (h : ∀ e' ∈ e.children, e'.isWrite = false) :
    e.WellFormed := by
  cases e with
  | lambda | template | call | set | indexSet => cases hs
  | _ => exact ⟨h, nofun, nofun, Nat.zero_le _, nofun, .nil⟩

theorem allWellFormed_of_children (he : e.WellFormed) (hf : e.functions = [])
    (h : ∀ e' ∈ e.children, e'.AllWellFormed) : e.AllWellFormed :=
  ⟨he, h, by rw [hf]; exact nofun⟩

theorem isOperand_of_simple (hs : e.isSimple) (h : ∀ e' ∈ e.children, e'.IsOperand) :
    e.IsOperand := by
  have hnode := wellFormed_of_simple hs fun e' he' => (h e' he').2
  cases e with
  | lambda | template | call | set | indexSet => cases hs
  | _ => exact ⟨allWellFormed_of_children hnode rfl fun e' he' => (h e' he').1, rfl⟩

theorem isOperand_call {callee : Expr} {args : List Expr} {span : Span} (hcallee : callee.IsOperand)
    (hargs : ∀ e ∈ args, e.IsOperand) (hlength : args.length ≤ 255) :
    (Expr.call callee args span).IsOperand := by
  have hall := List.forall_mem_cons.mpr ⟨hcallee, hargs⟩
  exact ⟨allWellFormed_of_children
      ⟨fun e he => (hall e he).2, nofun, nofun, hlength, nofun, .nil⟩ rfl
      fun e he => (hall e he).1,
    rfl⟩

theorem isOperand_lambda {d : FunctionDecl} {span : Span} (hd : d.WellFormed none) :
    (Expr.lambda d span).IsOperand := by
  refine ⟨⟨⟨nofun, List.forall_mem_singleton.mpr hd.name, List.forall_mem_singleton.mpr hd.params,
    Nat.zero_le _, nofun, .nil⟩, nofun, List.forall_mem_singleton.mpr hd.body⟩, rfl⟩

theorem isOperand_template {parts : List Part} {span : Span}
    (hexprs : ∀ p ∈ parts, ∀ e ∈ p.expr?, e.IsOperand) (hnonempty : .literal "" ∉ parts)
    (hapart : (parts.map Part.isLiteral).IsChain fun a b => (a && b) = false) :
    (Expr.template parts span).IsOperand := by
  have hall : ∀ e ∈ (Expr.template parts span).children, e.IsOperand := by
    intro e he
    obtain ⟨p, hp, hpe⟩ := List.mem_filterMap.mp he
    exact hexprs p hp e hpe
  exact ⟨allWellFormed_of_children
    ⟨fun e he => (hall e he).2, nofun, nofun, Nat.zero_le _, hnonempty, hapart⟩ rfl
    fun e he => (hall e he).1, rfl⟩

/-- An assignment is put together from the parts of what it assigns to. -/
theorem allWellFormed_of_write (hw : e.isWrite) (h : ∀ e' ∈ e.children, e'.IsOperand) :
    e.AllWellFormed := by
  cases e with
  | set | indexSet =>
    exact allWellFormed_of_children ⟨fun e' he' => (h e' he').2, nofun, nofun, Nat.zero_le _, nofun,
      .nil⟩ rfl
      fun e' he' => (h e' he').1
  | _ => cases hw

/-- What stands in a well-formed expression may stand in another one. -/
theorem IsOperand.children (h : e.IsOperand) : ∀ e' ∈ e.children, e'.IsOperand :=
  have ⟨⟨here, children, _⟩, _⟩ := h
  fun e' he' => ⟨children e' he', here.children e' he'⟩

end Expr

namespace Stmt

variable {s : Stmt}

theorem exprs_of_operands (h : ∀ e ∈ s.exprs, e.IsOperand) :
    ∀ e ∈ s.exprs, e.isWrite → s = .expr e :=
  fun e he hwrite => by rw [(h e he).2] at hwrite; cases hwrite

/-- A statement that makes no functions is well formed if its parts are. -/
theorem allWellFormed_of_parts (hs : s.WellFormed) (hf : s.functions = [])
    (hb : s.staticBlocks = []) (he : ∀ e ∈ s.exprs, e.AllWellFormed)
    (hi : ∀ s' ∈ s.inner, s'.AllWellFormed) : s.AllWellFormed :=
  ⟨hs, he, hi, by rw [hf]; exact nofun, by rw [hb]; exact nofun⟩

theorem allWellFormed_of_simple (hs : s.isSimple) (he : ∀ e ∈ s.exprs, e.IsOperand)
    (hi : ∀ s' ∈ s.inner, s'.AllWellFormed) : s.AllWellFormed := by
  have hexprs := exprs_of_operands he
  cases s with
  | expr | binding | assign | block | ret | brk | cont =>
    exact allWellFormed_of_parts ⟨nofun, hexprs, nofun, nofun, nofun, Nat.zero_le _, nofun, nofun⟩
      rfl rfl
      (fun e h => (he e h).1) hi
  | _ => cases hs

/-- An assignment may stand alone. -/
theorem isBranch_write {e : Expr} (hw : e.isWrite) (h : ∀ e' ∈ e.children, e'.IsOperand) :
    (Stmt.expr e).IsBranch := by
  refine ⟨allWellFormed_of_parts ⟨nofun, ?_, nofun, nofun, nofun, Nat.zero_le _, nofun, nofun⟩ rfl
    rfl
    (List.forall_mem_singleton.mpr (Expr.allWellFormed_of_write hw h)) nofun, rfl⟩
  exact List.forall_mem_singleton.mpr fun _ => rfl

theorem isBranch_attempt {body : List Stmt} {handler : Option (String × List Stmt)}
    {cleanup : Option (List Stmt)} {span : Span} (hguarded : ¬(handler.isNone && cleanup.isNone))
    (hi : ∀ s ∈ (Stmt.attempt body handler cleanup span).inner, s.AllWellFormed) :
    (Stmt.attempt body handler cleanup span).IsBranch := by
  refine ⟨allWellFormed_of_parts ⟨nofun, nofun, nofun, nofun, ?_, Nat.zero_le _, nofun, nofun⟩ rfl
    rfl
    nofun hi, rfl⟩
  rintro body' span' ⟨⟩
  exact hguarded rfl

theorem isBranch_switch {subject : Expr} {cases : List SwitchCase} {span : Span}
    (he : ∀ e ∈ (Stmt.switch subject cases span).exprs, e.IsOperand)
    (hi : ∀ s ∈ (Stmt.switch subject cases span).inner, s.AllWellFormed)
    (hone : (cases.filter fun k => k.values.isNone).length ≤ 1)
    (hselected : ∀ k ∈ cases, k.values ≠ some []) :
    (Stmt.switch subject cases span).IsBranch :=
  ⟨allWellFormed_of_parts ⟨nofun, exprs_of_operands he, nofun, nofun, nofun, hone, hselected, nofun⟩
    rfl rfl
    (fun e h => (he e h).1) hi, rfl⟩

/-- A condition or a loop around statements that declare nothing. -/
theorem isBranch_of_branches (hi : s.inner = s.branches) (hbranches : s.branches ≠ [])
    (he : ∀ e ∈ s.exprs, e.IsOperand) (hb : ∀ b ∈ s.branches, b.IsBranch) : s.IsBranch := by
  have hexprs := exprs_of_operands he
  have hnode := fun b h => (hb b h).2
  rw [← hi] at hb
  cases s with
  | cond | loop | forIn =>
    exact ⟨allWellFormed_of_parts ⟨hnode, hexprs, nofun, nofun, nofun, Nat.zero_le _, nofun, nofun⟩
      rfl rfl
      (fun e h => (he e h).1) fun b h => (hb b h).1, rfl⟩
  | _ => exact absurd rfl hbranches

theorem allWellFormed_function {d : FunctionDecl} {name : String} (hd : d.WellFormed (some name)) :
    (Stmt.function d).AllWellFormed := by
  refine ⟨⟨nofun, nofun, List.forall_mem_singleton.mpr ?_, List.forall_mem_singleton.mpr hd.params,
    nofun, Nat.zero_le _, nofun, nofun⟩, nofun, nofun, List.forall_mem_singleton.mpr hd.body, nofun⟩
  rw [hd.name]
  rfl

theorem allWellFormed_class {d : ClassDecl}
    (hmethods : ∀ m ∈ d.methods, ∃ name, m.WellFormed (some name))
    (hstatic : ∀ block ∈ d.staticBlock, ∀ s ∈ block, s.AllWellFormed) :
    (Stmt.classDecl d).AllWellFormed := by
  refine ⟨⟨nofun, nofun, fun m hm => ?_, fun m hm => ?_, nofun, Nat.zero_le _, nofun, nofun⟩, nofun,
    nofun,
    fun m hm => ?_, fun block hblock => hstatic block (Option.mem_toList.mp hblock)⟩
  all_goals obtain ⟨name, hwf⟩ := hmethods m hm
  · rw [hwf.name]
    rfl
  · exact hwf.params
  · exact hwf.body

theorem allWellFormed_import {path : List String} {span : Span} (hpath : path ≠ []) :
    (Stmt.importType path span).AllWellFormed :=
  allWellFormed_of_parts ⟨nofun, nofun, nofun, nofun, nofun, Nat.zero_le _, nofun,
    fun _ _ h => by cases h; exact hpath⟩ rfl rfl nofun nofun

/-! ## Shapes -/

theorem WellFormed.shaped (h : s.WellFormed) : s.Shaped where
  branches b hb := by
    have hdecl := h.branches b hb
    cases b with
    | binding | function | classDecl | importType => cases hdecl
    | _ => rfl
  path := h.path

/-- Where nodes are well formed, no declaration stands in a statement without braces around it. -/
theorem allShaped_of_allWellFormed (h : s.AllWellFormed) : s.Throughout (fun _ => True) Shaped :=
  h.combine (fun _ _ _ => trivial) (fun _ hs _ => hs.shaped) h

end Stmt

end ScriptEngine
