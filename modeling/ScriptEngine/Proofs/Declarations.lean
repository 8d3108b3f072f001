import ScriptEngine.Proofs.Walk.Statements
/-!
# What statements declare

A declaration binds one name in the scope it is executed in. A statement under a condition or in a
loop is executed in the scope of the condition or the loop unless it stands in braces, so it must
not be a declaration.

* `Stmt.declares?` : the name that a statement declares.
* `Stmt.Shaped` : no declaration stands in a statement without braces around it.
* `Stmt.Throughout`, `Expr.Throughout` : what holds of a tree and of every tree in it, in the
  functions and static blocks as well.
* `Stmt.throughout_iff`, `Expr.throughout_iff` : it holds of a node if it holds of the parts.
* `Stmt.Plain`, `Expr.Plain` : trees of that shape that leave the scheduling of jobs alone.
-/

namespace ScriptEngine

namespace Stmt

/-- The name that a statement declares, if it is a declaration. -/
def declares? : Stmt → Option String
  | binding name .. => some name
  | function decl => some decl.shownName
  | classDecl decl => some decl.name
  | importType path _ => path.getLast?
  | expr _ | assign .. | block .. | cond .. | loop .. | forIn .. | switch .. | ret .. | brk _ | cont
      _
  | attempt .. => none

/-- The statements in a statement that stand without braces around them, if a body is one
statement. -/
def branches : Stmt → List Stmt
  | cond _ thenBranch elseBranch _ => thenBranch :: elseBranch.toList
  | loop _ body _ | forIn _ _ body _ => [body]
  | _ => []

/-- No declaration stands in the statement without braces around it, and an import has a name to
bind. -/
structure Shaped (s : Stmt) : Prop where
  branches : ∀ b ∈ s.branches, b.declares? = none
  path : ∀ path span, s = .importType path span → path ≠ []

end Stmt

/-- The expression is not a variable of that name. -/
def Expr.Avoids (name : String) (e : Expr) : Prop := ∀ span, e ≠ .var name span

/-! ## Whole trees -/

mutual

/-- Every expression in the expression is in `p`, and every statement in `q`. -/
inductive Expr.Throughout (p : Expr → Prop) (q : Stmt → Prop) : Expr → Prop
  | intro {e : Expr} (here : p e) (children : ∀ e' ∈ e.children, Expr.Throughout p q e')
      (bodies : ∀ d ∈ e.functions, ∀ s ∈ d.body, Stmt.Throughout p q s) : Expr.Throughout p q e

/-- Every expression in the statement is in `p`, and every statement in `q`. -/
inductive Stmt.Throughout (p : Expr → Prop) (q : Stmt → Prop) : Stmt → Prop
  | intro {s : Stmt} (here : q s) (exprs : ∀ e ∈ s.exprs, Expr.Throughout p q e)
      (inner : ∀ s' ∈ s.inner, Stmt.Throughout p q s')
      (bodies : ∀ d ∈ s.functions, ∀ s' ∈ d.body, Stmt.Throughout p q s')
      (blocks : ∀ block ∈ s.staticBlocks, ∀ s' ∈ block, Stmt.Throughout p q s') :
      Stmt.Throughout p q s

end

variable {p p' p'' : Expr → Prop} {q q' q'' : Stmt → Prop}

theorem Expr.throughout_iff {e : Expr} : e.Throughout p q ↔
    p e ∧ (∀ e' ∈ e.children, e'.Throughout p q) ∧
      ∀ d ∈ e.functions, ∀ s ∈ d.body, s.Throughout p q :=
  ⟨fun ⟨here, children, bodies⟩ => ⟨here, children, bodies⟩,
    fun ⟨here, children, bodies⟩ => ⟨here, children, bodies⟩⟩

theorem Stmt.throughout_iff {s : Stmt} : s.Throughout p q ↔
    q s ∧ (∀ e ∈ s.exprs, e.Throughout p q) ∧ (∀ s' ∈ s.inner, s'.Throughout p q) ∧
      (∀ d ∈ s.functions, ∀ s' ∈ d.body, s'.Throughout p q) ∧
      ∀ block ∈ s.staticBlocks, ∀ s' ∈ block, s'.Throughout p q :=
  ⟨fun ⟨here, exprs, inner, bodies, blocks⟩ => ⟨here, exprs, inner, bodies, blocks⟩,
    fun ⟨here, exprs, inner, bodies, blocks⟩ => ⟨here, exprs, inner, bodies, blocks⟩⟩

mutual

/-- What follows at every node holds of the whole tree. -/
theorem Expr.Throughout.combine (hp : ∀ e, p e → p' e → p'' e) (hq : ∀ s, q s → q' s → q'' s)
    {e : Expr} :
    e.Throughout p q → e.Throughout p' q' → e.Throughout p'' q''
  | ⟨here, children, bodies⟩, ⟨here', children', bodies'⟩ =>
    ⟨hp _ here here', fun e he => (children e he).combine hp hq (children' e he),
      fun d hd s hs => (bodies d hd s hs).combine hp hq (bodies' d hd s hs)⟩

theorem Stmt.Throughout.combine (hp : ∀ e, p e → p' e → p'' e) (hq : ∀ s, q s → q' s → q'' s)
    {s : Stmt} :
    s.Throughout p q → s.Throughout p' q' → s.Throughout p'' q''
  | ⟨here, exprs, inner, bodies, blocks⟩, ⟨here', exprs', inner', bodies', blocks'⟩ =>
    ⟨hq _ here here', fun e he => (exprs e he).combine hp hq (exprs' e he),
      fun s hs => (inner s hs).combine hp hq (inner' s hs),
      fun d hd s hs => (bodies d hd s hs).combine hp hq (bodies' d hd s hs),
      fun block hb s hs => (blocks block hb s hs).combine hp hq (blocks' block hb s hs)⟩

end

/-! ## Plain trees -/

/-- Nothing in the expression reads the variable. -/
abbrev Expr.NeverReads (name : String) : Expr → Prop :=
  Expr.Throughout (Expr.Avoids name) fun _ => True

/-- Nothing in the statement reads the variable. -/
abbrev Stmt.NeverReads (name : String) : Stmt → Prop :=
  Stmt.Throughout (Expr.Avoids name) fun _ => True

/-- Nothing in the expression reads the function that schedules jobs, and every statement in it is
shaped. -/
abbrev Expr.Plain : Expr → Prop := Expr.Throughout (Expr.Avoids "runOn") Stmt.Shaped

/-- Nothing in the statement reads the function that schedules jobs, and every statement in it is
shaped. -/
abbrev Stmt.Plain : Stmt → Prop := Stmt.Throughout (Expr.Avoids "runOn") Stmt.Shaped

theorem Stmt.plain_of_shaped {s : Stmt} (hr : s.NeverReads "runOn")
    (hs : s.Throughout (fun _ => True) Stmt.Shaped) : s.Plain :=
  hr.combine (fun _ h _ => h) (fun _ _ h => h) hs

end ScriptEngine
