import ScriptEngine.Source
/-!
# Trees

The statements and expressions of the language. Each node keeps the span it is blamed under.

* `Expr`, `Stmt` : the nodes; `FunctionDecl`, `ClassDecl`, `SwitchCase` and `Part` belong to them.
* `Expr.span`, `Stmt.span` : where a node stands. Statements that only hold an expression stand
  where it does.
* `BinaryOp`, `LogicalOp`, `UnaryOp`, `AssignOp` : operators; `AssignOp.binary?` is the one that a
  compound assignment applies.
* `FunctionDecl.shownName` : the name that a function is shown under (`display_name`).

Trees are compared with their spans. A tree without its spans is of use to proofs only and stands
there.
-/

namespace ScriptEngine

/-- Operators that combine two values. -/
inductive BinaryOp
  | add | sub | mul | div | mod | eq | ne | lt | le | gt | ge
  deriving DecidableEq, Repr

/-- How a binary operator is written. -/
def BinaryOp.text : BinaryOp → String
  | add => "+"
  | sub => "-"
  | mul => "*"
  | div => "/"
  | mod => "%"
  | eq => "=="
  | ne => "!="
  | lt => "<"
  | le => "<="
  | gt => ">"
  | ge => ">="

/-- Operators that may leave out their right operand. -/
inductive LogicalOp
  | and | or
  deriving DecidableEq, Repr

/-- How a logical operator is written. -/
def LogicalOp.text : LogicalOp → String
  | and => "&&"
  | or => "||"

/-- Operators on one value. -/
inductive UnaryOp
  | neg | not
  deriving DecidableEq, Repr

/-- How a unary operator is written. -/
def UnaryOp.text : UnaryOp → String
  | neg => "-"
  | not => "!"

/-- Plain and compound assignment. -/
inductive AssignOp
  | plain | add | sub | mul | div | mod
  deriving DecidableEq, Repr

namespace AssignOp

/-- The operator that a compound assignment applies to the old value. -/
def binary? : AssignOp → Option BinaryOp
  | plain => none
  | add => some .add
  | sub => some .sub
  | mul => some .mul
  | div => some .div
  | mod => some .mod

/-- How an assignment operator is written. -/
def text (op : AssignOp) : String :=
  match op.binary? with
  | some b => b.text ++ "="
  | none => "="

end AssignOp

mutual

/-- Expressions. -/
inductive Expr
  | number (value : Float) (span : Span)
  | float (value : Float32) (span : Span)
  | string (value : String) (span : Span)
  | bool (value : Bool) (span : Span)
  | null (span : Span)
  | var (name : String) (span : Span)
  | this (span : Span)
  | binary (left : Expr) (op : BinaryOp) (right : Expr) (span : Span)
  | logical (left : Expr) (op : LogicalOp) (right : Expr) (span : Span)
  | unary (op : UnaryOp) (operand : Expr) (span : Span)
  | call (callee : Expr) (args : List Expr) (span : Span)
  | lambda (function : FunctionDecl) (span : Span)
  | get (object : Expr) (name : String) (span : Span)
  | set (object : Expr) (name : String) (op : AssignOp) (value : Expr) (span : Span)
  | index (object : Expr) (key : Expr) (span : Span)
  | indexSet (object : Expr) (key : Expr) (op : AssignOp) (value : Expr) (span : Span)
  | list (elements : List Expr) (span : Span)
  | map (entries : List (String × Expr)) (span : Span)
  | template (parts : List Part) (span : Span)

/-- A piece of a template. -/
inductive Part
  | literal (text : String)
  | embedded (expr : Expr)

/-- A function with or without a name. -/
inductive FunctionDecl
  | mk (name : Option String) (params : List String) (body : List Stmt) (span : Span)

/-- A class with its methods and the block that bakes values into its instances. -/
inductive ClassDecl
  | mk (name : String) (superclass : Option (String × Span)) (methods : List FunctionDecl)
      (staticBlock : Option (List Stmt)) (span : Span)

/-- One clause of a switch. The default clause has no values. -/
inductive SwitchCase
  | mk (values : Option (List Expr)) (body : List Stmt) (span : Span)

/-- Statements. -/
inductive Stmt
  | expr (expr : Expr)
  | binding (name : String) (initial : Option Expr) (constant : Bool) (span : Span)
  | assign (name : String) (op : AssignOp) (value : Expr) (span : Span)
  | block (body : List Stmt) (span : Span)
  | cond (test : Expr) (thenBranch : Stmt) (elseBranch : Option Stmt) (span : Span)
  | loop (test : Expr) (body : Stmt) (span : Span)
  | forIn (name : String) (iterable : Expr) (body : Stmt) (span : Span)
  | switch (subject : Expr) (cases : List SwitchCase) (span : Span)
  | function (decl : FunctionDecl)
  | ret (value : Option Expr) (span : Span)
  | brk (span : Span)
  | cont (span : Span)
  | classDecl (decl : ClassDecl)
  | importType (path : List String) (span : Span)
  | attempt (body : List Stmt) (handler : Option (String × List Stmt))
      (cleanup : Option (List Stmt)) (span : Span)

end

instance : Inhabited Expr := ⟨.null default⟩
instance : Inhabited Stmt := ⟨.expr default⟩

namespace FunctionDecl

/-- The name, if the function has one. -/
def name? : FunctionDecl → Option String
  | mk name .. => name

/-- The parameters in order. -/
def params : FunctionDecl → List String
  | mk _ params .. => params

/-- The statements of the body. -/
def body : FunctionDecl → List Stmt
  | mk _ _ body _ => body

/-- Where the function is declared. -/
def span : FunctionDecl → Span
  | mk _ _ _ span => span

/-- The name that is shown. -/
def shownName (f : FunctionDecl) : String := f.name?.getD "<lambda>"

end FunctionDecl

namespace ClassDecl

/-- The name of the class. -/
def name : ClassDecl → String
  | mk name .. => name

/-- The name of the superclass and where it is mentioned. -/
def superclass : ClassDecl → Option (String × Span)
  | mk _ superclass .. => superclass

/-- The methods in order. -/
def methods : ClassDecl → List FunctionDecl
  | mk _ _ methods .. => methods

/-- The block that bakes values into the instances. -/
def staticBlock : ClassDecl → Option (List Stmt)
  | mk _ _ _ block _ => block

/-- Where the class is declared. -/
def span : ClassDecl → Span
  | mk _ _ _ _ span => span

end ClassDecl

namespace SwitchCase

/-- The values that select the clause; none for the default clause. -/
def values : SwitchCase → Option (List Expr)
  | mk values .. => values

/-- The statements of the clause. -/
def body : SwitchCase → List Stmt
  | mk _ body _ => body

/-- Where the clause begins. -/
def span : SwitchCase → Span
  | mk _ _ span => span

end SwitchCase

namespace Expr

/-- Where the expression stands. -/
def span : Expr → Span
  | number _ s | float _ s | string _ s | bool _ s | null s | var _ s | this s
  | binary _ _ _ s | logical _ _ _ s | unary _ _ s | call _ _ s | lambda _ s | get _ _ s
  | set _ _ _ _ s | index _ _ s | indexSet _ _ _ _ s | list _ s | map _ s | template _ s => s

/-- Whether the expression is a literal constant. -/
def isLiteral : Expr → Bool
  | number .. | float .. | string .. | bool .. | null .. => true
  | _ => false

end Expr

/-- Where the statement stands. -/
def Stmt.span : Stmt → Span
  | expr e => e.span
  | function decl => decl.span
  | classDecl decl => decl.span
  | binding _ _ _ s | assign _ _ _ s | block _ s | cond _ _ _ s | loop _ _ s | forIn _ _ _ s
  | switch _ _ s | ret _ s | brk s | cont s | importType _ s | attempt _ _ _ s => s

end ScriptEngine
