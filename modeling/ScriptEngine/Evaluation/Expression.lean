import ScriptEngine.Evaluation.Invoke
import ScriptEngine.Evaluation.Statement
/-!
# Expressions

Operands are evaluated from left to right, and what is assigned to before what is assigned. A
compound assignment reads before its right side is evaluated.

* `logical` : the second operand is evaluated only if the first does not decide.
* `receiver` : the object of an assignment or of a method.
* `assignProperty`, `assignIndex` : assignments to parts of values.
* `partText` : a part of a template as text, put after the parts before it.
* `valueOf` : any expression (`evaluate_expr`). The place of an error is put to it where the
  recursion is tied.
-/

namespace ScriptEngine.Evaluation

variable (again : Calls)

/-- The value of an expression whose left operand decides whether the right one counts. -/
def logical (left : Expr) (op : LogicalOp) (right : Expr) : Script Value := do
  let v ← again.evaluate left
  let truthy ← Script.isTruthy v
  match op with
  | .or => if truthy then return v else again.evaluate right
  | .and => if truthy then again.evaluate right else return v

/-- The value that `this` names. -/
def receiver : Script Value := do
  let scope ← Script.currentScope
  match ← Script.heap (·.lookup scope "this") with
  | some v => return v
  | none => Script.refuse .thisOutsideMethod

/-- Assigns to a property and answers with the value. -/
def assignProperty (object : Expr) (name : String) (op : AssignOp) (value : Expr) :
    Script Value := do
  let target ← again.evaluate object
  let v ← assignedValue again op (readProperty again true target name) value
  writeProperty again target name v
  return v

/-- Assigns to a part and answers with the value. -/
def assignIndex (object key : Expr) (op : AssignOp) (value : Expr) : Script Value := do
  let target ← again.evaluate object
  let key ← again.evaluate key
  let v ← assignedValue again op (Operators.readIndex true target key) value
  writeIndex target key v
  return v

/-- The value of an entry of a map. -/
def entry (e : String × Expr) : Script (String × Value) := do
  return (e.1, ← again.evaluate e.2)

/-- The text of a piece of a template. -/
def partText : Part → Script String
  | .literal text => pure text
  | .embedded e => do Script.text (← again.evaluate e)

/-- The value of an expression. -/
def valueOf (e : Expr) : Script Value :=
  match e with
  | .number x _ => pure (.number x)
  | .float x _ => pure (.float x)
  | .string s _ => pure (.string s)
  | .bool b _ => pure (.bool b)
  | .null _ => pure .null
  | .var name _ => do Script.get (← Script.currentScope) name
  | .this _ => receiver
  | .binary left op right _ => do
    let a ← again.evaluate left
    let b ← again.evaluate right
    Operators.binary op a b
  | .logical left op right _ => logical again left op right
  | .unary op operand _ => do Operators.unary op (← again.evaluate operand)
  | .call callee args _ => do
    let f ← again.evaluate callee
    let values ← Run.collect again.evaluate args
    again.call f values
  | .lambda decl _ => do return .function (← closure decl)
  | .get object name _ => do readProperty again false (← again.evaluate object) name
  | .set object name op value _ => assignProperty again object name op value
  | .index object key _ => do
    let v ← again.evaluate object
    Operators.readIndex false v (← again.evaluate key)
  | .indexSet object key op value _ => assignIndex again object key op value
  | .list elements _ => do Script.newList (← Run.collect again.evaluate elements).toArray
  | .map entries _ => do Script.newObject (Fields.ofPairs (← Run.collect (entry again) entries))
  | .template parts _ => do return .string (String.join (← Run.collect (partText again) parts))

end ScriptEngine.Evaluation
