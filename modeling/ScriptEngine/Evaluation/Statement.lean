import ScriptEngine.Evaluation.Calls
import ScriptEngine.Host.Table
/-!
# Statements

Each statement of the language is one run that ends normally, with a signal or with an error.

* `whileLoop`, `itemLoop` : loops consume `brk` and `cont` and pass `ret` on (`run_while`,
  `run_for`). The items are those that the list or the text has when the loop begins
  (`iteration_items`).
* `switch` : runs from the selected clause on and consumes `brk` (`execute_switch`, `run_cases`).
  Clauses are compared in order up to the first that is equal; the default clause is taken if none
  is.
* `attempt` : handlers see errors alone, and the cleanup runs in every case (`execute_try`).
  `errorObject` is what a handler is given (`error_value`).
* `leave` : a signal, which is an error where nothing takes it.
* `declareClass` : a class with the functions of its methods (`declare_class`).
* `importType` : the host class that a path resolves to.
* `assignedValue`, `assignName` : an assignment, compound or plain (`assigned_value`).
* `step` : any statement (`execute_stmt`).
* `interpret` : a program, which ends with the value of its last statement (`interpret`).
-/

namespace ScriptEngine.Evaluation

variable (again : Calls)

/-! ### Loops -/

/-- The frame of a loop. -/
def loopFrame (f : Frame) : Frame := { f with loopDepth := f.loopDepth + 1 }

/-- How a loop goes on after its body: it may end, or go round again. -/
def afterBody : Flow → Option Flow
  | .brk => some .normal
  | .ret v => some (.ret v)
  | .cont | .normal => none

/-- One round of a loop with a test. -/
def testedRound (test : Expr) (body : Stmt) : Script (Option Flow) := do
  if ← Script.isTruthy (← again.evaluate test) then return afterBody (← again.execute body)
  else return some .normal

/-- A loop with a test, of no more than `rounds` rounds. -/
def whileLoop (rounds : Nat) (test : Expr) (body : Stmt) : Script Flow :=
  Run.inFrame loopFrame (Run.repeatUntil (testedRound again test body) rounds)

/-- What a loop over a value goes through: the items of a list, the characters of a string or the
names of the fields of an object. -/
def itemsOf (v : Value) : Script (List Value) :=
  match v with
  | .list id => Script.heap fun h => (h.list id).toList
  | .string s => pure (s.toList.map fun c => .string c.toString)
  | .object id => Script.heap fun h => (h.object id).fields.map fun (name, _) => .string name
  | v => Script.mismatch (.iteration v.typeName)

/-- One round of a loop over items. Every round has a scope of its own. -/
def itemRound (name : String) (body : Stmt) (item : Value) : Script (Option Flow) := do
  let scope ← Script.childScope (← Script.currentScope)
  Script.define scope name item
  return afterBody (← Script.inScope scope (again.execute body))

/-- A loop over the items that a value has at the start. -/
def itemLoop (name : String) (iterable : Expr) (body : Stmt) : Script Flow := do
  let items ← itemsOf (← again.evaluate iterable)
  Run.inFrame loopFrame (Run.forEach (itemRound again name body) .normal items)

/-! ### Selection -/

/-- Executes one of two branches. -/
def conditional (test : Expr) (thenBranch : Stmt) (elseBranch : Option Stmt) : Script Flow := do
  if ← Script.isTruthy (← again.evaluate test) then again.execute thenBranch
  else
    match elseBranch with
    | some branch => again.execute branch
    | none => return .normal

/-- Whether an expression has the given value, as a reason to stop looking. -/
def hasValue (subject : Value) (e : Expr) : Script (Option Bool) := do
  let v ← again.evaluate e
  return if ← Script.heap (·.equal v subject) then some true else none

/-- Whether a clause has the given value among its values. -/
def selects (subject : Value) (clause : SwitchCase) : Script Bool :=
  match clause.values with
  | none => pure false
  | some values => Run.forEach (hasValue again subject) false values

/-- The clauses from the first one that has the given value, if there is one. -/
def selectedFrom? (subject : Value) : List SwitchCase → Script (Option (List SwitchCase))
  | [] => pure none
  | clause :: clauses => do
    if ← selects again subject clause then return some (clause :: clauses)
    else selectedFrom? subject clauses

/-- The clauses from the default clause on. -/
def defaultFrom (clauses : List SwitchCase) : List SwitchCase :=
  clauses.dropWhile fun clause => clause.values.isSome

/-- The frame of the clauses of a switch. -/
def switchFrame (scope : ScopeId) (f : Frame) : Frame :=
  { f with scope, switchDepth := f.switchDepth + 1 }

/-- A switch takes a break for itself. -/
def afterSwitch : Flow → Flow
  | .brk => .normal
  | flow => flow

/-- Executes the clauses from the selected one on, all in one new scope. -/
def switch (subject : Expr) (clauses : List SwitchCase) : Script Flow := do
  let subject ← again.evaluate subject
  match (← selectedFrom? again subject clauses).getD (defaultFrom clauses) with
  | [] => return .normal
  | selected =>
    let scope ← Script.childScope (← Script.currentScope)
    return afterSwitch (← Run.inFrame (switchFrame scope)
      (executeAll again (selected.flatMap SwitchCase.body)))

/-! ### Errors -/

/-- The object a handler sees. -/
def errorObject (f : Fault) : Script Value :=
  Script.newObject [("message", .string f.message), ("line", .number (Float.ofNat f.line))]

/-- Runs the handler of an error. -/
def handle (name : String) (handler : List Stmt) (f : Fault) : Script Flow := do
  let e ← errorObject f
  let scope ← Script.childScope (← Script.currentScope)
  Script.define scope name e
  executeIn again scope handler

/-- Runs a body and, if it ended with an error, the handler there is. -/
def guarded (body : List Stmt) (handler : Option (String × List Stmt)) : Script Flow := do
  let outcome : Except Fault Flow ← Run.attempt (executeBlock again body)
  match outcome, handler with
  | .error f, some (name, handler) => handle again name handler f
  | outcome, _ => Run.ofExcept outcome

/-- Runs a body, its handler and its cleanup. A cleanup that does not end normally decides how the
whole ends. -/
def attempt (body : List Stmt) (handler : Option (String × List Stmt))
    (cleanup : Option (List Stmt)) : Script Flow :=
  match cleanup with
  | none => guarded again body handler
  | some cleanup => do
    let outcome : Except Fault Flow ← Run.attempt (guarded again body handler)
    match ← executeBlock again cleanup with
    | .normal => Run.ofExcept outcome
    | flow => return flow

/-! ### Declarations -/

/-- A new script function with the current scope around it. -/
def closure (decl : FunctionDecl) : Script FunctionId := Run.change fun w =>
  let (id, heap) := w.heap.addFunction ⟨decl, w.frame.scope⟩
  (id, { w with heap })

/-- What a class extends: a script class or a host class. -/
def superclassOf (name : String) : Option (String × Span) →
    Script (Option ClassId × Option HostClassId)
  | none => pure (none, none)
  | some (superName, span) => Script.placedAt span do
    match ← Script.get (← Script.currentScope) superName with
    | .scriptClass id => return (some id, none)
    | .hostClass id => return (none, some id)
    | v => Script.mismatch (.superclass name v.typeName)

/-- The functions of methods, the last one first, so that it hides those of its name before it. -/
def methodTable (methods : List FunctionDecl) : Script (List (String × FunctionId)) := do
  let functions ← Run.collect (fun decl => do return (decl.shownName, ← closure decl)) methods
  return functions.reverse

/-- Adds a class. -/
def newClass (c : ScriptClass) : Script ClassId := Run.change fun w =>
  let (id, heap) := w.heap.addClass c
  (id, { w with heap })

/-- Declares a class. -/
def declareClass (decl : ClassDecl) : Script Unit := do
  let (superclass, hostBase) ← superclassOf decl.name decl.superclass
  let methods ← methodTable decl.methods
  let id ← newClass ⟨decl.name, methods, superclass, hostBase, decl.staticBlock, none⟩
  Script.define (← Script.currentScope) decl.name (.scriptClass id)

/-- Binds the last name of a path to the host class the path names. -/
def importType (path : List String) : Script Unit := do
  let qualified := String.intercalate "." path
  match ← Run.read fun w => resolve w.heap w.environment.registry qualified with
  | none => Script.fail (.importNotFound qualified)
  | some cls =>
    let name ← Script.heap fun h => path.getLast?.getD (h.hostClass cls).name
    Script.define (← Script.currentScope) name (.hostClass cls)

/-- The new value of a name, whose old value a compound operator combines first. -/
def assignedValue (op : AssignOp) (current : Script Value) (value : Expr) : Script Value :=
  match op.binary? with
  | none => again.evaluate value
  | some op => do
    let old ← current
    Operators.binary op old (← again.evaluate value)

/-- Assigns to a name. -/
def assignName (name : String) (op : AssignOp) (value : Expr) : Script Unit := do
  let scope ← Script.currentScope
  let v ← assignedValue again op (Script.get scope name) value
  Script.assign scope name v

/-- An expression that may be left out, which then is null. -/
def evaluateOptional : Option Expr → Script Value
  | some e => again.evaluate e
  | none => pure .null

/-- Leaves a function. -/
def leave (value : Option Expr) : Script Flow := do
  if (← Run.read fun w => w.frame.functionDepth) = 0 then Script.fail .returnOutsideFunction
  else return .ret (← evaluateOptional again value)

/-- Executes one statement; a loop with a test has no more than `rounds` rounds. -/
def step (rounds : Nat) (stmt : Stmt) : Script Flow :=
  match stmt with
  | .expr e => do
    let _ ← again.evaluate e
    return .normal
  | .binding name initial constant _ => do
    let v ← evaluateOptional again initial
    Script.declare (← Script.currentScope) name v constant
    return .normal
  | .assign name op value _ => do
    assignName again name op value
    return .normal
  | .block body _ => executeBlock again body
  | .cond test thenBranch elseBranch _ => conditional again test thenBranch elseBranch
  | .loop test body _ => whileLoop again rounds test body
  | .forIn name iterable body _ => itemLoop again name iterable body
  | .switch subject clauses _ => switch again subject clauses
  | .function decl => do
    let id ← closure decl
    Script.define (← Script.currentScope) decl.shownName (.function id)
    return .normal
  | .ret value _ => leave again value
  | .brk _ => do
    let f ← Run.read (·.frame)
    if f.loopDepth = 0 && f.switchDepth = 0 then Script.fail .breakOutsideLoop else return .brk
  | .cont _ => do
    if (← Run.read fun w => w.frame.loopDepth) = 0 then Script.fail .continueOutsideLoop
    else return .cont
  | .classDecl decl => do
    declareClass decl
    return .normal
  | .importType path _ => do
    importType path
    return .normal
  | .attempt body handler cleanup _ => attempt again body handler cleanup

/-! ### Programs -/

/-- Executes statements after one whose value was `last`. -/
def interpretAfter (last : Value) : List Stmt → Script Value
  | [] => pure last
  | .expr e :: program => do interpretAfter (← again.evaluate e) program
  | stmt :: program => do
    let _ ← again.execute stmt
    interpretAfter .null program

/-- Executes a program. Its value is that of its last statement if that is an expression, or else
null. -/
def interpret (program : List Stmt) : Script Value := interpretAfter again .null program

end ScriptEngine.Evaluation
