import ScriptEngine.Host.Convert
/-!
# Calls

Evaluation is one recursion over expressions, statements and calls of every kind, cut off by a
budget. What a step may start again is given to it as `Calls`, so each step is a plain definition.

* `Flow` : how a statement ends: normally, or with a signal on its way to the loop, the switch or
  the function that takes it.
* `Calls` : what a step may start again. Two of its fields are the host's ways back into scripts.
* `executeAll` : statements one after another, up to a signal (`run_statements`).
* `executeBlock` : the same in a scope of their own (`execute_block`).
* `callFunction` : the only way into the body of a script function (`call_function`). Arguments are
  counted first, then the call is, and the body runs in a scope inside the one the function was made
  in.
* `returned` : the value of a body; a signal that is not a return counts for
  nothing.
* `callFromHost` : a script method that the host calls (`invoke_script`).
-/

namespace ScriptEngine

/-- How a statement ends: normally, or with a signal to what surrounds it. -/
inductive Flow
  | normal
  | brk
  | cont
  | ret (value : Value)
  deriving DecidableEq

/-- What a step of evaluation may start again. -/
structure Calls where
  evaluate : Expr → Script Value
  execute : Stmt → Script Flow
  /-- Calls a value with arguments. -/
  call : Value → List Value → Script Value
  /-- Calls a method of a host object as the host does. -/
  callVirtual : HostId → String → List HostData → Run HostError HostData
  /-- Reads a property of a host object as the host does. -/
  readHost : HostId → String → Run HostError HostData

/-- The calls that use up the budget at once. -/
def Calls.exhausted : Calls :=
  ⟨fun _ => Run.exhausted, fun _ => Run.exhausted, fun _ _ => Run.exhausted,
    fun _ _ _ => Run.exhausted, fun _ _ => Run.exhausted⟩

namespace Evaluation

variable (again : Calls)

/-- Executes a statement and says how to go on: not at all if it ended with a signal. -/
def signalOf (stmt : Stmt) : Script (Option Flow) := do
  match ← again.execute stmt with
  | .normal => return none
  | flow => return some flow

/-- Executes statements one after another, up to a signal. -/
def executeAll (body : List Stmt) : Script Flow := Run.forEach (signalOf again) .normal body

/-- Executes statements in a scope. -/
def executeIn (scope : ScopeId) (body : List Stmt) : Script Flow :=
  Script.inScope scope (executeAll again body)

/-- Executes statements in a new scope inside the current one. -/
def executeBlock (body : List Stmt) : Script Flow := do
  executeIn again (← Script.childScope (← Script.currentScope)) body

/-- Binds parameters to arguments in a scope. Missing arguments are null, further ones are left
out. -/
def bindArguments (scope : ScopeId) : List String → List Value → Script Unit
  | [], _ => pure ()
  | p :: ps, [] => do
    Script.define scope p .null
    bindArguments scope ps []
  | p :: ps, v :: vs => do
    Script.define scope p v
    bindArguments scope ps vs

/-- The frame of a function body. -/
def functionFrame (scope : ScopeId) (f : Frame) : Frame := ⟨scope, 0, 0, f.functionDepth + 1⟩

/-- The value a function body ends with. -/
def returned : Flow → Value
  | .ret v => v
  | _ => .null

/-- Calls a script function, perhaps on a receiver. -/
def callFunction (id : FunctionId) (this : Option Value) (args : List Value) : Script Value :=
  Script.asCall do
    match ← Script.heap (·.functions[id.index]?) with
    | none => return .null
    | some f =>
      let scope ← Script.childScope f.closure
      match this with
      | some v => Script.define scope "this" v
      | none => pure ()
      bindArguments scope f.decl.params args
      return returned (← Run.inFrame (functionFrame scope) (executeAll again f.decl.body))

/-- Calls a script function from the top, as host code does. -/
def callFromHost (id : FunctionId) (this : Value) (args : List Value) : Script Value :=
  Run.inFrame (fun _ => .top globalScope) (callFunction again id (some this) args)

end Evaluation

end ScriptEngine
