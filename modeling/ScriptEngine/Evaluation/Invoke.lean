import ScriptEngine.Evaluation.Property
import ScriptEngine.Library.Builtins
/-!
# Calling values

* `callNative` : native functions, after a look at the number of arguments (`check_arity`).
* `bakedValues` : a static block is executed as code at the top, in a scope inside the globals, and
  what it binds is baked (`run_static_block`). It is not counted as a call. Its error is wrapped in
  one that names the class, at the same place.
* `instantiate` : an instance of a script class: first the values of its static block, then the host
  instance if there is to be one, then its method `init` (`instantiate`).
* `callValue` : anything that can be called (`call_value`).

What native functions of an embedding program do is out of scope but for the few bodies that stand
for them (`readNamed`, `writeNamed`, `lookupNamed`).
-/

namespace ScriptEngine.Evaluation

variable (again : Calls)

/-! ### Native functions -/

/-- The first argument's property of the name that the second one spells. -/
def readNamed (args : List Value) : Script Value := do
  let name ← Script.text (Library.argumentAt args 1)
  readProperty again false (Library.argumentAt args 0) name

/-- Sets the first argument's property of the name that the second one spells. -/
def writeNamed (args : List Value) : Script Value := do
  let name ← Script.text (Library.argumentAt args 1)
  writeProperty again (Library.argumentAt args 0) name (Library.argumentAt args 2)
  return .null

/-- The value of the name that the first argument spells, or null. -/
def lookupNamed (scope : ScopeId) (args : List Value) : Script Value := do
  let name ← Script.text (Library.argumentAt args 0)
  Script.heap fun h => (h.lookup scope name).getD .null

/-- Does what a native function does. -/
def runNative (body : NativeBody) (args : List Value) : Script Value :=
  match body with
  | .builtin b => Library.answer again b args
  | .constant v => pure v
  | .echo => Script.newList args.toArray
  | .context => Run.read fun w =>
    match w.environment.context with
    | some text => .string text
    | none => .null
  | .enclosing => Run.read fun w => w.environment.enclosing.getD .null
  | .fail => Script.refuse (.native "native failed")
  | .call => again.call (Library.argumentAt args 0) args.tail
  | .getProperty => readNamed again args
  | .setProperty => writeNamed again args
  | .lookupHere => do lookupNamed (← Script.currentScope) args
  | .lookupGlobal => lookupNamed globalScope args

/-- Calls a native function. -/
def callNative (id : NativeId) (args : List Value) : Script Value := do
  match ← Script.heap (·.native? id) with
  | none => return .null
  | some n =>
    Script.ofExcept (n.checkArity args.length)
    runNative again n.body args

/-! ### Instances -/

/-- The fault of a static block, as a fault of the class. -/
def staticFault (name : String) (f : Fault) : Fault :=
  { Fault.runtime (.refused (.staticBlock name f.message)) with span := f.span }

/-- The values that a static block leaves in its scope, under the names of their getters. -/
def bakedFrom (bindings : List (String × Value)) : Fields :=
  Fields.ofPairs (bindings.map fun (name, v) => (accessorName "get" name, v))

/-- Executes the static block of a class as code at the top, and bakes what it binds. -/
def bakedValues (cls : ScriptClass) : Script Fields :=
  match cls.staticBlock with
  | none => pure []
  | some block => do
    let scope ← Script.childScope globalScope
    let _ ← (Run.inFrame (fun _ => .top scope) (executeAll again block)).mapError
      (staticFault cls.name)
    Script.heap fun h => bakedFrom (h.localBindings scope)

/-- A new object. -/
def newInstance (o : Object) : Script ObjectId := Run.change fun w =>
  let (id, heap) := w.heap.addObject o
  (id, { w with heap })

/-- A new instance of a script class, before its `init`. -/
def newOf (id : ClassId) (baked : Fields) (args : List Value) : Script Value := do
  let object ← newInstance ⟨some id, [], baked⟩
  match ← Script.heap (·.hostBase? id) with
  | some base => return .host (← HostRun.toScript (Host.extend id base object args))
  | none => return .object object

/-- A new instance of a script class, whose values are baked by `bake`. -/
def instantiateBy (bake : ScriptClass → Script Fields) (id : ClassId) (args : List Value) :
    Script Value := do
  match ← Script.heap (·.scriptClass? id) with
  | none => return .null
  | some cls =>
    let baked ← bake cls
    let v ← newOf id baked args
    match ← Script.heap (·.methodOf? id "init") with
    | some init => let _ ← callFunction again init (some v) args
    | none => pure ()
    return v

/-- A new instance of a script class. -/
def instantiate (id : ClassId) (args : List Value) : Script Value :=
  instantiateBy again (bakedValues again) id args

/-! ### All values -/

/-- Calls a value. -/
def callValue (callee : Value) (args : List Value) : Script Value :=
  match callee with
  | .function id => callFunction again id none args
  | .native id => callNative again id args
  | .boundMethod receiver method => callFunction again method (some receiver.value) args
  | .scriptClass id => instantiate again id args
  | .hostClass id => do return .host (← HostRun.toScript (Host.construct id args))
  | .hostMethod target name => Host.callHostMethod again target name args
  | v => Script.fail (.notCallable v.typeName)

end ScriptEngine.Evaluation
