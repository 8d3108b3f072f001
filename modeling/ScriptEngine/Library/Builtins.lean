import ScriptEngine.Evaluation.Jobs
import ScriptEngine.Library.Lists
import ScriptEngine.Library.Numbers
import ScriptEngine.Library.Objects
import ScriptEngine.Library.Strings
/-!
# The functions of the library

* `Builtin.signature` : the global name of a function and how many arguments it takes.
* `answer` : what a function does, once its arguments have been counted.
* `runOn` : hands a function or a text to a scheduler (`run_on`).
* `install` : the globals of the library (`install`, `install_core`, `install_math`, …).

Time and chance are parts of the world: `delay` moves the clock on and does not wait, and random
numbers come from a generator whose state the host gives. Which ones come is out of scope.
-/

namespace ScriptEngine

/-- All functions of the library. -/
def Builtin.all : List Builtin := [
  .print, .error, .len, .typeOf, .currentTimeMillis, .delay, .throw, .assert,
  .sqrt, .abs, .floor, .ceil, .round, .isNaN, .isFinite, .random, .pow, .min, .max,
  .parseInt, .parseFloat, .toText, .toNumber, .toBoolean,
  .toUpperCase, .toLowerCase, .trim, .startsWith, .endsWith, .stringContains, .replace, .split,
  .substring,
  .listPush, .listPop, .listShift, .listUnshift, .listJoin, .listSlice, .listReverse,
  .objectKeys, .objectValues, .objectHasProperty,
  .jsonParse, .jsonStringify, .getBytes, .bytesSize, .runOn]

/-- The global name of a function, and the least and the greatest number of its arguments. -/
def Builtin.signature : Builtin → String × Nat × Option Nat
  | print => ("print", 0, none)
  | error => ("error", 0, none)
  | len => ("len", 1, some 1)
  | typeOf => ("typeof", 1, some 1)
  | currentTimeMillis => ("currentTimeMillis", 0, some 0)
  | delay => ("delay", 1, some 1)
  | throw => ("throw", 0, some 1)
  | assert => ("assert", 1, some 2)
  | sqrt => ("sqrt", 1, some 1)
  | abs => ("abs", 1, some 1)
  | floor => ("floor", 1, some 1)
  | ceil => ("ceil", 1, some 1)
  | round => ("round", 1, some 1)
  | isNaN => ("isNaN", 1, some 1)
  | isFinite => ("isFinite", 1, some 1)
  | random => ("random", 0, some 0)
  | pow => ("pow", 2, some 2)
  | min => ("min", 1, none)
  | max => ("max", 1, none)
  | parseInt => ("parseInt", 1, some 2)
  | parseFloat => ("parseFloat", 1, some 1)
  | toText => ("String", 1, some 1)
  | toNumber => ("Number", 1, some 1)
  | toBoolean => ("Boolean", 1, some 1)
  | toUpperCase => ("toUpperCase", 1, some 1)
  | toLowerCase => ("toLowerCase", 1, some 1)
  | trim => ("trim", 1, some 1)
  | startsWith => ("startsWith", 2, some 2)
  | endsWith => ("endsWith", 2, some 2)
  | stringContains => ("stringContains", 2, some 2)
  | replace => ("replace", 3, some 3)
  | split => ("split", 2, some 2)
  | substring => ("substring", 2, some 3)
  | listPush => ("listPush", 2, none)
  | listPop => ("listPop", 1, some 1)
  | listShift => ("listShift", 1, some 1)
  | listUnshift => ("listUnshift", 2, none)
  | listJoin => ("listJoin", 1, some 2)
  | listSlice => ("listSlice", 2, some 3)
  | listReverse => ("listReverse", 1, some 1)
  | objectKeys => ("ObjectKeys", 1, some 1)
  | objectValues => ("ObjectValues", 1, some 1)
  | objectHasProperty => ("ObjectHasProperty", 2, some 2)
  | jsonParse => ("JSON_parse", 1, some 1)
  | jsonStringify => ("JSON_stringify", 1, some 1)
  | getBytes => ("getBytes", 1, some 2)
  | bytesSize => ("bytesSize", 1, some 1)
  | runOn => ("runOn", 2, some 2)

/-- A function of the library as a native function. -/
def Builtin.native (b : Builtin) : Native :=
  let (name, least, most) := b.signature
  ⟨name, least, most, .builtin b⟩

namespace Library

/-! ### Writing, time and failure -/

/-- The texts of the arguments with blanks between them. -/
def joinedText (args : List Value) : Script String :=
  Script.heap fun h => String.intercalate " " (args.map h.text)

/-- Writes a line of the arguments. -/
def writeLine (stream : String → Output) (args : List Value) : Script Value := do
  Evaluation.write (stream (← joinedText args))
  return .null

/-- Waits for so many milliseconds. -/
def delay (args : List Value) : Script Value := do
  let millis := Number.toWord (← Script.ofExcept (numberAt "delay" args 0))
  Run.update fun w => { w with clock := w.clock + Float.ofNat millis }
  return .null

/-- Fails with the text of an argument, or with `default` without it. -/
def throwText (default : String) (args : List Value) (i : Nat) : Script Value := do
  match args[i]? with
  | some v => Script.fail (.thrown (← Script.text v))
  | none => Script.fail (.thrown default)

/-- Fails unless the first argument counts as true. -/
def assertTrue (args : List Value) : Script Value := do
  if ← Script.isTruthy (argumentAt args 0) then return .null
  else throwText "assertion failed" args 1

/-- The next state of the generator of random numbers. -/
def nextSeed (seed : UInt64) : UInt64 := seed * 6364136223846793005 + 1442695040888963407

/-- The number between 0 and 1 that a state of the generator stands for. -/
def randomNumber (seed : UInt64) : Float :=
  Float.ofNat (seed.toNat / Nat.pow 2 11) / Float.ofNat (Nat.pow 2 53)

/-- A random number, at least 0 and below 1. -/
def random : Script Value := Run.change fun w =>
  let seed := nextSeed w.seed
  (.number (randomNumber seed), { w with seed })

/-! ### Scheduling -/

/-- The task that a value stands for: source text, or something to call. -/
def taskOf (v : Value) : Except RuntimeError Task :=
  match v with
  | .string text => .ok (.source text)
  | v =>
    if v.isCallable then .ok (.call v)
    else .error (.mismatch (.subject "runOn" "a function or source text" v.typeName))

/-- Schedules a task in the current scope. -/
def runOn (again : Calls) (args : List Value) : Script Value := do
  let name ← Script.ofExcept (stringAt "runOn" args 0)
  match ← Run.read fun w => w.environment.schedulers.lookup name with
  | none => Script.refuse (.unknownScheduler name)
  | some scheduler =>
    let task ← Script.ofExcept (taskOf (argumentAt args 1))
    Evaluation.schedule again name scheduler ⟨← Script.currentScope, task⟩
    return .null

/-! ### All functions -/

/-- What a function of the library does with its arguments. -/
def answer (again : Calls) (b : Builtin) (args : List Value) : Script Value :=
  match b with
  | .print => writeLine .print args
  | .error => writeLine .error args
  | .len => length args
  | .typeOf => pure (.string (argumentAt args 0).typeName)
  | .currentTimeMillis => Run.read fun w => .number w.clock
  | .delay => delay args
  | .throw => throwText "error" args 0
  | .assert => assertTrue args
  | .sqrt => Script.ofExcept (ofNumber "sqrt" Float.sqrt args)
  | .abs => Script.ofExcept (ofNumber "abs" Float.abs args)
  | .floor => Script.ofExcept (ofNumber "floor" Float.floor args)
  | .ceil => Script.ofExcept (ofNumber "ceil" Float.ceil args)
  | .round => Script.ofExcept (ofNumber "round" roundHalfUp args)
  | .isNaN => pure (.bool (isNotNumber (argumentAt args 0)))
  | .isFinite => pure (.bool (isFiniteNumber (argumentAt args 0)))
  | .random => random
  | .pow => Script.ofExcept (power args)
  | .min => Script.ofExcept (ofNumbers "min" least args)
  | .max => Script.ofExcept (ofNumbers "max" greatest args)
  | .parseInt => Script.ofExcept (parseInt args)
  | .parseFloat => Script.ofExcept (parseFloat args)
  | .toText => do return .string (← Script.text (argumentAt args 0))
  | .toNumber => pure (.number (toNumber (argumentAt args 0)))
  | .toBoolean => do return .bool (← Script.isTruthy (argumentAt args 0))
  | .toUpperCase => Script.ofExcept (ofString "toUpperCase" Text.upperCase args)
  | .toLowerCase => Script.ofExcept (ofString "toLowerCase" Text.lowerCase args)
  | .trim => Script.ofExcept (ofString "trim" Text.trim args)
  | .startsWith => Script.ofExcept (ofStrings "startsWith" (fun s part => part.isPrefixOf s) args)
  | .endsWith => Script.ofExcept (ofStrings "endsWith" (fun s part => part.isSuffixOf s) args)
  | .stringContains =>
    Script.ofExcept (ofStrings "stringContains" (fun s part => Text.contains part s) args)
  | .replace => Script.ofExcept (replace args)
  | .split => split args
  | .substring => substring args
  | .listPush => listPush args
  | .listPop => listPop args
  | .listShift => listShift args
  | .listUnshift => listUnshift args
  | .listJoin => listJoin args
  | .listSlice => listSlice args
  | .listReverse => listReverse args
  | .objectKeys => objectKeys args
  | .objectValues => objectValues args
  | .objectHasProperty => objectHasProperty args
  | .jsonParse => jsonParse args
  | .jsonStringify => jsonStringify args
  | .getBytes => getBytes args
  | .bytesSize => bytesSize args
  | .runOn => runOn again args

/-- But for one, the functions of the library start nothing. -/
theorem answer_same {b : Builtin} (hb : b ≠ .runOn) (again again' : Calls) (args : List Value) :
    answer again b args = answer again' b args := by
  cases b <;> first | rfl | exact absurd rfl hb

/-! ### Installing -/

/-- Binds a global to a new native function. -/
def defineNative (n : Native) : Script Unit := do
  let id ← Run.change fun w =>
    let (id, heap) := w.heap.addNative n
    (id, { w with heap })
  Script.define globalScope n.name (.native id)

/-- The ratio of a circle's circumference to its diameter. -/
def pi : Float := 3.141592653589793

/-- The base of the natural logarithm. -/
def euler : Float := 2.718281828459045

/-- Binds the globals of the library. -/
def install : Script Unit := do
  let _ ← Run.collect (fun b => defineNative (Builtin.native b)) Builtin.all
  Script.define globalScope "PI" (.number pi)
  Script.define globalScope "E" (.number euler)

end Library

end ScriptEngine
