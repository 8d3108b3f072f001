import ScriptEngine.Run
/-!
# Arguments of native functions

* `Native.checkArity` : whether a native function takes so many arguments (`check_arity`,
  `expected`).
* `numberAt`, `stringAt`, `listAt` : an argument of the kind that is wanted, or the error that names
  the function, the kind and what was given (`number`, `string`, `list`, `type_error`). The
  arguments have been counted before, so one that is not there cannot be asked for; it reads as
  null.
-/

namespace ScriptEngine

namespace Native

/-- Whether the function takes so many arguments. -/
def takes (n : Native) (got : Nat) : Bool :=
  n.least ≤ got && match n.most with
    | some most => got ≤ most
    | none => true

/-- How many arguments the function takes, in words. -/
def expected (n : Native) : String :=
  match n.most with
  | none => "at least " ++ toString n.least
  | some most =>
    if most = n.least then toString most else toString n.least ++ " to " ++ toString most

/-- Refuses a number of arguments that the function does not take. -/
def checkArity (n : Native) (got : Nat) : Except RuntimeError Unit :=
  if n.takes got then .ok () else .error (.wrongArity n.name n.expected got)

end Native

namespace Library

/-- The argument at a position; one that is missing is null. -/
def argumentAt (args : List Value) (i : Nat) : Value := args.getD i .null

/-- An argument that has to be of a kind. -/
def wantedAt {α : Type} (kind : String) (select : Value → Option α) (function : String)
    (args : List Value) (i : Nat) : Except RuntimeError α :=
  let v := argumentAt args i
  match select v with
  | some a => .ok a
  | none => .error (.mismatch (.argument function kind (i + 1) v.typeName))

/-- The number at a position. -/
def numberAt (function : String) (args : List Value) (i : Nat) : Except RuntimeError Float :=
  wantedAt "number" Value.asNumber? function args i

/-- The string at a position. -/
def stringAt (function : String) (args : List Value) (i : Nat) : Except RuntimeError String :=
  wantedAt "string" Value.asString? function args i

/-- The list a value is. -/
def list? : Value → Option ListId
  | .list id => some id
  | _ => none

/-- The list at a position. -/
def listAt (function : String) (args : List Value) (i : Nat) : Except RuntimeError ListId :=
  wantedAt "list" list? function args i

/-- An argument that may be left out. -/
def optionalAt {α : Type} (read : String → List Value → Nat → Except RuntimeError α)
    (function : String) (args : List Value) (i : Nat) (default : α) : Except RuntimeError α :=
  if i < args.length then read function args i else .ok default

end Library

end ScriptEngine
