import ScriptEngine.Toml.Document
import ScriptEngine.World
/-!
# Settings from text

* `Settings.ofText` : the settings that a text makes (`from_toml_str`). Keys that are not settings
  are left alone, and settings that are not mentioned keep their defaults. A key with an item of the
  wrong kind is an error, and so is a text that is not a table.
-/

namespace ScriptEngine.Settings

open Toml

/-- The count under a key. -/
def countAt (entries : Entries) (key : String) (default : Nat) : Except String Nat :=
  match entries.lookup key with
  | none => .ok default
  | some (.integer (.ofNat n)) => .ok n
  | some _ => .error (key ++ " must be a whole number that is not negative")

/-- The choice under a key. -/
def choiceAt (entries : Entries) (key : String) (default : Bool) : Except String Bool :=
  match entries.lookup key with
  | none => .ok default
  | some (.bool b) => .ok b
  | some _ => .error (key ++ " must be true or false")

/-- The settings in a table. -/
def ofEntries (entries : Entries) : Except String Settings := do
  return {
    maxCallDepth := ← countAt entries "max_call_depth" default.maxCallDepth
    stdlib := ← choiceAt entries "stdlib" default.stdlib
    echoPrint := ← choiceAt entries "echo_print" default.echoPrint }

/-- The settings that a text makes. -/
def ofText (text : String) : Except Fault Settings :=
  match read text with
  | .error n => .error (.ofCause (.settings ("line " ++ toString n ++ " is not understood")))
  | .ok entries =>
    match ofEntries entries with
    | .ok settings => .ok settings
    | .error message => .error (.ofCause (.settings message))

end ScriptEngine.Settings
