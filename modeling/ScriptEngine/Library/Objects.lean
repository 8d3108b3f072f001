import ScriptEngine.Host.Convert
import ScriptEngine.Interchange.Read
import ScriptEngine.Interchange.Value
import ScriptEngine.Library.Arguments
import ScriptEngine.Text.Charset
/-!
# Objects and data

The functions of the library on the fields of objects, on interchange data, and on encoded text
(`install_objects`, `install_json`, `install_bytes`).

* `fieldsOf` : the fields of an object in their order; baked values are not among them (`fields`).
* `jsonParse`, `jsonStringify` : text to values and back.
* `getBytes`, `bytesSize` : a text in an encoding as an object of the host, and how many bytes it
  has.
-/

namespace ScriptEngine.Library

/-- The fields of the object that a function is applied to. -/
def fieldsOf (function : String) (v : Value) : Script Fields :=
  match v with
  | .object id => Script.heap fun h => (h.object id).fields
  | v => Script.mismatch (.subject function "an object" v.typeName)

/-- The names of the fields of an object. -/
def objectKeys (args : List Value) : Script Value := do
  let fields ← fieldsOf "ObjectKeys" (argumentAt args 0)
  Script.newList (fields.map fun (name, _) => .string name).toArray

/-- The values of the fields of an object. -/
def objectValues (args : List Value) : Script Value := do
  let fields ← fieldsOf "ObjectValues" (argumentAt args 0)
  Script.newList (fields.map (·.2)).toArray

/-- Whether an object has a field. -/
def objectHasProperty (args : List Value) : Script Value := do
  let name ← Script.ofExcept (stringAt "ObjectHasProperty" args 1)
  let fields ← fieldsOf "ObjectHasProperty" (argumentAt args 0)
  return .bool (fields.get? name).isSome

/-- The number of characters, items or fields. -/
def length (args : List Value) : Script Value :=
  match argumentAt args 0 with
  | .string s => pure (.number (Float.ofNat s.length))
  | .list id => Script.heap fun h => .number (Float.ofNat (h.list id).size)
  | .object id => Script.heap fun h => .number (Float.ofNat (h.object id).fields.length)
  | v => Script.mismatch (.subject "len" "a string, list or object" v.typeName)

/-! ### Interchange data -/

/-- Reads a list or an object from text. -/
def jsonParse (args : List Value) : Script Value := do
  let text ← Script.ofExcept (stringAt "JSON_parse" args 0)
  match Interchange.read text with
  | .error reason =>
    Run.raise { Fault.runtime (.refused (.invalidJson reason)) with reason := some reason }
  | .ok (.array items) => build (.array items)
  | .ok (.object members) => build (.object members)
  | .ok _ => Script.refuse .jsonRoot
where
  /-- The value of some data. -/
  build (n : Interchange.Node) : Script Value := Run.change fun w =>
    let (v, heap) := w.heap.ofNode n
    (v, { w with heap })

/-- Writes a value as text. -/
def jsonStringify (args : List Value) : Script Value := do
  let n ← Script.ofExcept (← Script.heap (·.toNode (argumentAt args 0)))
  return .string n.write

/-! ### Encoded text -/

/-- A text in an encoding, as a host object. -/
def getBytes (args : List Value) : Script Value := do
  let text ← Script.ofExcept (stringAt "getBytes" args 0)
  let name ← Script.ofExcept (optionalAt stringAt "getBytes" args 1 "UTF-8")
  match Charset.ofName? name with
  | none => Script.refuse (.unsupportedCharset name)
  | some charset => Run.change fun w =>
    let (id, heap) := w.heap.addHostObject (.bytes ⟨(charset.encode text).toArray⟩)
    (.host id, { w with heap })

/-- The bytes a value stands for. -/
def bytes? (h : Heap) : Value → Option ByteArray
  | .host id =>
    match h.hostObject (h.concrete id) with
    | .bytes data => some data
    | _ => none
  | _ => none

/-- The number of bytes of encoded text. -/
def bytesSize (args : List Value) : Script Value := do
  let v := argumentAt args 0
  match ← Script.heap (bytes? · v) with
  | some data => return .number (Float.ofNat data.size)
  | none => Script.mismatch (.subject "bytesSize" "a ByteArray" v.typeName)

end ScriptEngine.Library
