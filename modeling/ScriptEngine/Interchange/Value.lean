import ScriptEngine.Fault
import ScriptEngine.Interchange.Node
import ScriptEngine.Value.Text
/-!
# Values as interchange data

* `Heap.toNode` : a value as data (`to_json`). Lists and objects inside themselves have no such
  form; host objects become their descriptions and callables a mark.
* `Heap.ofNode` : data as a value, made of new lists and objects (`from_json`). Of members of one
  name the last counts, at the place of the first.
-/

namespace ScriptEngine

open Interchange

/-- What stands for values that are neither data nor host objects. -/
def callableMark : String := "<Callable>"

/-- A value as data, inside the lists and objects on `path`. -/
def Heap.toNodeWithin (h : Heap) :
    (levels : Nat) → (path : List Value) → Value → Except RuntimeError Node
  | 0, _, _ => .error (.refused .selfContaining)
  | levels + 1, path, v =>
    if path.contains v then .error (.refused .selfContaining) else
      match v with
      | .null => .ok .null
      | .bool b => .ok (.bool b)
      | .number n => .ok (.number n)
      | .float f => .ok (.number (Number.widen f))
      | .string s => .ok (.string s)
      | .list id => do
        let items ← (h.list id).toList.mapM (toNodeWithin h levels (v :: path))
        return .array items
      | .object id => do
        let members ← (h.object id).fields.mapM fun (name, field) => do
          return (name, ← toNodeWithin h levels (v :: path) field)
        return .object members
      | .host id => .ok (.string (h.describe id))
      | _ => .ok (.string callableMark)

/-- A value as data. -/
def Heap.toNode (h : Heap) (v : Value) : Except RuntimeError Node :=
  h.toNodeWithin (h.containers + 1) [] v

mutual

/-- Data as a value. -/
def Heap.ofNode (h : Heap) : Node → Value × Heap
  | .null => (.null, h)
  | .bool b => (.bool b, h)
  | .number x => (.number x, h)
  | .string s => (.string s, h)
  | .array items =>
    let (values, h) := h.ofNodes items
    h.addList values.toArray
  | .object members =>
    let (fields, h) := h.ofMembers members
    h.addFields (Fields.ofPairs fields)

/-- Items as values. -/
def Heap.ofNodes (h : Heap) : List Node → List Value × Heap
  | [] => ([], h)
  | n :: ns =>
    let (v, h) := h.ofNode n
    let (vs, h) := h.ofNodes ns
    (v :: vs, h)

/-- Members as fields. -/
def Heap.ofMembers (h : Heap) : List (String × Node) → List (String × Value) × Heap
  | [] => ([], h)
  | (name, n) :: ns =>
    let (v, h) := h.ofNode n
    let (vs, h) := h.ofMembers ns
    ((name, v) :: vs, h)

end

end ScriptEngine
