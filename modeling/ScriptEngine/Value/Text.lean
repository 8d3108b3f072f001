import ScriptEngine.Value.Access
/-!
# Values as text

A value has two texts: the one it is converted to, and one with strings in quotes and singles
marked. A list or object inside itself is shown as a mark instead of again.

* `Heap.text`, `Heap.repr` : the two texts (`write`, `write_nested`, `repr`). The containers that
  are being written are kept beside them; there are no more of them than the heap holds, which
  bounds the recursion.
* `Heap.isTruthy` : what counts as true in a test (`is_truthy`).
-/

namespace ScriptEngine.Heap

/-- How a host object is described. -/
def describe (h : Heap) (id : HostId) : String :=
  match h.hostObject id with
  | .extended cls _ object =>
    match (h.object object).cls with
    | some c => "<" ++ h.className c ++ " instance>"
    | none => "<" ++ (h.hostClass cls).name ++ " object>"
  | _ => "<" ++ (h.hostClass (h.classOf id)).name ++ " object>"

/-- How many lists and objects there are; no value nests deeper without containing itself. -/
def containers (h : Heap) : Nat := h.lists.size + h.objects.size

/-- The text of a value inside the containers on `path`. -/
def textWithin (h : Heap) (quoting : Bool) : (levels : Nat) → (path : List Value) → Value → String
  | 0, _, _ => ""
  | levels + 1, path, v =>
    match v with
    | .null => "null"
    | .bool b => if b then "true" else "false"
    | .number n => Number.scriptText n
    | .float f => Number.scriptText32 f ++ if quoting then "f" else ""
    | .string s => if quoting then "\"" ++ s ++ "\"" else s
    | .list id =>
      if path.contains v then "[...]" else
        let items := (h.list id).toList.map (textWithin h quoting levels (v :: path))
        "[" ++ String.intercalate ", " items ++ "]"
    | .object id =>
      let o := h.object id
      match o.cls with
      | some c => "<" ++ h.className c ++ " instance>"
      | none =>
        if path.contains v then "\x7b...\x7d" else
          let fields := o.fields.map fun (name, field) =>
            name ++ ": " ++ textWithin h quoting levels (v :: path) field
          "\x7b" ++ String.intercalate ", " fields ++ "\x7d"
    | .scriptClass id => "<class " ++ h.className id ++ ">"
    | .function id => "<fn " ++ h.functionName id ++ ">"
    | .native id => "<native fn " ++ ((h.native? id).map (·.name)).getD "" ++ ">"
    | .boundMethod _ method => "<method " ++ h.functionName method ++ ">"
    | .hostMethod _ name => "<host method " ++ name ++ ">"
    | .hostClass id => "<host class " ++ (h.hostClass id).name ++ ">"
    | .host id => h.describe id

/-- The text a value is converted to. -/
def text (h : Heap) (v : Value) : String := h.textWithin false (h.containers + 1) [] v

/-- The text of a value with strings in quotes and singles marked. -/
def repr (h : Heap) (v : Value) : String := h.textWithin true (h.containers + 1) [] v

/-- Null, false, zero, the empty string and the empty list do not count as true. -/
def isTruthy (h : Heap) : Value → Bool
  | .null => false
  | .bool b => b
  | .number n => n != 0.0
  | .float f => f != 0.0
  | .string s => !s.isEmpty
  | .list id => !(h.list id).isEmpty
  | _ => true

end ScriptEngine.Heap
