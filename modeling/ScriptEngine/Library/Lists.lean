import ScriptEngine.Library.Arguments
import ScriptEngine.Operators
/-!
# Lists

The functions of the library on lists (`install_lists`). Those that add or remove items change the
list itself and are seen through every reference to it.

* `listPush`, `listPop`, `listShift`, `listUnshift`, `listReverse` : changes. What is taken from an
  empty list is null.
* `listJoin`, `listSlice` : what can be made of a list without changing it.
* `clampIndex` : how positions are counted from the end, and cut off at both ends.
-/

namespace ScriptEngine.Library

/-- Changes the items of a list. -/
def change (id : ListId) (f : Array Value → Array Value) : Script Unit := Run.update fun w =>
  { w with heap := w.heap.changeList id f }

/-- The number of items of a list as a value. -/
def sizeOf (id : ListId) : Script Value :=
  Script.heap fun h => .number (Float.ofNat (h.list id).size)

/-- Adds items at the end and answers with the new length. -/
def listPush (args : List Value) : Script Value := do
  let id ← Script.ofExcept (listAt "listPush" args 0)
  change id (· ++ args.tail)
  sizeOf id

/-- Removes the last item and answers with it. -/
def listPop (args : List Value) : Script Value := do
  let id ← Script.ofExcept (listAt "listPop" args 0)
  let last ← Script.heap fun h => (h.list id).back?
  change id Array.pop
  return last.getD .null

/-- Removes the first item and answers with it. -/
def listShift (args : List Value) : Script Value := do
  let id ← Script.ofExcept (listAt "listShift" args 0)
  let first ← Script.heap fun h => (h.list id)[0]?
  change id fun items => items.extract 1 items.size
  return first.getD .null

/-- Adds items at the beginning and answers with the new length. -/
def listUnshift (args : List Value) : Script Value := do
  let id ← Script.ofExcept (listAt "listUnshift" args 0)
  change id (args.tail.toArray ++ ·)
  sizeOf id

/-- The texts of the items with a separator between them. -/
def listJoin (args : List Value) : Script Value := do
  let id ← Script.ofExcept (listAt "listJoin" args 0)
  let separator ← Script.ofExcept (optionalAt stringAt "listJoin" args 1 ",")
  Script.heap fun h => .string (String.intercalate separator ((h.list id).toList.map h.text))

/-- A position among so many items. Negative numbers count from the end, and positions outside
become the nearest end. -/
def clampIndex (length : Nat) (index : Float) : Nat :=
  let i := Number.toInt64 index
  let i := if i < 0 then length + i else i
  (min (max i 0) length).toNat

/-- A new list of the items between two positions. -/
def listSlice (args : List Value) : Script Value := do
  let id ← Script.ofExcept (listAt "listSlice" args 0)
  let items ← Script.heap (·.list id)
  let start ← Script.ofExcept (numberAt "listSlice" args 1)
  let stop ← Script.ofExcept (optionalAt numberAt "listSlice" args 2 Number.infinity)
  Script.newList (items.extract (clampIndex items.size start) (clampIndex items.size stop))

/-- Turns the order of the items around and answers with the list. -/
def listReverse (args : List Value) : Script Value := do
  let id ← Script.ofExcept (listAt "listReverse" args 0)
  change id Array.reverse
  return .list id

end ScriptEngine.Library
