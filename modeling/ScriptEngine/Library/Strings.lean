import ScriptEngine.Library.Arguments
import ScriptEngine.Operators
import ScriptEngine.Text.Case
import ScriptEngine.Text.Pieces
/-!
# Strings

The functions of the library on strings (`install_strings`). Positions and lengths count characters.

* `ofString`, `ofStrings` : functions that need nothing but their strings.
* `replace`, `split` : every place of a separator, an empty one included.
* `range?` : the part of some items between two positions. It is nothing where the beginning lies
  behind the end.
* `substringRange?`, `substring` : positions are checked against the length as numbers and truncated
  afterwards, so those that are not numbers pass. A text that is then cut out of order ends the run:
  no script sees an answer.
-/

namespace ScriptEngine.Library

/-- A function of one string. -/
def ofString (function : String) (f : String → String) (args : List Value) :
    Except RuntimeError Value := do
  return .string (f (← stringAt function args 0))

/-- A test of two strings as characters. -/
def ofStrings (function : String) (test : List Char → List Char → Bool) (args : List Value) :
    Except RuntimeError Value := do
  let text ← stringAt function args 0
  let part ← stringAt function args 1
  return .bool (test text.toList part.toList)

/-- The text with other text in place of every occurrence of a part. -/
def replace (args : List Value) : Except RuntimeError Value := do
  let text ← stringAt "replace" args 0
  let old ← stringAt "replace" args 1
  let new ← stringAt "replace" args 2
  return .string (String.ofList (Text.replace old.toList new.toList text.toList))

/-- The pieces of a text between delimiters. -/
def split (args : List Value) : Script Value := do
  let text ← Script.ofExcept (stringAt "split" args 0)
  let delimiter ← Script.ofExcept (stringAt "split" args 1)
  let pieces := Text.split delimiter.toList text.toList
  Script.newList (pieces.map fun cs => .string (String.ofList cs)).toArray

/-- The items from a position up to another, if they are in order and inside. -/
def range? {α : Type} (items : List α) (start stop : Nat) : Option (List α) :=
  if start ≤ stop && stop ≤ items.length then some ((items.take stop).drop start) else none

/-- The characters between two numbers, or a refusal if one of them is outside or the first is the
greater one. A number that is not one counts as zero, so there may be nothing to answer. -/
def substringRange? (cs : List Char) (start stop : Float) :
    Except RuntimeError (Option (List Char)) :=
  let length := Float.ofNat cs.length
  if start < 0.0 || length < stop || stop < start then
    .error (.refused (.substringRange start stop cs.length))
  else .ok (range? cs (Number.toWord start) (Number.toWord stop))

/-- The part of a text between two positions; without the second, up to its end. -/
def substring (args : List Value) : Script Value := do
  let text ← Script.ofExcept (stringAt "substring" args 0)
  let start ← Script.ofExcept (numberAt "substring" args 1)
  let stop ← Script.ofExcept
    (optionalAt numberAt "substring" args 2 (Float.ofNat text.toList.length))
  match ← Script.ofExcept (substringRange? text.toList start stop) with
  | some part => return .string (String.ofList part)
  | none => Run.stuck

end ScriptEngine.Library
