import ScriptEngine.Text.Classes
/-!
# Lines and margins of a text

* `lines` : the lines of a text, a line end being `\n` or `\r\n`; the last line end closes its line
  and opens no further one. The line that an error shows and the lines of an interactive session are
  found this way.
* `trim` : the text without white space at both ends.
-/

namespace ScriptEngine.Text

/-- A line without the carriage return that ends it. -/
def dropReturn (line : List Char) : List Char :=
  if line.getLast? == some '\r' then line.dropLast else line

/-- The lines of a text, `line` being the part of the current one already read, backwards. -/
def linesFrom (line : List Char) : List Char → List (List Char)
  | [] => if line.isEmpty then [] else [line.reverse]
  | '\n' :: cs => dropReturn line.reverse :: linesFrom [] cs
  | c :: cs => linesFrom (c :: line) cs

/-- The lines of a text. A carriage return counts as part of a line end only before `\n`. -/
def lines (s : String) : List String := (linesFrom [] s.toList).map String.ofList

/-- The characters without white space at both ends. -/
def trimChars (cs : List Char) : List Char :=
  ((cs.dropWhile isBlank).reverse.dropWhile isBlank).reverse

/-- The text without white space at both ends. -/
def trim (s : String) : String := String.ofList (trimChars s.toList)

end ScriptEngine.Text
