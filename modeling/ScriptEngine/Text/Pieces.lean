/-!
# Cutting text at separators

All functions take text as characters, and a separator that is not empty as its first character and
the others. A separator that is empty lies between any two characters and at both ends; `split` and
`replace` treat it apart.

* `splitAt` : the pieces between the separators, found from the left.
* `replaceAll` : the text with other text in place of every separator.
* `contains` : whether one text lies inside another.
-/

namespace ScriptEngine.Text

/-- Puts a character in front of the first piece. -/
def consFirst (c : Char) : List (List Char) → List (List Char)
  | [] => [[c]]
  | piece :: pieces => (c :: piece) :: pieces

/-- The pieces of a text between separators, which are found from the left and do not overlap. -/
def splitAt (first : Char) (more : List Char) : List Char → List (List Char)
  | [] => [[]]
  | c :: cs =>
    if c == first && more.isPrefixOf cs then [] :: splitAt first more (cs.drop more.length)
    else consFirst c (splitAt first more cs)
termination_by cs => cs.length
decreasing_by all_goals (simp only [List.length_drop, List.length_cons]; omega)

/-- The text with `new` in place of every separator. -/
def replaceAll (first : Char) (more new : List Char) : List Char → List Char
  | [] => []
  | c :: cs =>
    if c == first && more.isPrefixOf cs then
      new ++ replaceAll first more new (cs.drop more.length)
    else c :: replaceAll first more new cs
termination_by cs => cs.length
decreasing_by all_goals (simp only [List.length_drop, List.length_cons]; omega)

/-- The text with `new` around and between its characters. -/
def surround (new : List Char) : List Char → List Char
  | [] => new
  | c :: cs => new ++ c :: surround new cs

/-- The pieces of a text between separators; the empty separator cuts it into characters. -/
def split (sep cs : List Char) : List (List Char) :=
  match sep with
  | [] => cs.map fun c => [c]
  | first :: more => splitAt first more cs

/-- The text with `new` in place of `old`. The empty text lies around and between the characters. -/
def replace (old new cs : List Char) : List Char :=
  match old with
  | [] => surround new cs
  | first :: more => replaceAll first more new cs

/-- Whether `part` lies somewhere inside a text. -/
def contains (part : List Char) : List Char → Bool
  | [] => part.isEmpty
  | c :: cs => part.isPrefixOf (c :: cs) || contains part cs

end ScriptEngine.Text
