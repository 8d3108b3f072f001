import ScriptEngine.Toml.Scalar
/-!
# Settings texts

A text is a sequence of lines: entries, headers of tables, and comments. The entries after a header
belong to its table.

* `value` : any item. Arrays and tables in braces nest at most 79 deep.
* `lineEntry`, `header`, `repeatedHeader` : the lines.
* `read` : a text as a table, or the number of the line that is wrong.
-/

namespace ScriptEngine.Toml

/-- Takes a comment. -/
def comment : Reader Unit := do
  mark '#'
  let _ ← run isPlain

/-- Takes blanks, comments and line ends, no more than `limit` of them. -/
def gap : (limit : Nat) → Reader Unit
  | 0 => pure ()
  | limit + 1 =>
    (do
      let _ ← oneOf isBlank
      gap limit) <|> (do
      newline
      gap limit) <|> (do
      comment
      newline
      gap limit) <|> pure ()

/-- Takes all blanks, comments and line ends. -/
def gaps : Reader Unit := do gap (← ahead).length

/-- A key without dots. -/
def simpleKey : Reader String :=
  (do
    let cs ← run fun c => c.isAlphanum || c == '_' || c == '-'
    if cs.isEmpty then failure else return String.ofList cs) <|>
  lineString '"' true <|> lineString '\'' false

/-- The parts of a dotted key after the first one. -/
def moreKeys : (limit : Nat) → Reader (List String)
  | 0 => pure []
  | limit + 1 =>
    (do
      mark '.'
      blanks
      let k ← simpleKey
      blanks
      return k :: (← moreKeys limit)) <|> pure []

/-- How deep arrays and tables in braces may nest, and how many parts a key may have. -/
def maxDepth : Nat := 79

/-- A dotted key, with the blanks around its parts. -/
def dottedKey : Reader (List String) := do
  blanks
  let k ← simpleKey
  blanks
  let ks ← moreKeys (← ahead).length
  if maxDepth < ks.length + 1 then failure else return k :: ks

/-- The items of an array from the first one on, up to its bracket. -/
def arrayItems (item : Reader Item) : (limit : Nat) → Reader (List Item)
  | 0 => failure
  | limit + 1 =>
    (do
      mark ']'
      return []) <|> do
      let v ← item
      gaps
      (do
        mark ','
        gaps
        return v :: (← arrayItems item limit)) <|> do
        mark ']'
        return [v]

/-- An entry: a dotted key and its item. -/
def entry (item : Reader Item) : Reader (List String × Item) := do
  let keys ← dottedKey
  mark '='
  blanks
  return (keys, ← item)

/-- The entries of a table in braces from the first one on, added to those before. -/
def braceEntries (item : Reader Item) : (limit : Nat) → Entries → Reader Entries
  | 0, _ => failure
  | limit + 1, entries => do
    let (keys, v) ← entry item
    blanks
    let entries ← StateT.lift (insert keys v .inline entries)
    (do
      mark ','
      braceEntries item limit entries) <|> do
      mark '}'
      return entries

/-- An item inside no more than `depth` others. -/
def value : (depth : Nat) → Reader Item
  | 0 => failure
  | depth + 1 => do
    match (← ahead).head? with
    | some '"' | some '\'' => return .string (← string)
    | some '[' => do
      if depth = 0 then failure
      mark '['
      gaps
      return .array (← arrayItems (value depth) (← ahead).length)
    | some '{' => do
      if depth = 0 then failure
      mark '{'
      blanks
      (do
        mark '}'
        return .table .inline []) <|> do
        return .table .inline (← braceEntries (value depth) (← ahead).length [])
    | some 't' => do
      word "true"
      return .bool true
    | some 'f' => do
      word "false"
      return .bool false
    | _ => moment <|> float <|> integer

/-! ### Lines -/

/-- Takes what may stand at the end of a line. -/
def lineEnd : Reader Unit := do
  blanks
  let _ ← optionally comment
  if (← ahead).isEmpty then pure () else newline

/-- What a text says so far: its table, and the header that entries belong to. -/
structure Document where
  entries : Entries
  header : List String

/-- The header of a table. -/
def header (d : Document) : Reader Document := do
  mark '['
  let keys ← dottedKey
  mark ']'
  lineEnd
  return ⟨← StateT.lift (openTable keys d.entries), keys⟩

/-- The header of one of several tables. -/
def repeatedHeader (d : Document) : Reader Document := do
  word "[["
  let keys ← dottedKey
  word "]]"
  lineEnd
  return ⟨← StateT.lift (openElement keys d.entries), keys⟩

/-- An entry on a line of its own. -/
def lineEntry (d : Document) : Reader Document := do
  let (keys, v) ← entry (value (maxDepth + 1))
  lineEnd
  return { d with entries := ← StateT.lift (insertIn d.header keys v d.entries) }

/-- A line that may say something. -/
def line (d : Document) : Reader Document := do
  blanks
  match ← ahead with
  | '[' :: '[' :: _ => repeatedHeader d
  | '[' :: _ => header d
  | [] => return d
  | '#' :: _ | '\n' :: _ | '\r' :: _ => do
    lineEnd
    return d
  | _ => lineEntry d

/-- What a text says, given what it said before the characters ahead. The error is the number of
characters ahead at the line that is wrong. -/
def readFrom (d : Document) : (limit : Nat) → List Char → Except Nat Document
  | 0, _ => .ok d
  | limit + 1, cs =>
    if cs.isEmpty then .ok d else
      match line d cs with
      | some (d, rest) => readFrom d limit rest
      | none => .error cs.length

/-- The text without the mark of its encoding. -/
def dropMark : List Char → List Char
  | [] => []
  | c :: cs => if c.toNat = 0xfeff then cs else c :: cs

/-- The table a text describes, or the number of the line that is wrong. -/
def read (text : String) : Except Nat Entries :=
  let cs := dropMark text.toList
  match readFrom ⟨[], []⟩ (cs.length + 1) cs with
  | .ok d => .ok d.entries
  | .error left => .error ((cs.take (cs.length - left)).count '\n' + 1)

end ScriptEngine.Toml
