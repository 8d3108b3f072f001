import ScriptEngine.Fault
import ScriptEngine.Text.Classes
import ScriptEngine.Token
/-!
# From characters to tokens

A token is found at the front of the remaining characters by looking at them alone, so its kind and
its length do not depend on where it stands. Places are computed from the characters passed over: a
scanner says how many characters it takes, and `Position.after` moves over them, one call of
`advance` each.

* `scan` : the token that begins with a given character, and how many further characters it takes
  (`next_token`). Marks of one character come first, then those that a further character may
  lengthen (`match_char`, here `scanPair`).
* `commentLength?` : the end of a comment that may span lines (`scan_block_comment`). Comments do
  not nest.
* `scanString` : a string up to the same quote (`scan_string`). There are no escapes, and it may
  span lines.
* `bodyLength?`, `scanTemplate` : a template up to its quote outside all braces and the strings in
  them (`fstring_ahead`, `scan_fstring`). What the braces hold is read later, from the lexeme.
* `numberLength`, `singleMark`, `scanNumber` : digits, perhaps a point and digits, and the mark of
  single precision if no name goes on behind it (`scan_number`). The text is read by
  `Number.parse?`, and a text that it refuses is an error; `Number.parseBits?_numeral` shows that it
  refuses none.
* `scanName` : a name, or the reserved word that it spells (`scan_identifier`).
* `tokensFrom` : the tokens of a text, comments among them, with an end token at the last place
  (`tokenize`, `skip_whitespace`). The first error ends the reading.
* `tokenizeAt`, `tokenize` : the same for a whole source, placed from a given line (`at_line`).

Out of scope: the texts of errors (`LexicalError.message`), and what is logged while a text is read.
-/

namespace ScriptEngine.Token

/-- The outcome of looking for one token: `more` characters follow the first one. -/
inductive Scan
  | found (kind : Kind) (more : Nat)
  | failed (error : LexicalError) (more : Nat)

/-- Whether a name may begin with `c`. -/
def beginsName (c : Char) : Bool := Text.isLetter c || c == '_'

/-- Whether a name may go on with `c`. -/
def continuesName (c : Char) : Bool := Text.isLetterOrDigit c || c == '_'

/-- Whether `c` opens and closes a string. -/
def isQuote (c : Char) : Bool := c == '"' || c == '\''

/-- The length of a block comment's text through its end. -/
def commentLength? : List Char → Option Nat
  | '*' :: '/' :: _ => some 2
  | _ :: cs => (commentLength? cs).map (· + 1)
  | [] => none

/-- The rest of a string literal after its opening quote. -/
def scanString (quote : Char) (cs : List Char) : Scan :=
  let value := cs.takeWhile (· != quote)
  if value.length < cs.length then .found (.string (String.ofList value)) (value.length + 1)
  else .failed .unterminatedString cs.length

/-- The length of a template's body, up to the quote that closes it. Braces nest, and inside them
a string keeps its quotes: `inner` is the quote of the string the next character lies in. -/
def bodyLength? (quote : Char) : (depth : Nat) → (inner : Option Char) → List Char → Option Nat
  | _, _, [] => none
  | depth, some q, c :: cs =>
    (bodyLength? quote depth (if c = q then none else some q) cs).map (· + 1)
  | depth, none, c :: cs =>
    if c = quote ∧ depth = 0 then some 0
    else if c = '{' then (bodyLength? quote (depth + 1) none cs).map (· + 1)
    else if c = '}' then (bodyLength? quote (depth - 1) none cs).map (· + 1)
    else if isQuote c ∧ 0 < depth then (bodyLength? quote depth (some c) cs).map (· + 1)
    else (bodyLength? quote depth none cs).map (· + 1)

/-- The rest of a template after the letter in front of its opening quote. -/
def scanTemplate (quote : Char) (cs : List Char) : Scan :=
  match bodyLength? quote 0 none cs with
  | some n => .found (.template (String.ofList (cs.take n))) (n + 2)
  | none => .failed .unterminatedTemplate (cs.length + 1)

/-- The digits after a point at the front, if there are any. -/
def fractionDigits : List Char → List Char
  | '.' :: cs => cs.takeWhile Char.isDigit
  | _ => []

/-- Whether a letter that makes a number single precision comes next. -/
def singleMark : List Char → Bool
  | c :: cs => (c == 'f' || c == 'F') && !(cs.head?.map continuesName).getD false
  | [] => false

/-- How many characters of a number follow its first digit, a mark for single precision aside. -/
def numberLength (cs : List Char) : Nat :=
  let whole := cs.takeWhile Char.isDigit
  let fraction := fractionDigits (cs.drop whole.length)
  whole.length + if fraction.isEmpty then 0 else fraction.length + 1

/-- A number: digits, perhaps a point and digits, perhaps a mark for single precision. The text in
front of the mark says its value. -/
def scanNumber (c : Char) (cs : List Char) : Scan :=
  let length := numberLength cs
  let text := String.ofList (c :: cs.take length)
  if singleMark (cs.drop length) then
    match Number.parse32? text with
    | some x => .found (.float x) (length + 1)
    | none => .failed (.invalidNumber text) length
  else
    match Number.parse? text with
    | some x => .found (.number x) length
    | none => .failed (.invalidNumber text) length

/-- A name or a reserved word. -/
def scanName (c : Char) (cs : List Char) : Scan :=
  let more := cs.takeWhile continuesName
  let name := String.ofList (c :: more)
  let kind := match Keyword.ofText? name with
    | some word => Kind.keyword word
    | none => .ident name
  .found kind more.length

/-- A mark that a following character may lengthen. -/
def scanPair (cs : List Char) (short : Symbol) (longer : List (Char × Symbol)) : Scan :=
  match cs.head?.bind fun c => longer.lookup c with
  | some mark => .found (.symbol mark) 1
  | none => .found (.symbol short) 0

/-- The token that begins with `c` and goes on in `cs`. -/
def scan (c : Char) (cs : List Char) : Scan :=
  match c with
  | '(' => .found (.symbol .leftParen) 0
  | ')' => .found (.symbol .rightParen) 0
  | '{' => .found (.symbol .leftBrace) 0
  | '}' => .found (.symbol .rightBrace) 0
  | '[' => .found (.symbol .leftBracket) 0
  | ']' => .found (.symbol .rightBracket) 0
  | ',' => .found (.symbol .comma) 0
  | ';' => .found (.symbol .semicolon) 0
  | ':' => .found (.symbol .colon) 0
  | '.' => .found (.symbol .dot) 0
  | '-' => scanPair cs .minus [('>', .arrow), ('=', .minusAssign)]
  | '+' => scanPair cs .plus [('=', .plusAssign)]
  | '*' => scanPair cs .star [('=', .starAssign)]
  | '%' => scanPair cs .percent [('=', .percentAssign)]
  | '=' => scanPair cs .assign [('=', .equal)]
  | '!' => scanPair cs .not [('=', .notEqual)]
  | '<' => scanPair cs .less [('=', .lessEqual)]
  | '>' => scanPair cs .greater [('=', .greaterEqual)]
  | '/' =>
    match cs with
    | '/' :: rest => .found .comment ((rest.takeWhile (· != '\n')).length + 1)
    | '*' :: rest =>
      match commentLength? rest with
      | some n => .found .comment (n + 1)
      | none => .failed .unterminatedComment cs.length
    | _ => scanPair cs .slash [('=', .slashAssign)]
  | '&' => if cs.head? = some '&' then .found (.symbol .and) 1
    else .failed (.unexpectedCharacter '&') 0
  | '|' => if cs.head? = some '|' then .found (.symbol .or) 1
    else .failed (.unexpectedCharacter '|') 0
  | _ =>
    if isQuote c then scanString c cs
    else if c.isDigit then scanNumber c cs
    else match c, cs with
      | 'f', '"' :: rest => scanTemplate '"' rest
      | 'f', '\'' :: rest => scanTemplate '\'' rest
      | _, _ => if beginsName c then scanName c cs else .failed (.unexpectedCharacter c) 0

/-- The token that covers the first `1 + more` characters, placed at `p`. -/
def ofScan (p : Position) (kind : Kind) (lexeme : List Char) : Token :=
  ⟨kind, p.spanTo (p.after lexeme), String.ofList lexeme⟩

/-- The tokens of the characters after place `p`. White space lies between tokens and the first
error ends the reading. -/
def tokensFrom (p : Position) (cs : List Char) : Except Fault (List Token) :=
  match cs with
  | [] => .ok [ofScan p .eof []]
  | c :: cs =>
    if Text.isBlank c then tokensFrom (p.next c) cs
    else match scan c cs with
      | .failed error more =>
        .error (.placed (.lexical error) (p.spanTo (p.after (c :: cs.take more))))
      | .found kind more => do
        let lexeme := c :: cs.take more
        let rest ← tokensFrom (p.after lexeme) (cs.drop more)
        return ofScan p kind lexeme :: rest
termination_by cs.length
decreasing_by all_goals simp only [List.length_cons, List.length_drop]; omega

/-- The tokens of a source text whose first line has the given number. -/
def tokenizeAt (line : Nat) (source : String) : Except Fault (List Token) :=
  tokensFrom (.atLine line) source.toList

/-- The tokens of a source text. -/
def tokenize (source : String) : Except Fault (List Token) := tokenizeAt 1 source

end ScriptEngine.Token
