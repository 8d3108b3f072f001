import ScriptEngine.Interchange.Node
/-!
# Reading interchange data

A text is read from the front; the first problem ends the reading. Problems are placed by bytes, and
a column counts from the last line end.

* `Problem` : what can be wrong, and how it is said.
* `readString`, `readNumber`, `readValue` : the parts of the format. Values nest at most 127 deep.
* `scale` : a number is read from its digits and its power of ten in two roundings, so it may differ
  in its last place from the number that is nearest to the text.
* `read` : a whole text, or the problem and its place.
-/

namespace ScriptEngine.Interchange

/-- What can be wrong with a text. -/
inductive Problem
  | endInValue | endInList | endInObject | endInString
  | expectedValue | expectedWord | expectedColon | expectedListEnd | expectedObjectEnd
  | keyNotString | trailingComma | trailingCharacters
  | invalidNumber | numberOutOfRange
  | invalidEscape | loneSurrogate | unfinishedSurrogate | controlCharacter
  | nestingTooDeep
  deriving DecidableEq, Repr

/-- How a problem is said. -/
def Problem.message : Problem → String
  | endInValue => "EOF while parsing a value"
  | endInList => "EOF while parsing a list"
  | endInObject => "EOF while parsing an object"
  | endInString => "EOF while parsing a string"
  | expectedValue => "expected value"
  | expectedWord => "expected ident"
  | expectedColon => "expected \x60:\x60"
  | expectedListEnd => "expected \x60,\x60 or \x60]\x60"
  | expectedObjectEnd => "expected \x60,\x60 or \x60\x7d\x60"
  | keyNotString => "key must be a string"
  | trailingComma => "trailing comma"
  | trailingCharacters => "trailing characters"
  | invalidNumber => "invalid number"
  | numberOutOfRange => "number out of range"
  | invalidEscape => "invalid escape"
  | loneSurrogate => "lone leading surrogate in hex escape"
  | unfinishedSurrogate => "unexpected end of hex escape"
  | controlCharacter => "control character (\\u0000-\\u001F) found while parsing a string"
  | nestingTooDeep => "recursion limit exceeded"

/-- The characters ahead and how many bytes lie before them. -/
structure Input where
  rest : List Char
  index : Nat

/-- A problem and the number of bytes before its place. -/
abbrev Trouble := Problem × Nat

/-- A reader of things of type `α`. -/
abbrev Reader (α : Type) := StateT Input (Except Trouble) α

/-- Stops where the reader stands. -/
def stop {α : Type} (p : Problem) : Reader α := do throw (p, (← get).index)

/-- Stops behind the next byte, or at the end if there is none. -/
def stopAhead {α : Type} (p : Problem) : Reader α := do
  let input ← get
  throw (p, if input.rest.isEmpty then input.index else input.index + 1)

/-- The bytes of some characters. -/
def byteLength (cs : List Char) : Nat := cs.foldr (fun c n => c.utf8Size + n) 0

/-- The next character, left where it is. -/
def peek? : Reader (Option Char) := do return (← get).rest.head?

/-- Passes over characters while a test holds, and yields them. -/
def takeWhile (p : Char → Bool) : Reader (List Char) := do
  let input ← get
  let taken := input.rest.takeWhile p
  set (Input.mk (input.rest.drop taken.length) (input.index + byteLength taken))
  return taken

/-- Passes over one character. -/
def skip : Reader Unit := modify fun input =>
  match input.rest with
  | [] => input
  | c :: cs => ⟨cs, input.index + c.utf8Size⟩

/-- What the format takes for blank. -/
def isBlank (c : Char) : Bool := c == ' ' || c == '\n' || c == '\t' || c == '\r'

/-- The next character that is not blank, left where it is. -/
def peekToken? : Reader (Option Char) := do
  let _ ← takeWhile isBlank
  peek?

/-- The rest of a word. -/
def readWord (value : Node) : List Char → Reader Node
  | [] => return value
  | c :: cs => do
    match ← peek? with
    | none => stop .endInValue
    | some d =>
      if d == c then
        skip
        readWord value cs
      else stopAhead .expectedWord

/-! ### Strings -/

/-- The value of a hexadecimal digit. -/
def hexDigit? (c : Char) : Option Nat :=
  if c.isDigit then some (c.toNat - 48)
  else if 'a' ≤ c && c ≤ 'f' then some (c.toNat - 87)
  else if 'A' ≤ c && c ≤ 'F' then some (c.toNat - 55)
  else none

/-- The value of four hexadecimal digits. -/
def hexValue? (a b c d : Char) : Option Nat := do
  return (((← hexDigit? a) * 16 + (← hexDigit? b)) * 16 + (← hexDigit? c)) * 16 + (← hexDigit? d)

/-- Whether a unit is the first half of a pair. -/
def isHighHalf (n : Nat) : Bool := 0xD800 ≤ n && n < 0xDC00

/-- Whether a unit is the second half of a pair. -/
def isLowHalf (n : Nat) : Bool := 0xDC00 ≤ n && n < 0xE000

/-- The character of a pair of halves. -/
def joinHalves (high low : Nat) : Char :=
  Char.ofNat (0x10000 + (high - 0xD800) * 0x400 + (low - 0xDC00))

/-- Why fewer than four characters are no escape, when they begin at `index` and end the text. -/
def shortEscape (cs : List Char) (index : Nat) : Trouble :=
  if 4 ≤ byteLength cs then (.invalidEscape, index + 4) else (.endInString, index + byteLength cs)

/-- The character that a letter after a backslash stands for. -/
def simpleEscape? : Char → Option Char
  | '"' => some '"'
  | '\\' => some '\\'
  | '/' => some '/'
  | 'b' => some (Char.ofNat 8)
  | 'f' => some (Char.ofNat 12)
  | 'n' => some '\n'
  | 'r' => some '\r'
  | 't' => some '\t'
  | _ => none

/-- The rest of a string from byte `index` on, where `before` are its characters so far,
backwards. -/
def stringFrom : List Char → (index : Nat) → (before : List Char) → Except Trouble (String × Input)
  | [], i, _ => .error (.endInString, i)
  | '"' :: cs, i, before => .ok (String.ofList before.reverse, ⟨cs, i + 1⟩)
  | ['\\'], i, _ => .error (.endInString, i + 1)
  | '\\' :: 'u' :: a :: b :: c :: d :: cs, i, before =>
    match hexValue? a b c d with
    | none => .error (.invalidEscape, i + 6)
    | some n =>
      if isLowHalf n then .error (.loneSurrogate, i + 6)
      else if !isHighHalf n then stringFrom cs (i + 6) (Char.ofNat n :: before)
      else match cs with
        | '\\' :: 'u' :: a :: b :: c :: d :: cs =>
          match hexValue? a b c d with
          | none => .error (.invalidEscape, i + 12)
          | some m =>
            if isLowHalf m then stringFrom cs (i + 12) (joinHalves n m :: before)
            else .error (.loneSurrogate, i + 12)
        | '\\' :: 'u' :: short => .error (shortEscape short (i + 8))
        | [] => .error (.endInString, i + 6)
        | ['\\'] => .error (.endInString, i + 7)
        | '\\' :: _ => .error (.unfinishedSurrogate, i + 8)
        | _ => .error (.unfinishedSurrogate, i + 7)
  | '\\' :: 'u' :: short, i, _ => .error (shortEscape short (i + 2))
  | '\\' :: c :: cs, i, before =>
    match simpleEscape? c with
    | some e => stringFrom cs (i + 2) (e :: before)
    | none => .error (.invalidEscape, i + 2)
  | c :: cs, i, before =>
    if c.toNat < 0x20 then .error (.controlCharacter, i + 1)
    else stringFrom cs (i + c.utf8Size) (c :: before)

/-- A string after its opening quote. -/
def readString : Reader String := fun input => stringFrom input.rest input.index []

/-! ### Numbers -/

/-- The greatest significand that is kept exactly. -/
def maxSignificand : Nat := Nat.pow 2 64 - 1

/-- The greatest exponent that is kept. -/
def maxExponent : Nat := Nat.pow 2 31 - 1

/-- Adds digits to a number while it stays within `limit`; the digits left over are the rest. -/
def absorb (limit : Nat) (n : Nat) : List Char → Nat × List Char
  | [] => (n, [])
  | d :: ds =>
    let m := n * 10 + (d.toNat - 48)
    if m ≤ limit then absorb limit m ds else (n, d :: ds)

/-- A power of ten up to the greatest a double holds. -/
def powerOfTen (n : Nat) : Float := Number.ofBits (Number.ofDecimal .binary64 1 n)

/-- `x * 10 ^ exponent`, or nothing if it is too large. The scaling is done on doubles, in steps of
at most 308 places. -/
def scale (x : Float) (exponent : Int) : (steps : Nat) → Option Float
  | 0 => some 0.0
  | steps + 1 =>
    match exponent with
    | .ofNat e =>
      if e ≤ 308 then
        let y := x * powerOfTen e
        if y.isInf then none else some y
      else if x == 0.0 then some x
      else none
    | .negSucc e =>
      if e < 308 then some (x / powerOfTen (e + 1))
      else if x == 0.0 then some x
      else scale (x / powerOfTen 308) (exponent + 308) steps

/-- The number with a sign. -/
def signed (negative : Bool) (x : Float) : Float := if negative then -x else x

/-- A number from its parts. -/
def ofParts (negative : Bool) (significand : Nat) (exponent : Int) : Reader Float := do
  match scale (Float.ofNat significand) exponent 4 with
  | some x => return signed negative x
  | none => stop .numberOutOfRange

/-- The exponent part of a number and so the number. -/
def readExponent (negative : Bool) (significand : Nat) (exponent : Int) : Reader Float := do
  skip
  let down ← match ← peek? with
    | some '+' => do
      skip
      pure false
    | some '-' => do
      skip
      pure true
    | _ => pure false
  let start := (← get).index
  let digits ← takeWhile Char.isDigit
  if digits.isEmpty then
    match ← peek? with
    | none => stop .endInValue
    | some _ => stopAhead .invalidNumber
  else
    match absorb maxExponent 0 digits with
    | (e, []) => ofParts negative significand (if down then exponent - e else exponent + e)
    | (_, unread) =>
      if significand != 0 && !down then
        throw (.numberOutOfRange, start + digits.length - unread.length + 1)
      else return signed negative 0.0

/-- The exponent part, if there is one. -/
def readScaled (negative : Bool) (significand : Nat) (exponent : Int) : Reader Float := do
  match ← peek? with
  | some 'e' | some 'E' => readExponent negative significand exponent
  | _ => ofParts negative significand exponent

/-- The digits after a point, and then the exponent part if there is one. -/
def readFraction (negative : Bool) (significand : Nat) (exponent : Int) : Reader Float := do
  skip
  let digits ← takeWhile Char.isDigit
  if digits.isEmpty then
    match ← peek? with
    | none => stopAhead .endInValue
    | some _ => stopAhead .invalidNumber
  else
    let (significand, unread) := absorb maxSignificand significand digits
    readScaled negative significand (exponent - (digits.length - unread.length : Nat))

/-- A number after its sign. -/
def readNumber (negative : Bool) : Reader Float := do
  let start := (← get).index
  let digits ← takeWhile Char.isDigit
  match digits with
  | [] =>
    match ← peek? with
    | none => stop .endInValue
    | some _ => stopAhead .invalidNumber
  | '0' :: _ :: _ => throw (.invalidNumber, start + 2)
  | _ =>
    let (significand, unread) := absorb maxSignificand 0 digits
    match ← peek? with
    | some '.' => readFraction negative significand unread.length
    | some 'e' | some 'E' => readExponent negative significand unread.length
    | _ =>
      if unread.isEmpty then return signed negative (Float.ofNat significand)
      else ofParts negative significand unread.length

/-! ### Values -/

/-- The rest of an array; `first` says that no item was read yet. -/
def readItems (item : Reader Node) : (limit : Nat) → (first : Bool) → Reader (List Node)
  | 0, _ => stop .endInList
  | limit + 1, first => do
    match ← peekToken? with
    | none => stopAhead .endInList
    | some ']' => do
      skip
      return []
    | some c =>
      if first then return (← item) :: (← readItems item limit false)
      else if c != ',' then stopAhead .expectedListEnd
      else
        skip
        match ← peekToken? with
        | none => stopAhead .endInValue
        | some ']' => stopAhead .trailingComma
        | some _ => return (← item) :: (← readItems item limit false)

/-- A member of an object from its opening quote on. -/
def readMember (item : Reader Node) : Reader (String × Node) := do
  skip
  let name ← readString
  match ← peekToken? with
  | none => stopAhead .endInObject
  | some ':' => do
    skip
    return (name, ← item)
  | some _ => stopAhead .expectedColon

/-- The rest of an object; `first` says that no member was read yet. -/
def readMembers (item : Reader Node) :
    (limit : Nat) → (first : Bool) → Reader (List (String × Node))
  | 0, _ => stop .endInObject
  | limit + 1, first => do
    match ← peekToken? with
    | none => stopAhead .endInObject
    | some '}' => do
      skip
      return []
    | some c =>
      if first then
        if c == '"' then return (← readMember item) :: (← readMembers item limit false)
        else stopAhead .keyNotString
      else if c != ',' then stopAhead .expectedObjectEnd
      else
        skip
        match ← peekToken? with
        | none => stopAhead .endInValue
        | some '"' => return (← readMember item) :: (← readMembers item limit false)
        | some '}' => stopAhead .trailingComma
        | some _ => stopAhead .keyNotString

/-- Members in the order of their first appearance, each with its last value. -/
def lastValues (members : List (String × Node)) : List (String × Node) :=
  members.foldl (fun kept (name, n) =>
    if kept.any (·.1 == name) then kept.map fun e => if e.1 == name then (name, n) else e
    else kept ++ [(name, n)]) []

/-- A value that nests less than `depth` deep. -/
def readValue : (depth : Nat) → Reader Node
  | 0 => stop .nestingTooDeep
  | depth + 1 => do
    match ← peekToken? with
    | none => stopAhead .endInValue
    | some 'n' => do
      skip
      readWord .null ['u', 'l', 'l']
    | some 't' => do
      skip
      readWord (.bool true) ['r', 'u', 'e']
    | some 'f' => do
      skip
      readWord (.bool false) ['a', 'l', 's', 'e']
    | some '-' => do
      skip
      return .number (← readNumber true)
    | some '"' => do
      skip
      return .string (← readString)
    | some '[' => do
      if depth = 0 then stopAhead .nestingTooDeep
      else
        skip
        let limit := (← get).rest.length + 1
        return .array (← readItems (readValue depth) limit true)
    | some '{' => do
      if depth = 0 then stopAhead .nestingTooDeep
      else
        skip
        let limit := (← get).rest.length + 1
        return .object (lastValues (← readMembers (readValue depth) limit true))
    | some c =>
      if c.isDigit then return .number (← readNumber false) else stopAhead .expectedValue

/-- How deep values may nest, counted from one below the limit. -/
def maxNesting : Nat := 128

/-- A whole text. -/
def readText : Reader Node := do
  let n ← readValue maxNesting
  match ← peekToken? with
  | none => return n
  | some _ => stopAhead .trailingCharacters

/-- A problem in words with its line and its column in bytes. -/
def placed (text : String) (trouble : Trouble) : String :=
  let before := text.toUTF8.toList.take trouble.2
  let lines := before.count 10
  let column := (before.reverse.takeWhile (· != 10)).length
  trouble.1.message ++ " at line " ++ toString (lines + 1) ++ " column " ++ toString column

/-- The value a text stands for, or what is wrong with it. -/
def read (text : String) : Except String Node :=
  match readText ⟨text.toList, 0⟩ with
  | .ok (n, _) => .ok n
  | .error trouble => .error (placed text trouble)

end ScriptEngine.Interchange
