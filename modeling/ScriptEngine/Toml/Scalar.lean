import ScriptEngine.Number.Decimal
import ScriptEngine.Toml.Item
/-!
# Strings, numbers and dates of settings

A reader takes characters from the front or refuses them.

* `Reader` : readers and the small ones all others are made of.
* `lineString`, `linesString`, `string` : strings with and without escapes; tripled quotes let them
  go over several lines.
* `integer`, `float` : numbers, with underscores between digits.
* `date`, `time`, `moment` : dates and times. Whether they are dates is checked, their value is of
  no use here.
-/

namespace ScriptEngine.Toml

/-- A reader of things of type `α`. -/
abbrev Reader (α : Type) := StateT (List Char) Option α

/-- The characters ahead. -/
def ahead : Reader (List Char) := get

/-- Takes the next character if it is in a class. -/
def oneOf (allowed : Char → Bool) : Reader Char := do
  match ← get with
  | c :: cs => if allowed c then set cs; return c else failure
  | [] => failure

/-- Takes a character. -/
def mark (wanted : Char) : Reader Unit := do
  let _ ← oneOf (· == wanted)

/-- Takes characters that spell a word. -/
def word (wanted : String) : Reader Unit := do
  let cs ← get
  if wanted.toList.isPrefixOf cs then set (cs.drop wanted.length) else failure

/-- Takes the longest run of a class. -/
def run (allowed : Char → Bool) : Reader (List Char) := do
  let cs ← get
  set (cs.dropWhile allowed)
  return cs.takeWhile allowed

/-- Reads something or nothing. -/
def optionally {α : Type} (r : Reader α) : Reader (Option α) := fun cs =>
  match r cs with
  | some (a, rest) => some (some a, rest)
  | none => some (none, cs)

/-- Whether a character is a blank within a line. -/
def isBlank (c : Char) : Bool := c == ' ' || c == '\t'

/-- Takes blanks. -/
def blanks : Reader Unit := do
  let _ ← run isBlank

/-- Takes a line end. -/
def newline : Reader Unit := mark '\n' <|> word "\r\n"

/-- Whether a character may stand in comments and strings. -/
def isPlain (c : Char) : Bool := c == '\t' || (0x20 ≤ c.toNat && c.toNat != 0x7f)

/-! ### Strings -/

/-- The character with a code of so many hexadecimal digits. -/
def codePoint (digits : Nat) : Reader Char := do
  let cs ← get
  let code := cs.take digits
  let value ← code.foldlM (fun n c => (hexValue? c).map (16 * n + ·)) 0
  if code.length = digits && value.isValidChar then
    set (cs.drop digits)
    return Char.ofNat value
  else failure
where
  /-- The value of a hexadecimal digit. -/
  hexValue? (c : Char) : Option Nat :=
    if c.isDigit then some (c.toNat - '0'.toNat)
    else if 'a' ≤ c && c ≤ 'f' then some (c.toNat - 'a'.toNat + 10)
    else if 'A' ≤ c && c ≤ 'F' then some (c.toNat - 'A'.toNat + 10)
    else none

/-- The character that an escape stands for, after its backslash. -/
def escaped : Reader Char := do
  match ← oneOf fun _ => true with
  | 'b' => return Char.ofNat 8
  | 't' => return '\t'
  | 'n' => return '\n'
  | 'f' => return Char.ofNat 12
  | 'r' => return '\r'
  | '"' => return '"'
  | '\\' => return '\\'
  | 'u' => codePoint 4
  | 'U' => codePoint 8
  | _ => failure

/-- The rest of a string up to its quote, with no more than `limit` characters. -/
def lineRest (quote : Char) (escapes : Bool) : (limit : Nat) → Reader (List Char)
  | 0 => failure
  | limit + 1 => do
    let c ← oneOf fun c => isPlain c
    if c == quote then return []
    else if escapes && c == '\\' then return (← escaped) :: (← lineRest quote escapes limit)
    else return c :: (← lineRest quote escapes limit)

/-- Takes a backslash at the end of a line with all the blanks and line ends after it. -/
def lineJoin : Reader Unit := do
  mark '\\'
  blanks
  newline
  let _ ← run fun c => isBlank c || c == '\n' || c == '\r'

/-- The quotes at the end of a string of several lines: up to two belong to the string. -/
def closing (quote : Char) : Reader (List Char) := do
  let cs ← get
  let quotes := (cs.takeWhile (· == quote)).take 5
  if 3 ≤ quotes.length then
    set (cs.drop quotes.length)
    return quotes.drop 3
  else failure

/-- One piece of a string of several lines: a joint, a line end or a character. -/
def linesPiece (escapes : Bool) : Reader (List Char) :=
  (do
    if escapes then lineJoin else failure
    return []) <|>
  (do
    newline
    return ['\n']) <|>
  (do
    let c ← oneOf isPlain
    if escapes && c == '\\' then return [← escaped] else return [c])

/-- The rest of a string of several lines, with no more than `limit` pieces. -/
def linesRest (quote : Char) (escapes : Bool) : (limit : Nat) → Reader (List Char)
  | 0 => failure
  | limit + 1 => closing quote <|> do
    return (← linesPiece escapes) ++ (← linesRest quote escapes limit)

/-- A string in the given quotes on one line. -/
def lineString (quote : Char) (escapes : Bool) : Reader String := do
  mark quote
  return String.ofList (← lineRest quote escapes (← get).length)

/-- A string in tripled quotes. A line end right after the opening quotes does not count. -/
def linesString (quote : Char) (escapes : Bool) : Reader String := do
  word (String.ofList [quote, quote, quote])
  let _ ← optionally newline
  return String.ofList (← linesRest quote escapes ((← get).length + 1))

/-- Any string. -/
def string : Reader String :=
  linesString '"' true <|> linesString '\'' false <|> lineString '"' true <|> lineString '\'' false

/-! ### Numbers -/

/-- Digits after the first one, between which single underscores may stand. -/
def moreDigits (isDigit : Char → Bool) : (limit : Nat) → Reader (List Char)
  | 0 => pure []
  | limit + 1 =>
    (do
      let _ ← optionally (mark '_')
      let d ← oneOf isDigit
      return d :: (← moreDigits isDigit limit)) <|> pure []

/-- At least one digit, between which single underscores may stand. -/
def digits (isDigit : Char → Bool) : Reader (List Char) := do
  let d ← oneOf isDigit
  return d :: (← moreDigits isDigit (← get).length)

/-- A sign, if there is one. -/
def sign : Reader (List Char) :=
  (do return [← oneOf fun c => c == '+' || c == '-']) <|> pure []

/-- A whole number in decimal, without zeros in front. -/
def decimal : Reader (List Char) := do
  let s ← sign
  let whole ← (do
    let d ← oneOf fun c => c.isDigit && c != '0'
    return d :: (← moreDigits Char.isDigit (← get).length)) <|> (do
    mark '0'
    return ['0'])
  return s ++ whole

/-- Whether a character is a digit in a radix of at most 16. -/
def isDigitIn (radix : Nat) (c : Char) : Bool :=
  match codePoint.hexValue? c with
  | some d => d < radix
  | none => false

/-- The value of digits in a radix. -/
def digitsValue (radix : Nat) (ds : List Char) : Nat :=
  ds.foldl (fun n d => radix * n + (codePoint.hexValue? d).getD 0) 0

/-- A whole number in a radix other than ten. -/
def inRadix (beginning : String) (radix : Nat) : Reader Int := do
  word beginning
  return digitsValue radix (← digits (isDigitIn radix))

/-- A whole number in decimal as a number. -/
def decimalValue : Reader Int := do
  let (negative, ds) := Number.takeSign (← decimal)
  let n : Int := digitsValue 10 ds
  return if negative then -n else n

/-- A whole number of 64 bits. -/
def integer : Reader Item := do
  let i ← inRadix "0x" 16 <|> inRadix "0o" 8 <|> inRadix "0b" 2 <|> decimalValue
  if Number.minInt64 ≤ i && i ≤ Number.maxInt64 then return .integer i else failure

/-- The power of ten of a number. -/
def exponent : Reader (List Char) := do
  let e ← oneOf fun c => c == 'e' || c == 'E'
  return e :: ((← sign) ++ (← digits Char.isDigit))

/-- The places after the point of a number, and its power of ten if there is one. -/
def fraction : Reader (List Char) := do
  mark '.'
  let places ← digits Char.isDigit
  return '.' :: (places ++ (← exponent <|> pure []))

/-- Infinity and not a number. -/
def specialFloat : Reader Item := do
  let s ← sign
  (do
    word "inf"
    return .float (if s == ['-'] then -Number.infinity else Number.infinity)) <|> (do
    word "nan"
    return .float Number.notANumber)

/-- A number with a point or a power of ten. One that is too great is refused. -/
def float : Reader Item :=
  (do
    let whole ← decimal
    let rest ← exponent <|> fraction
    match Number.parse? (String.ofList (whole ++ rest)) with
    | some x => if x == Number.infinity then failure else return .float x
    | none => failure) <|> specialFloat

/-! ### Dates and times -/

/-- A number of so many digits within limits. -/
def fixed (places low high : Nat) : Reader Nat := do
  let cs ← get
  let ds := cs.take places
  let n := Number.digitsToNat ds
  if ds.length = places && ds.all Char.isDigit && low ≤ n && n ≤ high then
    set (cs.drop places)
    return n
  else failure

/-- The number of days of a month. -/
def daysIn (year month : Nat) : Nat :=
  if month = 2 then
    if year % 4 = 0 && (year % 100 != 0 || year % 400 = 0) then 29 else 28
  else if month = 4 || month = 6 || month = 9 || month = 11 then 30
  else 31

/-- A date. -/
def date : Reader Unit := do
  let year ← fixed 4 0 9999
  mark '-'
  let month ← fixed 2 1 12
  mark '-'
  let _ ← fixed 2 1 (daysIn year month)

/-- A time of day. -/
def time : Reader Unit := do
  let _ ← fixed 2 0 23
  mark ':'
  let _ ← fixed 2 0 59
  mark ':'
  let _ ← fixed 2 0 60
  let _ ← optionally do
    mark '.'
    let _ ← oneOf Char.isDigit
    run Char.isDigit

/-- How far a time is from the universal one. -/
def offset : Reader Unit := do
  match ← oneOf fun c => c == 'Z' || c == 'z' || c == '+' || c == '-' with
  | 'Z' | 'z' => pure ()
  | _ =>
    let _ ← fixed 2 0 23
    mark ':'
    let _ ← fixed 2 0 59

/-- A date, a time, or both with or without an offset. -/
def moment : Reader Item :=
  (do
    date
    let _ ← optionally do
      let _ ← oneOf fun c => c == 'T' || c == 't' || c == ' '
      time
      optionally offset
    return .moment) <|> (do
    time
    return .moment)

end ScriptEngine.Toml
