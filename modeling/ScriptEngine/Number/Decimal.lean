import ScriptEngine.Number.Binary
/-!
# Decimal text of floating-point numbers

Writing takes the fewest digits that read back as the same number and, of those, the nearest to it;
reading rounds the written value once.

* `shortest` : the digits and the power of ten.
* `plainLayout`, `jsonLayout` : where the point stands. The first never uses an exponent; the second
  follows the format of data interchange.
* `plain`, `json` : a number in each of the layouts.
* `scriptText`, `scriptText32` : a number as scripts show it (`format_number`); a whole number of
  single precision keeps its point.
* `ofDecimal` : the number nearest to `digits * 10 ^ exponent`.
* `parse?`, `parse32?` : the general form of a number in text, a sign, an exponent and the words for
  what is not finite among it. Scanners and `parseFloat` of the library give it less than it takes.
-/

namespace ScriptEngine.Number

/-! ### Shortest digits -/

/-- Which of two equally near digit strings is taken. -/
inductive Tie
  | up
  | even
  deriving DecidableEq, Repr

/-- The greatest `e` near `guess` with `10 ^ e ≤ value / unit`. -/
def decimalExponent (value unit : Nat) : Int :=
  let guess : Int := ((value.log2 : Int) - unit.log2) * 30103 / 100000
  let reaches (e : Int) : Bool := match e with
    | .ofNat n => unit * Nat.pow 10 n ≤ value
    | .negSucc n => unit ≤ value * Nat.pow 10 (n + 1)
  if reaches (guess + 1) then guess + 1 else if reaches guess then guess else guess - 1

/-- Looks for a point of the grid `10 ^ exponent` strictly inside `low … high` (at its ends too if
`closed`), on ever finer grids, and takes the nearer of the two around `value`. -/
def searchGrid (tie : Tie) (closed : Bool) (low value high unit : Nat) : Nat → Int → Nat × Int
  | 0, exponent => (0, exponent)
  | grids + 1, exponent =>
    let (scale, step) := match exponent with
      | .ofNat n => (1, unit * Nat.pow 10 n)
      | .negSucc n => (Nat.pow 10 (n + 1), unit)
    let below := value * scale / step
    let inside (c : Nat) : Bool :=
      let at_ := c * step
      (low * scale < at_ || closed && low * scale == at_) &&
        (at_ < high * scale || closed && high * scale == at_)
    let gapBelow := value * scale - below * step
    let gapAbove := (below + 1) * step - value * scale
    let preferBelow := gapBelow < gapAbove ||
      gapBelow == gapAbove && tie == .even && below % 2 == 0
    match below != 0 && inside below, inside (below + 1) with
    | true, true => (if preferBelow then below else below + 1, exponent)
    | true, false => (below, exponent)
    | false, true => (below + 1, exponent)
    | false, false => searchGrid tie closed low value high unit grids (exponent - 1)

/-- The fewest digits, and the power of ten they are multiplied by, that stand for
`significand * 2 ^ exponent` among the numbers of the format. -/
def shortest (f : Format) (tie : Tie) (significand : Nat) (exponent : Int) : Nat × Int :=
  -- everything is counted in quarters of the last place
  let scale := (exponent - 2).toNat
  let unit := Nat.pow 2 (2 - exponent).toNat
  let below := if significand = Nat.pow 2 (f.precision - 1) ∧ f.minExponent < exponent then 1 else 2
  let value := 4 * significand * Nat.pow 2 scale
  let low := (4 * significand - below) * Nat.pow 2 scale
  let high := (4 * significand + 2) * Nat.pow 2 scale
  let (digits, power) :=
    searchGrid tie (significand % 2 == 0) low value high unit 20 (decimalExponent value unit)
  -- the upper neighbour on the first grid may be the next power of ten
  if digits == 10 then (1, power + 1) else (digits, power)

/-! ### Layout -/

/-- A run of zeros. -/
def zeros (n : Nat) : String := String.ofList (List.replicate n '0')

/-- `digits * 10 ^ exponent` with a point and never an exponent. -/
def plainLayout (digits : Nat) (exponent : Int) : String :=
  let text := (Nat.repr digits).toList
  match exponent with
  | .ofNat e => String.ofList text ++ zeros e
  | .negSucc e =>
    let places := e + 1
    if places < text.length then
      let whole := text.length - places
      String.ofList (text.take whole) ++ "." ++ String.ofList (text.drop whole)
    else "0." ++ zeros (places - text.length) ++ String.ofList text

/-- `digits * 10 ^ exponent` as data interchange writes it: with a point inside sixteen places,
with a signed exponent beyond. -/
def jsonLayout (digits : Nat) (exponent : Int) : String :=
  let text := (Nat.repr digits).toList
  let point : Int := text.length + exponent
  if 0 ≤ exponent ∧ point ≤ 16 then plainLayout digits exponent ++ ".0"
  else if -5 < point ∧ point ≤ 16 then plainLayout digits exponent
  else
    let power := (if 0 < point then "e+" else "e") ++ toString (point - 1)
    match text with
    | [d] => d.toString ++ power
    | d :: ds => d.toString ++ "." ++ String.ofList ds ++ power
    | [] => ""

/-- The text of a value of the format, given the digits' layout and the text of zero. -/
def textOf (f : Format) (tie : Tie) (layout : Nat → Int → String) (zero : String) :
    Exact → String
  | .nan => "NaN"
  | .infinite negative => if negative then "-inf" else "inf"
  | .finite negative m e =>
    let magnitude := if m = 0 then zero else
      let (digits, power) := shortest f tie m e
      layout digits power
    if negative then "-" ++ magnitude else magnitude

/-- The plain text of a double: `0.1`, `-0`, `1000000000000000000000`, `NaN`, `inf`. -/
def plain (x : Float) : String := textOf .binary64 .up plainLayout "0" (exact x)

/-- The plain text of a single. -/
def plain32 (x : Float32) : String := textOf .binary32 .up plainLayout "0" (exact32 x)

/-- The text of a finite double in data interchange: `0.1`, `-0.0`, `1e+21`. -/
def json (x : Float) : String := textOf .binary64 .even jsonLayout "0.0" (exact x)

/-- A number as a script writes and shows it: whole numbers below `10 ^ 15` as integers, without
a sign on zero. -/
def scriptText (x : Float) : String :=
  match exact x with
  | .infinite negative => if negative then "-Infinity" else "Infinity"
  | .finite negative m e =>
    let w := wholeMagnitude m e
    if (exact x).isWhole && w < Nat.pow 10 15 then
      if negative && w != 0 then "-" ++ Nat.repr w else Nat.repr w
    else plain x
  | .nan => "NaN"

/-- A single as a script shows it. -/
def scriptText32 (x : Float32) : String :=
  match exact32 x with
  | .infinite negative => if negative then "-Infinity" else "Infinity"
  | _ => plain32 x

/-! ### Reading -/

/-- The magnitude bits of the number nearest to `digits * 10 ^ exponent`. Powers far outside
every format are settled by size alone. -/
def ofDecimal (f : Format) (digits : Nat) (exponent : Int) : Nat :=
  if digits = 0 then 0 else
    let size : Int := (Nat.repr digits).length + exponent
    if 400 < size then f.infinity
    else if size < -400 then 0
    else match exponent with
      | .ofNat e => f.nearest (digits * Nat.pow 10 e) 1
      | .negSucc e => f.nearest digits (Nat.pow 10 (e + 1))

/-- The number that decimal digits spell. -/
def digitsToNat (ds : List Char) : Nat := ds.foldl (fun n d => 10 * n + (d.toNat - 48)) 0

/-- A sign in front, if there is one. -/
def takeSign : List Char → Bool × List Char
  | '-' :: cs => (true, cs)
  | '+' :: cs => (false, cs)
  | cs => (false, cs)

/-- The exponent part of a number: nothing, or `e`, a sign and at least one digit. -/
def exponentPart? : List Char → Option Int
  | [] => some 0
  | c :: cs =>
    if c == 'e' || c == 'E' then
      let (negative, ds) := takeSign cs
      if ds.isEmpty || !ds.all Char.isDigit then none
      else
        let n : Int := digitsToNat ds
        some (if negative then -n else n)
    else none

/-- An unsigned decimal number: digits with at most one point, at least one digit, and perhaps an
exponent. The digits and the power of ten are the result. -/
def decimalPart? (cs : List Char) : Option (Nat × Int) :=
  let whole := cs.takeWhile Char.isDigit
  let rest := cs.dropWhile Char.isDigit
  let (fraction, rest) := match rest with
    | '.' :: rest => (rest.takeWhile Char.isDigit, rest.dropWhile Char.isDigit)
    | rest => ([], rest)
  if whole.isEmpty && fraction.isEmpty then none
  else (exponentPart? rest).map fun e =>
    (digitsToNat (whole ++ fraction), e - fraction.length)

/-- The exact value and sign a text stands for, rounded to a format: a decimal number, or `inf`,
`infinity` or `nan` in any case, with an optional sign. -/
def parseBits? (f : Format) (text : String) : Option Nat :=
  let (negative, cs) := takeSign text.toList
  let sign := if negative then f.signBit else 0
  let word := String.ofList (cs.map Char.toLower)
  if word == "inf" || word == "infinity" then some (f.infinity + sign)
  else if word == "nan" then some (f.infinity + Nat.pow 2 (f.precision - 2))
  else (decimalPart? cs).map fun (digits, exponent) => ofDecimal f digits exponent + sign

/-- The double a text stands for. -/
def parse? (text : String) : Option Float := (parseBits? .binary64 text).map ofBits

/-- The single a text stands for. -/
def parse32? (text : String) : Option Float32 := (parseBits? .binary32 text).map ofBits32

end ScriptEngine.Number
