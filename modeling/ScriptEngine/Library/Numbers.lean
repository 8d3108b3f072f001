import ScriptEngine.Library.Arguments
/-!
# Numbers

The functions of the library on numbers, and those that read numbers from text (`install_math`,
`install_conversions`).

* `roundHalfUp`, `least`, `greatest` : rounding and extremes. What is not a number is passed over by
  the extremes, and of two zeros the first is kept.
* `parseInteger?` : a whole number in a radix.
* `numericBeginning` : the number at the beginning of a text (`float_prefix`).
* `toNumber` : the number a value is converted to.
-/

namespace ScriptEngine.Library

/-- The nearest whole number; a half goes up. -/
def roundHalfUp (x : Float) : Float := (x + 0.5).floor

/-- The least of some numbers; those that are not numbers do not count. -/
def least (xs : List Float) : Float := xs.foldl (fun m x => if x < m then x else m) Number.infinity

/-- The greatest of some numbers; those that are not numbers do not count. -/
def greatest (xs : List Float) : Float :=
  xs.foldl (fun m x => if m < x then x else m) (-Number.infinity)

/-- A function of one number. -/
def ofNumber (function : String) (f : Float → Float) (args : List Value) :
    Except RuntimeError Value := do
  return .number (f (← numberAt function args 0))

/-- All arguments as numbers. -/
def allNumbers (function : String) (args : List Value) : Except RuntimeError (List Float) :=
  (List.range args.length).mapM (numberAt function args)

/-- A function of any number of numbers. -/
def ofNumbers (function : String) (f : List Float → Float) (args : List Value) :
    Except RuntimeError Value := do
  return .number (f (← allNumbers function args))

/-- A number to the power of another. -/
def power (args : List Value) : Except RuntimeError Value := do
  let x ← numberAt "pow" args 0
  let y ← numberAt "pow" args 1
  return .number (x.pow y)

/-- Whether a value is not a number. -/
def isNotNumber (v : Value) : Bool :=
  match v.asNumber? with
  | some x => x.isNaN
  | none => true

/-- Whether a value is a finite number. -/
def isFiniteNumber (v : Value) : Bool :=
  match v.asNumber? with
  | some x => x.isFinite
  | none => false

/-! ### Numbers from text -/

/-- The value of a digit in a radix of at most 36. -/
def digitValue? (radix : Nat) (c : Char) : Option Nat :=
  let value :=
    if c.isDigit then some (c.toNat - '0'.toNat)
    else if c.isLower then some (c.toNat - 'a'.toNat + 10)
    else if c.isUpper then some (c.toNat - 'A'.toNat + 10)
    else none
  value.filter (· < radix)

/-- The number that digits make after `n`. -/
def digitsValue? (radix : Nat) (cs : List Char) : Option Nat :=
  cs.foldlM (fun n c => (digitValue? radix c).map (n * radix + ·)) 0

/-- A whole number of 64 bits with an optional sign. -/
def parseInteger? (radix : Nat) (cs : List Char) : Option Int := do
  let (negative, digits) := Number.takeSign cs
  if digits.isEmpty then none else
    let n ← digitsValue? radix digits
    let i : Int := if negative then -n else n
    if Number.minInt64 ≤ i && i ≤ Number.maxInt64 then some i else none

/-- The greatest radix that a number can be converted to. -/
def maxRadix : Int := 4294967295

/-- The whole number a text stands for in a radix between 2 and 36. -/
def parseInt (args : List Value) : Except RuntimeError Value := do
  let text ← stringAt "parseInt" args 0
  let radix ← optionalAt numberAt "parseInt" args 1 10.0
  let radix := ((Number.exact radix).toInt 0 maxRadix).toNat
  if radix < 2 || 36 < radix then throw (.refused (.radix radix)) else
    match parseInteger? radix (Text.trimChars text.toList) with
    | some i => return .number (Float.ofInt i)
    | none => return .number Number.notANumber

/-- Whether a character can be part of a number at the beginning of a text. -/
def isNumeric (c : Char) : Bool :=
  c.isDigit || c == '+' || c == '-' || c == '.' || c == 'e' || c == 'E'

/-- The number that the longest beginning of no more than `length` characters stands for. -/
def longestNumber? (cs : List Char) : (length : Nat) → Option Float
  | 0 => none
  | length + 1 =>
    match Number.parse? (String.ofList (cs.take (length + 1))) with
    | some x => some x
    | none => longestNumber? cs length

/-- The number at the beginning of a text without white space around it. -/
def numericBeginning (cs : List Char) : Float :=
  let infinite := "Infinity".toList
  if infinite.isPrefixOf cs || ('+' :: infinite).isPrefixOf cs then Number.infinity
  else if ('-' :: infinite).isPrefixOf cs then -Number.infinity
  else
    let candidate := cs.takeWhile isNumeric
    (longestNumber? candidate candidate.length).getD Number.notANumber

/-- The number at the beginning of a text. -/
def parseFloat (args : List Value) : Except RuntimeError Value := do
  return .number (numericBeginning (Text.trimChars (← stringAt "parseFloat" args 0).toList))

/-- The number a value is converted to. -/
def toNumber : Value → Float
  | .number n => n
  | .float f => Number.widen f
  | .string s => (Number.parse? (Text.trim s)).getD Number.notANumber
  | .bool b => if b then 1.0 else 0.0
  | .null => 0.0
  | _ => Number.notANumber

end ScriptEngine.Library
