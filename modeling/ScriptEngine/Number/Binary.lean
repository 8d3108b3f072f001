/-!
# Binary floating-point numbers as exact values

A floating-point number is read as sign, significand and power of two, and an exact ratio is rounded
to the nearest number of a format, ties going to the even significand.

* `Format` : the two formats of the language, `binary64` and `binary32`.
* `Exact` : what an encoding stands for.
* `Format.decode`, `Format.nearest` : from bits to the exact value, and from a ratio to bits.
* `widen`, `narrow` : between the two formats, narrowing by one rounding.
* `remainder` : the remainder of truncated division, which is always exact.
* `toInt` : truncation to a bounded integer, saturating at its ends and taking what is not a number
  for zero.
* `wrapInt32` : the 32-bit integer with the same last 32 bits, as lengths are given to the host.

Sums, products, quotients and comparisons are those of the floating-point numbers themselves; only
what the language needs beyond them is defined here. The encodings of what is not a number are not
told apart.
-/

namespace ScriptEngine.Number

/-- A binary format: the bits of its encoding and the bits of its significand. -/
structure Format where
  width : Nat
  precision : Nat
  deriving DecidableEq, Repr

namespace Format

/-- Double precision. -/
def binary64 : Format := ⟨64, 53⟩

/-- Single precision. -/
def binary32 : Format := ⟨32, 24⟩

/-- The bits of the exponent field. -/
def exponentBits (f : Format) : Nat := f.width - f.precision

/-- The exponent of the last place of a subnormal number. -/
def minExponent (f : Format) : Int := 3 - (Nat.pow 2 (f.exponentBits - 1) : Nat) - f.precision

/-- The encoding of positive infinity. -/
def infinity (f : Format) : Nat := (Nat.pow 2 f.exponentBits - 1) * Nat.pow 2 (f.precision - 1)

/-- The bit that marks a negative number. -/
def signBit (f : Format) : Nat := Nat.pow 2 (f.width - 1)

end Format

/-- What a floating-point number stands for: a finite one is `significand * 2 ^ exponent`. -/
inductive Exact
  | nan
  | infinite (negative : Bool)
  | finite (negative : Bool) (significand : Nat) (exponent : Int)
  deriving DecidableEq, Repr

namespace Format

/-- The value an encoding stands for. -/
def decode (f : Format) (bits : Nat) : Exact :=
  let fractionBits := f.precision - 1
  let fraction := bits % Nat.pow 2 fractionBits
  let biased := bits / Nat.pow 2 fractionBits % Nat.pow 2 f.exponentBits
  let negative := bits / f.signBit % 2 == 1
  if biased = Nat.pow 2 f.exponentBits - 1 then
    if fraction = 0 then .infinite negative else .nan
  else if biased = 0 then .finite negative fraction f.minExponent
  else .finite negative (fraction + Nat.pow 2 fractionBits) (f.minExponent + (biased - 1 : Nat))

/-- `num / den` to the nearest integer, a tie to the even one. -/
def divideToEven (num den : Nat) : Nat :=
  let q := num / den
  let r := 2 * (num % den)
  if r < den then q else if den < r then q + 1 else q + q % 2

/-- The magnitude bits of the number nearest to `num / den`, infinity when it is too large. -/
def nearest (f : Format) (num den : Nat) : Nat :=
  if num = 0 ∨ den = 0 then 0 else
    -- the power of two at or below the ratio
    let estimate : Int := (num.log2 : Int) - den.log2
    let reached : Bool := match estimate with
      | .ofNat e => den * Nat.pow 2 e ≤ num
      | .negSucc e => den ≤ num * Nat.pow 2 (e + 1)
    let top := if reached then estimate else estimate - 1
    let last := max f.minExponent (top - (f.precision - 1 : Nat))
    let significand := match last with
      | .ofNat e => divideToEven num (den * Nat.pow 2 e)
      | .negSucc e => divideToEven (num * Nat.pow 2 (e + 1)) den
    min f.infinity ((last - f.minExponent).toNat * Nat.pow 2 (f.precision - 1) + significand)

/-- The encoding of `±num / den` after rounding. -/
def encodeRatio (f : Format) (negative : Bool) (num den : Nat) : Nat :=
  f.nearest num den + if negative then f.signBit else 0

/-- The encoding of `±significand * 2 ^ exponent` after rounding. -/
def encode (f : Format) (negative : Bool) (significand : Nat) (exponent : Int) : Nat :=
  match exponent with
  | .ofNat e => f.encodeRatio negative (significand * Nat.pow 2 e) 1
  | .negSucc e => f.encodeRatio negative significand (Nat.pow 2 (e + 1))

end Format

/-- The exact value of a double. -/
def exact (x : Float) : Exact := Format.binary64.decode x.toBits.toNat

/-- The exact value of a single. -/
def exact32 (x : Float32) : Exact := Format.binary32.decode x.toBits.toNat

/-- The double with the given magnitude and sign bits. -/
def ofBits (bits : Nat) : Float := Float.ofBits (UInt64.ofNat bits)

/-- The single with the given magnitude and sign bits. -/
def ofBits32 (bits : Nat) : Float32 := Float32.ofBits (UInt32.ofNat bits)

/-- Not a number. -/
def notANumber : Float := 0.0 / 0.0

/-- Positive infinity. -/
def infinity : Float := 1.0 / 0.0

/-- The double of an exact value, rounded if need be. -/
def Exact.toFloat : Exact → Float
  | .nan => notANumber
  | .infinite negative => if negative then -infinity else infinity
  | .finite negative m e => ofBits (Format.binary64.encode negative m e)

/-- The single of an exact value, rounded if need be. -/
def Exact.toFloat32 : Exact → Float32
  | .nan => 0.0 / 0.0
  | .infinite negative => if negative then -1.0 / 0.0 else 1.0 / 0.0
  | .finite negative m e => ofBits32 (Format.binary32.encode negative m e)

/-- A single as a double, exactly. -/
def widen (x : Float32) : Float := (exact32 x).toFloat

/-- A double rounded to a single. -/
def narrow (x : Float) : Float32 := (exact x).toFloat32

/-- The part of an exact value before the point, its sign dropped. -/
def wholeMagnitude (significand : Nat) (exponent : Int) : Nat :=
  match exponent with
  | .ofNat e => significand * Nat.pow 2 e
  | .negSucc e => significand / Nat.pow 2 (e + 1)

/-- Whether a value is finite and has nothing after the point. -/
def Exact.isWhole : Exact → Bool
  | .finite _ m (.negSucc e) => m % Nat.pow 2 (e + 1) == 0
  | .finite .. => true
  | _ => false

/-- The integer a finite value truncates to. -/
def Exact.truncate? : Exact → Option Int
  | .finite negative m e =>
    let w : Int := wholeMagnitude m e
    some (if negative then -w else w)
  | _ => none

/-- Truncation into `low … high`: values beyond an end become it, and NaN becomes 0. -/
def Exact.toInt (low high : Int) : Exact → Int
  | .nan => 0
  | .infinite negative => if negative then low else high
  | .finite negative m e =>
    let w : Int := wholeMagnitude m e
    max low (min high (if negative then -w else w))

/-- Whether `x` is finite and has nothing after the point. -/
def isWhole (x : Float) : Bool := (exact x).isWhole

/-- The ends of the signed 32-bit integers. -/
def minInt32 : Int := -2147483648
@[inherit_doc minInt32] def maxInt32 : Int := 2147483647

/-- The ends of the signed 64-bit integers. -/
def minInt64 : Int := -9223372036854775808
@[inherit_doc minInt64] def maxInt64 : Int := 9223372036854775807

/-- The signed 32-bit integer with the same last 32 bits. -/
def wrapInt32 (i : Int) : Int := i.bmod (0x100000000)

/-- The greatest unsigned 64-bit integer. -/
def maxWord : Int := 18446744073709551615

/-- `x` truncated to a signed 64-bit integer. -/
def toInt64 (x : Float) : Int := (exact x).toInt minInt64 maxInt64

/-- `x` truncated to an unsigned 64-bit integer. -/
def toWord (x : Float) : Nat := ((exact x).toInt 0 maxWord).toNat

/-- The remainder of `x / y` truncated toward zero. It has the sign of `x` and is exact. -/
def remainder (x y : Float) : Float :=
  match exact x, exact y with
  | .nan, _ | _, .nan | .infinite _, _ => notANumber
  | .finite .., .infinite _ => x
  | .finite negative m e, .finite _ n k =>
    if n = 0 then notANumber else
      let low := min e k
      let rest := m * Nat.pow 2 (e - low).toNat % (n * Nat.pow 2 (k - low).toNat)
      (Exact.finite negative rest low).toFloat

end ScriptEngine.Number
