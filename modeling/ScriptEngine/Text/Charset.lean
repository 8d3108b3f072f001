/-!
# Encoded text

The encodings that `getBytes` of the library takes, as `encode` writes them. Only encoding is
modelled: no function of the language decodes bytes.

* `Charset` : the encodings, and the names they go by in any case of letters.
* `Charset.encode` : a text as bytes. A character that an encoding of single bytes does not have
  becomes a question mark; 16-bit encodings write a character outside of the first plane as two
  units.
-/

namespace ScriptEngine

/-- The encodings of text. -/
inductive Charset
  | utf8
  /-- In 16-bit units, the high byte first, after a mark that says so. -/
  | utf16
  | utf16BigEndian
  | utf16LittleEndian
  | latin1
  | ascii
  deriving DecidableEq, Repr

namespace Charset

/-- The names of the encodings, in upper case and with hyphens. -/
def names : List (String × Charset) := [
  ("UTF-8", utf8), ("UTF8", utf8), ("UTF-16", utf16), ("UTF-16BE", utf16BigEndian),
  ("UTF-16LE", utf16LittleEndian), ("ISO-8859-1", latin1), ("LATIN1", latin1),
  ("US-ASCII", ascii), ("ASCII", ascii)]

/-- The encoding of a name. Case does not matter, and an underscore stands for a hyphen. -/
def ofName? (name : String) : Option Charset :=
  names.lookup (String.ofList (name.toList.map fun c => if c == '_' then '-' else c.toUpper))

/-- A character as one or two 16-bit units. -/
def units (c : Char) : List Nat :=
  if c.toNat < 0x10000 then [c.toNat]
  else [0xd800 + (c.toNat - 0x10000) / 0x400, 0xdc00 + (c.toNat - 0x10000) % 0x400]

/-- The bytes of a unit, the high one first. -/
def highFirst (unit : Nat) : List UInt8 := [UInt8.ofNat (unit / 256), UInt8.ofNat unit]

/-- The bytes of a unit, the low one first. -/
def lowFirst (unit : Nat) : List UInt8 := [UInt8.ofNat unit, UInt8.ofNat (unit / 256)]

/-- A character as one byte, if it is below `limit`. -/
def singleByte (limit : Nat) (c : Char) : UInt8 :=
  if c.toNat < limit then UInt8.ofNat c.toNat else 63

/-- A text as bytes. -/
def encode (charset : Charset) (text : String) : List UInt8 :=
  match charset with
  | utf8 => text.toUTF8.toList
  | utf16 => 0xfe :: 0xff :: (text.toList.flatMap units).flatMap highFirst
  | utf16BigEndian => (text.toList.flatMap units).flatMap highFirst
  | utf16LittleEndian => (text.toList.flatMap units).flatMap lowFirst
  | latin1 => text.toList.map (singleByte 0x100)
  | ascii => text.toList.map (singleByte 0x80)

end Charset

end ScriptEngine
