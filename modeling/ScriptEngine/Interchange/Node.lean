import ScriptEngine.Number.Decimal
/-!
# Interchange data

The values of the data interchange format and the text they are written as, without any blanks.

* `Node` : null, truth values, numbers, strings, arrays, and objects in the order of their members.
  Names may repeat in what is read.
* `Node.write` : the text. Whole numbers below `10 ^ 15` are written as integers (`json_number`),
  and numbers that are not finite as null.
-/

namespace ScriptEngine.Interchange

/-- The values of the format. -/
inductive Node
  | null
  | bool (b : Bool)
  | number (x : Float)
  | string (s : String)
  | array (items : List Node)
  | object (members : List (String × Node))
  deriving Inhabited

/-- The hexadecimal digits of a small number, two of them. -/
def hexPair (n : Nat) : String :=
  String.ofList [Nat.digitChar (n / 16), Nat.digitChar (n % 16)]

/-- A character inside a string. -/
def escape (c : Char) : String :=
  match c with
  | '"' => "\\\""
  | '\\' => "\\\\"
  | '\n' => "\\n"
  | '\r' => "\\r"
  | '\t' => "\\t"
  | _ =>
    if c.toNat = 8 then "\\b"
    else if c.toNat = 12 then "\\f"
    else if c.toNat < 0x20 then "\\u00" ++ hexPair c.toNat
    else c.toString

/-- A string in its quotes. -/
def writeString (s : String) : String := "\"" ++ String.join (s.toList.map escape) ++ "\""

/-- The text of a number. -/
def writeNumber (x : Float) : String :=
  match Number.exact x with
  | .finite negative m e =>
    let w := Number.wholeMagnitude m e
    if Number.isWhole x && w < Nat.pow 10 15 then
      if negative && w != 0 then "-" ++ Nat.repr w else Nat.repr w
    else Number.json x
  | _ => "null"

mutual

/-- The text of a value. -/
def Node.write : Node → String
  | .null => "null"
  | .bool b => if b then "true" else "false"
  | .number x => writeNumber x
  | .string s => writeString s
  | .array items => "[" ++ String.intercalate "," (writeItems items) ++ "]"
  | .object members => "\x7b" ++ String.intercalate "," (writeMembers members) ++ "\x7d"

/-- The texts of values. -/
def writeItems : List Node → List String
  | [] => []
  | n :: ns => n.write :: writeItems ns

/-- The texts of members. -/
def writeMembers : List (String × Node) → List String
  | [] => []
  | (name, n) :: ns => (writeString name ++ ":" ++ n.write) :: writeMembers ns

end

end ScriptEngine.Interchange
