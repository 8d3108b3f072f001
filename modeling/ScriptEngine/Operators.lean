import ScriptEngine.Run
import ScriptEngine.Value.Equality
import ScriptEngine.Value.Text
/-!
# Operators

* `binary` : the operators on two values (`binary_op`). Adding to a string appends text, adding
  lists joins them, and multiplying a string or a list by a whole number repeats it.
* `operands`, `arithmetic`, `comparison` : numbers (`numeric_operands`, `arithmetic`). The result is
  of single precision only if both operands are.
* `repeatCount?`, `repetitionFits`, `repeated` : how often something is repeated, and whether the
  memory grants the result (`repeat`). A refusal is an error of the script.
* `unary` : negation of numbers and of truth.
* `readIndex` : the parts of lists, strings and objects (`read_index`). Whether a part that is
  missing is an error or null is up to who reads it. Parts are written in the module on properties.
-/

namespace ScriptEngine

namespace Script

/-- A new list. -/
def newList (items : Array Value) : Script Value := Run.change fun w =>
  let (v, heap) := w.heap.addList items
  (v, { w with heap })

/-- A new plain object. -/
def newObject (fields : Fields) : Script Value := Run.change fun w =>
  let (v, heap) := w.heap.addFields fields
  (v, { w with heap })

/-- Whether a value counts as true. -/
def isTruthy (v : Value) : Script Bool := heap (·.isTruthy v)

/-- The text of a value. -/
def text (v : Value) : Script String := heap (·.text v)

end Script

namespace Operators

/-- The numbers an operator is applied to. -/
def operands (op : BinaryOp) (a b : Value) : Except RuntimeError (Float × Float) :=
  match a.asNumber?, b.asNumber? with
  | some x, some y => .ok (x, y)
  | _, _ => .error (.mismatch (.operands op.text a.typeName b.typeName))

/-- A number that is single precision if both operands were. -/
def likeOperands (a b : Value) (x : Float) : Value :=
  match a, b with
  | .float _, .float _ => .float (Number.narrow x)
  | _, _ => .number x

/-- Arithmetic in double precision. -/
def arithmetic (op : BinaryOp) (f : Float → Float → Float) (a b : Value) :
    Except RuntimeError Value := do
  let (x, y) ← operands op a b
  return likeOperands a b (f x y)

/-- Division or remainder, which zero cannot divide. -/
def division (op : BinaryOp) (f : Float → Float → Float) (a b : Value) :
    Except RuntimeError Value := do
  let (x, y) ← operands op a b
  if y == 0.0 then throw .divisionByZero else return likeOperands a b (f x y)

/-- A comparison of numbers. -/
def comparison (op : BinaryOp) (f : Float → Float → Bool) (a b : Value) :
    Except RuntimeError Value := do
  let (x, y) ← operands op a b
  return .bool (f x y)

/-- The count of a repetition, if `n` is one: a whole number, none being left of a negative one. -/
def repeatCount? (n : Float) : Option Nat :=
  if Number.isWhole n then some (Number.toWord n) else none

/-- Whether a repetition of `size` things fits, each of which takes so many bytes. -/
def repetitionFits (memory : Memory) (size count bytes : Nat) : Bool :=
  size * count ≤ Number.maxWord.toNat && size * count * bytes ≤ memory.limit

/-- A text several times over. -/
def repeatText (memory : Memory) (s : String) (count : Nat) : Except RuntimeError String :=
  if !repetitionFits memory s.utf8ByteSize count 1 then .error (.refused .repetitionTooLarge)
  else if s.isEmpty then .ok ""
  else .ok (Nat.repeat (· ++ s) count "")

/-- Items several times over. -/
def repeatItems (memory : Memory) (items : Array Value) (count : Nat) :
    Except RuntimeError (Array Value) :=
  if !repetitionFits memory items.size count memory.itemBytes then
    .error (.refused .repetitionTooLarge)
  else if items.isEmpty then .ok #[]
  else .ok (Nat.repeat (· ++ items) count #[])

/-- The repetition that multiplying two values asks for, if it does. -/
def repetition? (a b : Value) : Option (Value × Nat) :=
  match a, b with
  | .number n, .string _ | .number n, .list _ => (repeatCount? n).map (b, ·)
  | .string _, .number n | .list _, .number n => (repeatCount? n).map (a, ·)
  | _, _ => none

/-- Repeats a string or a list. -/
def repeated (v : Value) (count : Nat) : Script Value := do
  let memory ← Run.read (·.environment.memory)
  match v with
  | .string s => return .string (← Script.ofExcept (repeatText memory s count))
  | .list id =>
    Script.newList (← Script.ofExcept (repeatItems memory (← Script.heap (·.list id)) count))
  | v => return v

/-- Adds two values. -/
def add (a b : Value) : Script Value :=
  match a, b with
  | .string _, _ | _, .string _ => do return .string ((← Script.text a) ++ (← Script.text b))
  | .list x, .list y => do
    Script.newList ((← Script.heap (·.list x)) ++ (← Script.heap (·.list y)))
  | _, _ => Script.ofExcept (arithmetic .add (· + ·) a b)

/-- Multiplies two values. -/
def multiply (a b : Value) : Script Value :=
  match repetition? a b with
  | some (v, count) => repeated v count
  | none => Script.ofExcept (arithmetic .mul (· * ·) a b)

/-- Applies an operator to two values. -/
def binary (op : BinaryOp) (a b : Value) : Script Value :=
  match op with
  | .add => add a b
  | .mul => multiply a b
  | .sub => Script.ofExcept (arithmetic .sub (· - ·) a b)
  | .div => Script.ofExcept (division .div (· / ·) a b)
  | .mod => Script.ofExcept (division .mod Number.remainder a b)
  | .eq => Script.heap fun h => .bool (h.equal a b)
  | .ne => Script.heap fun h => .bool (!h.equal a b)
  | .lt => Script.ofExcept (comparison .lt (fun x y => x < y) a b)
  | .le => Script.ofExcept (comparison .le (fun x y => x ≤ y) a b)
  | .gt => Script.ofExcept (comparison .gt (fun x y => y < x) a b)
  | .ge => Script.ofExcept (comparison .ge (fun x y => y ≤ x) a b)

/-- Applies an operator to one value. -/
def unary (op : UnaryOp) (v : Value) : Script Value :=
  match op, v with
  | .not, v => do return .bool (!(← Script.isTruthy v))
  | .neg, .number n => pure (.number (-n))
  | .neg, .float f => pure (.float (-f))
  | .neg, v => Script.mismatch (.negation v.typeName)

/-! ### Parts by index -/

/-- The position an index stands for. -/
def listIndex (key : Value) : Script Int :=
  match key.asIndex? with
  | some i => pure i
  | none => do Script.mismatch (.listIndex (← Script.heap (·.repr key)))

/-- The item at a position, if it is inside. -/
def itemAt? {α : Type} (items : Array α) (i : Int) : Option α :=
  match i with
  | .ofNat n => items[n]?
  | .negSucc _ => none

/-- A part that may be missing: missing ones read as null unless `missing` says otherwise. -/
def orMissing (missing : Option RuntimeError) : Option Value → Script Value
  | some v => pure v
  | none => match missing with
    | some e => Script.fail e
    | none => pure .null

/-- Reads a part by index. With `strict`, a missing part is an error. -/
def readIndex (strict : Bool) (v key : Value) : Script Value :=
  match v with
  | .list id => do
    let i ← listIndex key
    let items ← Script.heap (·.list id)
    orMissing (if strict then some (.indexOutOfBounds i items.size) else none) (itemAt? items i)
  | .string s => do
    let i ← listIndex key
    let found := match i with
      | .ofNat n => s.toList[n]?
      | .negSucc _ => none
    orMissing (if strict then some (.indexOutOfBounds i s.length) else none)
      (found.map fun c => .string c.toString)
  | .object id => do
    let name ← Script.text key
    let fields ← Script.heap fun h => (h.object id).fields
    orMissing (if strict then some (.refused (.undefinedProperty name)) else none)
      (fields.get? name)
  | v => Script.mismatch (.indexRead v.typeName)

end Operators

end ScriptEngine
