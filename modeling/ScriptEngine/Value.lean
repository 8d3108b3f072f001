import ScriptEngine.Number.Decimal
/-!
# Values

A value is a constant or refers to something in the heap: two values that refer to the same list or
object share it. Every kind of thing in the heap has identifiers of its own, so sameness is equality
of identifiers.

* `Value` : what an expression evaluates to.
* `HostData` : what the host sees of a value. It tells apart the kinds of numbers that the host has.
* `HostType` : what a parameter or a result of a host method asks for.
* `Fields` : named values in the order in which the names were first set (`get_field`, `set_field`).
* `Value.typeName`, `Value.isCallable`, `Value.asNumber?`, `Value.asIndex?` : questions that need no
  heap (`type_name`, `is_callable`, `as_number`, `as_index`).

Reference counts and locks of shared values are out of scope: one run goes on at a time, and nothing
is ever freed.
-/

namespace ScriptEngine

/-- A scope in the heap. -/
structure ScopeId where
  index : Nat
  deriving DecidableEq, Repr, Inhabited

/-- A list in the heap. -/
structure ListId where
  index : Nat
  deriving DecidableEq, Repr, Inhabited

/-- An object in the heap. -/
structure ObjectId where
  index : Nat
  deriving DecidableEq, Repr, Inhabited

/-- A script function in the heap. -/
structure FunctionId where
  index : Nat
  deriving DecidableEq, Repr, Inhabited

/-- A native function in the heap. -/
structure NativeId where
  index : Nat
  deriving DecidableEq, Repr, Inhabited

/-- A script class in the heap. -/
structure ClassId where
  index : Nat
  deriving DecidableEq, Repr, Inhabited

/-- A host class in the heap. -/
structure HostClassId where
  index : Nat
  deriving DecidableEq, Repr, Inhabited

/-- A host object in the heap. -/
structure HostId where
  index : Nat
  deriving DecidableEq, Repr, Inhabited

/-- What a script method is bound to. -/
inductive Receiver
  | object (id : ObjectId)
  | host (id : HostId)
  deriving DecidableEq, Repr

/-- What a host method is bound to. -/
inductive HostTarget
  | instance (id : HostId)
  | static (id : HostClassId)
  deriving DecidableEq, Repr

/-- The values of the language. -/
inductive Value
  | null
  | bool (b : Bool)
  | number (n : Float)
  | float (f : Float32)
  | string (s : String)
  | list (id : ListId)
  | object (id : ObjectId)
  | scriptClass (id : ClassId)
  | function (id : FunctionId)
  | native (id : NativeId)
  | boundMethod (receiver : Receiver) (method : FunctionId)
  | hostMethod (target : HostTarget) (name : String)
  | hostClass (id : HostClassId)
  | host (id : HostId)
  deriving DecidableEq, Inhabited

/-- The value a method is called on. -/
def Receiver.value : Receiver → Value
  | object id => .object id
  | host id => .host id

namespace Value

/-- The name of the kind of a value. -/
def typeName : Value → String
  | null => "Null"
  | bool _ => "Boolean"
  | number _ => "Number"
  | float _ => "Float"
  | string _ => "String"
  | list _ => "List"
  | object _ => "Object"
  | scriptClass _ => "Class"
  | function _ | native _ | boundMethod .. | hostMethod .. => "Callable"
  | hostClass _ => "HostClass"
  | host _ => "HostObject"

/-- Whether a value can be called. -/
def isCallable : Value → Bool
  | function _ | native _ | boundMethod .. | hostMethod .. | scriptClass _ | hostClass _ => true
  | _ => false

/-- The number a value stands for; singles count exactly. -/
def asNumber? : Value → Option Float
  | number n => some n
  | float f => some (Number.widen f)
  | _ => none

/-- The whole number a value stands for, used for positions and counts. -/
def asIndex? (v : Value) : Option Int :=
  match v.asNumber? with
  | some n => if Number.isWhole n then some (Number.toInt64 n) else none
  | none => none

/-- The text of a string. -/
def asString? : Value → Option String
  | string s => some s
  | _ => none

end Value

/-- The data that crosses to the host. Maps are sorted by their keys. -/
inductive HostData
  | null
  | int (i : Int)
  | long (i : Int)
  | float (f : Float32)
  | double (f : Float)
  | bool (b : Bool)
  | string (s : String)
  | list (items : List HostData)
  | map (entries : List (String × HostData))
  | object (id : HostId)
  | hostClass (id : HostClassId)
  deriving Inhabited

/-- The types that signatures of the host name. -/
inductive HostType
  | any | void | int | long | float | double | bool | string | list | map
  | object (name : String)
  deriving DecidableEq, Repr

namespace HostType

/-- How a type is written. -/
def text : HostType → String
  | any => "any"
  | void => "void"
  | int => "int"
  | long => "long"
  | float => "float"
  | double => "double"
  | bool => "bool"
  | string => "string"
  | list => "list"
  | map => "map"
  | object name => name

/-- The type a name stands for; a name that is not built in is a host class. -/
def ofText (name : String) : HostType :=
  ([any, void, int, long, float, double, bool, string, list, map].find? (·.text == name)).getD
    (object name)

end HostType

namespace HostData

/-- The name of the kind of some data. -/
def typeName : HostData → String
  | null => "null"
  | int _ => "int"
  | long _ => "long"
  | float _ => "float"
  | double _ => "double"
  | bool _ => "bool"
  | string _ => "string"
  | list _ => "list"
  | map _ => "map"
  | object _ => "object"
  | hostClass _ => "class"

/-- The number that data of any of the four numeric kinds stands for. -/
def asNumber? : HostData → Option Float
  | int i | long i => some (Float.ofInt i)
  | float f => some (Number.widen f)
  | double f => some f
  | _ => none

/-- The integer that numeric data truncates to. -/
def asInteger? : HostData → Option Int
  | int i | long i => some i
  | float f => some (Number.toInt64 (Number.widen f))
  | double f => some (Number.toInt64 f)
  | _ => none

end HostData

/-- Fields in the order of their first insertion. -/
abbrev Fields := List (String × Value)

namespace Fields

/-- The value of a field. -/
def get? (fields : Fields) (name : String) : Option Value := fields.lookup name

/-- Sets a field: an old one keeps its place, a new one goes last. -/
def put (name : String) (value : Value) : Fields → Fields
  | [] => [(name, value)]
  | (k, v) :: rest => if k == name then (k, value) :: rest else (k, v) :: put name value rest

/-- The fields that pairs make, one after another. -/
def ofPairs (pairs : List (String × Value)) : Fields :=
  pairs.foldl (fun fields (name, value) => fields.put name value) []

end Fields

end ScriptEngine
