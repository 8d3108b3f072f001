import ScriptEngine.Value
/-!
# Host classes

The host describes its types to scripts by tables: constructors, methods, fields and nested classes.
What a member does is itself described by data, so a table can be looked at and copied.

* `HostBody` : what a method does. A `slot` is the overridable method of a script subclass (`slot`).
* `MethodKind` : methods of instances that a script class may override, those it may not, and
  methods of the class itself (`method`, `final_method`, `static_method`).
* `HostConstructor` : a new object from arguments, which may fail.
* `HostField`, `FieldAccess` : fields of instances and of the class (`field`, `field_rw`,
  `static_field`).
* `HostClass` : the table of one class.
* `HostObject` : an instance, which holds named slots, bytes, or the parts of a script instance.

An embedding program writes members as functions of its own; the bodies here are those that a table
can be told by data. A method can fail, call methods and read properties of objects, and so come
back to scripts. Out of scope are fields and constructors that do as much: a field (`FieldAccess`)
is a slot or fixed data, reading it and writing it (`Host.readSlot`, `Host.writeSlot`) never fails
and never calls back, and a constructor either fails with a fixed message or fills slots. What is
proved of accesses that fail or call back is what is proved of methods, getters and setters among
them.
-/

namespace ScriptEngine

/-- What a host method does with its receiver and its arguments. -/
inductive HostBody
  /-- Answers with fixed data. -/
  | constant (data : HostData)
  /-- Answers with what a slot of the receiver holds. -/
  | readSlot (slot : String)
  /-- Stores the first argument in a slot of the receiver. -/
  | writeSlot (slot : String)
  /-- Answers with a tag and the arguments as text. -/
  | describe (tag : String)
  /-- Answers with an argument. -/
  | argument (position : Nat)
  /-- Answers with the receiver. -/
  | receiver
  /-- Fails. -/
  | fail (message : String)
  /-- Calls methods of the receiver with the same arguments and answers with their results as
  text. -/
  | callEach (names : List String)
  /-- Answers with a property of the receiver. -/
  | readProperty (name : String)
  /-- Answers with a property of the first argument. -/
  | readArgument (name : String)
  /-- Answers with a new object of a class, the arguments in its slots. -/
  | create (cls : HostClassId)
  /-- Answers with a class. -/
  | classHandle (cls : HostClassId)
  /-- Answers with the number of bytes of the receiver. -/
  | byteCount
  /-- Answers with one byte of the receiver. -/
  | byteAt
  /-- Lets the script instance answer: a baked value first, then its own method if `overridden`,
  then the body of the class it extends. -/
  | slot (name : String) (returns : HostType) (overridden : Bool) (super : HostBody)

/-- Whether a method belongs to instances, and whether a script class may override it. -/
inductive MethodKind
  | virtual | final | static
  deriving DecidableEq, Repr

/-- A method of a host class. -/
structure HostMethod where
  name : String
  params : List HostType
  returns : HostType
  kind : MethodKind
  body : HostBody

/-- Whether the method belongs to the class rather than to its instances. -/
def HostMethod.isStatic (m : HostMethod) : Bool := m.kind == .static

/-- A constructor: it makes an object of `makes` and puts each argument in the slot at its place, or
it fails. -/
structure HostConstructor where
  params : List HostType
  makes : HostClassId
  slots : List String
  failure : Option String

/-- How a field is read and written. -/
inductive FieldAccess
  | slot (name : String) (writable : Bool)
  | static (data : HostData)

/-- A field of a host class. -/
structure HostField where
  name : String
  type : HostType
  access : FieldAccess

/-- Whether the field belongs to the class rather than to its instances. -/
def HostField.isStatic (f : HostField) : Bool :=
  match f.access with
  | .static _ => true
  | .slot .. => false

/-- The table of a host class. Two objects whose `equality` slots hold equal data are equal. -/
structure HostClass where
  name : String
  superclass : Option HostClassId
  constructors : List HostConstructor
  methods : List HostMethod
  fields : List HostField
  nested : List HostClassId
  equality : Option String

/-- An object of the host. -/
inductive HostObject
  /-- An object with named slots; a slot that was never set holds null. -/
  | plain (cls : HostClassId) (slots : List (String × HostData))
  /-- Encoded text. -/
  | bytes (data : ByteArray)
  /-- An instance of a script class that extends a host class: the host instance inside it and the
  script object that holds its fields. -/
  | extended (cls : HostClassId) (base : HostId) (object : ObjectId)

end ScriptEngine
