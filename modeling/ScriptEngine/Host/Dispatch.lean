import ScriptEngine.Evaluation.Calls
import ScriptEngine.Host.Table
/-!
# Host members at work

A call on the host's side runs the first overload whose parameters take the arguments. An instance
of a script class that extends a host class answers itself where it can: with a value baked into it,
then with a method of its class, then as its host class does.

* `runBody`, `invokeMethod` : what a host method does (`invoke`). The number of bytes of encoded
  text is a 32-bit integer, so it is wrapped.
* `overrideOr` : the slot of a script class (`slot`): its own method if there is one, and else the
  method of the host class.
* `firstFit`, `firstHostFit` : the overload that takes arguments, given by a script or by the host.
  An overload that does not take them is passed over; an error of the one that runs ends the call
  (`invoke_first`).
* `construct` : a new host object (`construct`).
* `callVirtual`, `readHost` : calls and reads as the host makes them (`call_virtual`, `read_host`).
* `getProperty`, `setProperty`, `getStatic`, `callHostMethod` : the same from a script
  (`get_property`, `set_property`, `get_static`, `call_host_method`, `call_method`). A getter or
  setter of the script class comes before those of the host class.
* `extensionOf` : the host class that a script class becomes (`class_for`, `synthesize`). It is made
  once.
* `extend` : the instance of a script class that extends a host class (`instantiate`,
  `construct_super`).

Out of scope: host objects that are dropped while a script instance still refers to them, and bodies
that are not in the table of `HostBody`. A body comes back to scripts by `Calls.callVirtual` and
`Calls.readHost` alone.
-/

namespace ScriptEngine.Host

variable (again : Calls)

/-! ### Script instances -/

/-- The script object of a script instance. -/
def scriptObject? (h : Heap) (id : HostId) : Option ObjectId :=
  match h.hostObject id with
  | .extended _ _ object => some object
  | _ => none

/-- The method that the class of a script instance has or inherits. -/
def scriptMethod? (h : Heap) (id : HostId) (name : String) : Option FunctionId := do
  h.methodOf? (← (h.object (← scriptObject? h id)).cls) name

/-- The value baked into a script instance under the name of a getter. -/
def baked? (h : Heap) (id : HostId) (getter : String) : Option Value := do
  (h.object (← scriptObject? h id)).baked.get? getter

/-- The value baked into a script instance for a property. -/
def bakedProperty? (h : Heap) (id : HostId) (name : String) : Option Value :=
  baked? h id (accessorName "get" name)

/-- Lets the class of a script instance answer a call of the host. -/
def invokeScript (this : HostId) (name : String) (args : List HostData) (returns : HostType) :
    HostRun HostData := do
  match ← HostRun.heap (scriptMethod? · this name) with
  | none =>
    let cls ← HostRun.heap fun h => (h.hostClass (h.classOf this)).name
    HostRun.fail (.methodNotFound cls name args.length)
  | some method =>
    let values ← Run.collect Run.fromHost args
    let result ← HostRun.ofScript (Evaluation.callFromHost again method (.host this) values)
    if returns == .void then return .null else HostRun.toHost returns result

/-! ### Bodies -/

mutual

/-- Data as the host writes it. -/
def dataText (h : Heap) : HostData → String
  | .null => "null"
  | .int i => toString i ++ "i"
  | .long i => toString i ++ "l"
  | .float f => Number.plain32 f ++ "f"
  | .double x => Number.plain x ++ "d"
  | .bool b => if b then "true" else "false"
  | .string s => "'" ++ s ++ "'"
  | .list items => "[" ++ String.intercalate "," (itemTexts h items) ++ "]"
  | .map entries => "\x7b" ++ String.intercalate "," (entryTexts h entries) ++ "\x7d"
  | .object id => h.describe id
  | .hostClass id => "class " ++ (h.hostClass id).name

/-- Items as the host writes them. -/
def itemTexts (h : Heap) : List HostData → List String
  | [] => []
  | d :: ds => dataText h d :: itemTexts h ds

/-- Entries as the host writes them. -/
def entryTexts (h : Heap) : List (String × HostData) → List String
  | [] => []
  | (k, d) :: ds => (k ++ "=" ++ dataText h d) :: entryTexts h ds

end

/-- Puts data into a slot. -/
def putSlot (name : String) (data : HostData) (slots : List (String × HostData)) :
    List (String × HostData) :=
  (name, data) :: slots.filter (·.1 != name)

/-- Stores data in a slot of the host instance that an object is or holds. -/
def writeSlot (id : HostId) (name : String) (data : HostData) : HostRun Unit := Run.update fun w =>
  let h := w.heap
  let target := h.concrete id
  { w with heap := { h with hostObjects := h.hostObjects.modify target.index fun o =>
      match o with
      | .plain cls slots => .plain cls (putSlot name data slots)
      | o => o } }

/-- What a slot of the host instance holds that an object is or holds. -/
def readSlot (id : HostId) (name : String) : HostRun HostData :=
  HostRun.heap fun h => h.slot (h.concrete id) name

/-- Adds a host object. -/
def newObject (o : HostObject) : HostRun HostId := Run.change fun w =>
  let (id, heap) := w.heap.addHostObject o
  (id, { w with heap })

/-- The bytes of the encoded text that an object is or holds. -/
def bytesOf (id : HostId) : HostRun ByteArray := do
  match ← HostRun.heap fun h => h.hostObject (h.concrete id) with
  | .bytes data => return data
  | _ => HostRun.fail (.wrongReceiver "ByteArray")

/-- One of some bytes. -/
def byteAt (data : ByteArray) (index : Int) : Except HostError HostData :=
  let outside : Except HostError HostData := .error (.failed ("byte index " ++ toString index
    ++ " out of bounds for length " ++ toString data.size))
  match index with
  | .ofNat n => if h : n < data.size then .ok (.int (data[n]).toNat) else outside
  | .negSucc _ => outside

/-- Lets the class of a script instance answer a call of one of its slots if it overrides the slot,
and else the class it extends. -/
def overrideOr (this : HostId) (name : String) (args : List HostData) (returns : HostType)
    (overridden : Bool) (super : HostRun HostData) : HostRun HostData := do
  let extended ← HostRun.heap fun h => (scriptObject? h this).isSome
  if overridden && extended then invokeScript again this name args returns else super

/-- Does what a body says, given the receiver and the arguments. The number of bytes is a 32-bit
integer. -/
def runBody (this : Option HostId) (args : List HostData) : HostBody → HostRun HostData
  | .constant d => pure d
  | .argument i => pure (args.getD i .null)
  | .fail message => HostRun.fail (.failed message)
  | .describe tag => HostRun.heap fun h =>
    .string (tag ++ "(" ++ String.intercalate "," (itemTexts h args) ++ ")")
  | .create cls => do
    let slots := args.mapIdx fun i d => ("arg" ++ toString i, d)
    return .object (← newObject (.plain cls slots))
  | .classHandle cls => pure (.hostClass cls)
  | .readArgument name =>
    match args with
    | .object o :: _ => again.readHost o name
    | _ => pure (.string "nobody")
  | body =>
    match this with
    | none => HostRun.fail (.failed "instance method called without a receiver")
    | some this =>
      match body with
      | .readSlot slot => readSlot this slot
      | .writeSlot slot => do
        writeSlot this slot (args.headD .null)
        return .null
      | .receiver => pure (.object this)
      | .callEach names => do
        let results ← Run.collect (fun name => again.callVirtual this name args) names
        HostRun.heap fun h => .string ("[" ++ String.intercalate "|" (itemTexts h results) ++ "]")
      | .readProperty name => again.readHost this name
      | .byteCount => do return .int (Number.wrapInt32 (← bytesOf this).size)
      | .byteAt => do
        let data ← bytesOf this
        match byteAt data ((args.headD .null).asInteger?.getD (-1)) with
        | .ok d => return d
        | .error e => HostRun.fail e
      | .slot name returns overridden super => do
        let answer : Option Value ←
          if args.isEmpty then HostRun.heap (baked? · this name) else pure none
        match answer with
        | some v => HostRun.toHost returns v
        | none =>
          overrideOr again this name args returns overridden (runBody (some this) args super)
      | _ => pure .null

/-- Runs a method. A method that returns nothing answers null. -/
def invokeMethod (m : HostMethod) (this : Option HostId) (args : List HostData) :
    HostRun HostData := do
  let d ← runBody again this args m.body
  return if m.returns == .void then .null else d

/-- Runs a constructor on arguments that fit its parameters. -/
def runConstructor (c : HostConstructor) (args : List HostData) : HostRun HostId :=
  match c.failure with
  | some message => HostRun.fail (.failed message)
  | none => newObject (.plain c.makes
      ((c.slots.zip args).foldl (fun slots (name, d) => putSlot name d slots) []))

/-! ### Overloads -/

/-- The first of some overloads whose parameters take the arguments, with the arguments fitted. -/
def firstFit {α : Type} (params : α → List HostType) (args : List Value) :
    List α → HostRun (Option (α × List HostData))
  | [] => pure none
  | m :: ms => do
    match ← Run.attempt (HostRun.toHostAll (params m) args) with
    | .ok fitted => return some (m, fitted)
    | .error _ => firstFit params args ms

/-- The first of some overloads whose parameters take the host's arguments, with the arguments
fitted. -/
def firstHostFit (h : Heap) (args : List HostData) :
    List HostMethod → Option (HostMethod × List HostData)
  | [] => none
  | m :: ms =>
    match h.coerceAll m.params args with
    | .ok fitted => some (m, fitted)
    | .error _ => firstHostFit h args ms

/-- The constructors with so many parameters. -/
def constructorsOf (h : Heap) (cls : HostClassId) (arity : Nat) : List HostConstructor :=
  (h.hostClass cls).constructors.filter fun c => c.params.length == arity

/-- A new object of a host class. -/
def construct (cls : HostClassId) (args : List Value) : HostRun HostId := do
  let candidates ← HostRun.heap (constructorsOf · cls args.length)
  match ← firstFit HostConstructor.params args candidates with
  | some (c, fitted) => runConstructor c fitted
  | none => HostRun.fail (.noMatchingConstructor (← HostRun.heap fun h => (h.hostClass cls).name)
      (typeNames args))

/-- Runs the first overload that takes the arguments of a script. -/
def invokeFirst (cls : HostClassId) (name : String) (candidates : List HostMethod)
    (this : Option HostId) (args : List Value) : HostRun Value := do
  if candidates.isEmpty then
    HostRun.fail (.methodNotFound (← HostRun.heap fun h => (h.hostClass cls).name) name args.length)
  else
    match ← firstFit HostMethod.params args candidates with
    | some (m, fitted) => Run.fromHost (← invokeMethod again m this fitted)
    | none => HostRun.fail (.noMatchingOverload name (typeNames args))

/-! ### As the host does -/

/-- Calls a method of an object. A value baked into a script instance answers first, and a method
that only the script class has answers last. -/
def callVirtual (this : HostId) (name : String) (args : List HostData) : HostRun HostData := do
  let answer : Option Value ← if args.isEmpty then HostRun.heap (baked? · this name) else pure none
  match answer with
  | some v => HostRun.toHost .any v
  | none =>
    let cls ← HostRun.heap (·.classOf this)
    let candidates ← HostRun.heap (·.methodsNamed cls name args.length false)
    match ← HostRun.heap (firstHostFit · args candidates) with
    | some (m, fitted) => invokeMethod again m (some this) fitted
    | none =>
      if (← HostRun.heap (scriptMethod? · this name)).isSome then
        invokeScript again this name args .any
      else if candidates.isEmpty then
        HostRun.fail (.methodNotFound (← HostRun.heap fun h => (h.hostClass cls).name) name
          args.length)
      else
        HostRun.fail (.noMatchingOverload name
          (String.intercalate ", " (args.map HostData.typeName)))

/-- The getter of a property among the methods of a class. -/
def getter? (h : Heap) (cls : HostClassId) (name : String) : Option HostMethod :=
  (getterNames name).findSome? fun getter => (h.methodsNamed cls getter 0 false).head?

/-- The slot that an instance field reads. -/
def fieldSlot? (h : Heap) (cls : HostClassId) (name : String) : Option String := do
  match (← h.findField? cls name false).access with
  | .slot slot _ => some slot
  | .static _ => none

/-- Reads a property of an object. -/
def readHost (this : HostId) (name : String) : HostRun HostData := do
  match ← HostRun.heap (bakedProperty? · this name) with
  | some v => HostRun.toHost .any v
  | none =>
    let cls ← HostRun.heap (·.classOf this)
    match ← HostRun.heap (getter? · cls name) with
    | some m => invokeMethod again m (some this) []
    | none =>
      match ← HostRun.heap (fieldSlot? · cls name) with
      | some slot => readSlot this slot
      | none =>
        let field ← HostRun.heap fun h => do
          (h.object (← scriptObject? h this)).fields.get? name
        match field with
        | some v => HostRun.toHost .any v
        | none => return .null

/-! ### From a script -/

/-- What answers the read of a property by a getter. -/
inductive Getter
  | script (method : FunctionId)
  | host (method : HostMethod)

/-- The getter of a property of an object. For each name the script class is asked first. -/
def getterOf? (h : Heap) (this : HostId) (name : String) : Option Getter :=
  (getterNames name).findSome? fun getter =>
    match scriptMethod? h this getter with
    | some f => some (.script f)
    | none => (h.methodsNamed (h.classOf this) getter 0 false).head?.map .host

/-- The value of a property that no getter and no host field answers: a field of the script
object, or a method. -/
def memberOf (h : Heap) (this : HostId) (name : String) : Value :=
  let field := do (h.object (← scriptObject? h this)).fields.get? name
  match field with
  | some v => v
  | none =>
    match scriptMethod? h this name with
    | some f => .boundMethod (.host this) f
    | none =>
      if h.hasMethod (h.classOf this) name false then .hostMethod (.instance this) name else .null

/-- Reads a property of a host object. One that is not there reads as null. -/
def getProperty (this : HostId) (name : String) : Script Value := do
  match ← Script.heap (bakedProperty? · this name) with
  | some v => return v
  | none =>
    match ← Script.heap (getterOf? · this name) with
    | some (.script f) => Evaluation.callFunction again f (some (.host this)) []
    | some (.host m) =>
      HostRun.toScript do Run.fromHost (← invokeMethod again m (some this) [])
    | none =>
      match ← Script.heap fun h => fieldSlot? h (h.classOf this) name with
      | some slot => HostRun.toScript do Run.fromHost (← readSlot this slot)
      | none => Script.heap (memberOf · this name)

/-- A field that can be written: its type and its slot. -/
def writableField? (h : Heap) (cls : HostClassId) (name : String) : Option (HostType × String) := do
  let field ← h.findField? cls name false
  match field.access with
  | .slot slot true => some (field.type, slot)
  | _ => none

/-- Sets a field of an object of the heap. -/
def putField (id : ObjectId) (name : String) (value : Value) : Script Unit :=
  Run.update fun w => { w with heap := w.heap.putField id name value }

/-- Writes a property of a host object that no setter of its script class takes. -/
def setHostProperty (this : HostId) (name : String) (value : Value) : Script Unit := do
  let cls ← Script.heap (·.classOf this)
  let setter := accessorName "set" name
  let candidates ← Script.heap (·.methodsNamed cls setter 1 false)
  match ← HostRun.toScript (firstFit HostMethod.params [value] candidates) with
  | some (m, fitted) => let _ ← HostRun.toScript (invokeMethod again m (some this) fitted)
  | none =>
    match ← Script.heap (writableField? · cls name) with
    | some (type, slot) => HostRun.toScript do writeSlot this slot (← HostRun.toHost type value)
    | none =>
      match ← Script.heap (scriptObject? · this) with
      | some object => putField object name value
      | none =>
        if candidates.isEmpty then Script.fail (.unwritableProperty name)
        else Run.raise (HostError.noMatchingOverload setter value.typeName).toFault

/-- Writes a property of a host object. -/
def setProperty (this : HostId) (name : String) (value : Value) : Script Unit := do
  if (← Script.heap (bakedProperty? · this name)).isSome then Script.fail (.readOnlyProperty name)
  else
    match ← Script.heap (scriptMethod? · this (accessorName "set" name)) with
    | some f => let _ ← Evaluation.callFunction again f (some (.host this)) [value]
    | none => setHostProperty again this name value

/-- Reads a member of a host class: a nested class, a static field or a static method. -/
def getStatic (cls : HostClassId) (name : String) : Script Value := do
  match ← Script.heap (·.findNested? cls name) with
  | some nested => return .hostClass nested
  | none =>
    match ← Script.heap (·.findField? cls name true) with
    | some ⟨_, _, .static d⟩ => Run.fromHost d
    | _ =>
      return if ← Script.heap (·.hasMethod cls name true) then .hostMethod (.static cls) name
        else .null

/-- Calls a method of a host object by name. Values baked into a script instance and its methods
answer before the host class. -/
def callMethod (this : HostId) (name : String) (args : List Value) : Script Value := do
  let answer : Option Value ← if args.isEmpty then Script.heap (baked? · this name) else pure none
  match answer with
  | some v => return v
  | none =>
    match ← Script.heap (scriptMethod? · this name) with
    | some f => Evaluation.callFunction again f (some (.host this)) args
    | none =>
      let cls ← Script.heap (·.classOf this)
      let candidates ← Script.heap (·.methodsNamed cls name args.length false)
      HostRun.toScript (invokeFirst again cls name candidates (some this) args)

/-- Calls a host method that a script holds. -/
def callHostMethod (target : HostTarget) (name : String) (args : List Value) : Script Value :=
  match target with
  | .instance this => callMethod again this name args
  | .static cls => do
    let candidates ← Script.heap (·.methodsNamed cls name args.length true)
    HostRun.toScript (invokeFirst again cls name candidates none args)

/-! ### Script classes that extend host classes -/

/-- The overridable method that a script class offers to the host. -/
def slotOf (h : Heap) (script : ClassId) (m : HostMethod) : HostMethod :=
  { m with
    kind := .virtual
    body := .slot m.name m.returns (h.methodOf? script m.name).isSome m.body }

/-- The table of the host class that a script class becomes. -/
def extensionTable (h : Heap) (script : ClassId) (base : HostClassId) : HostClass where
  name := h.className script ++ "$Proxy"
  superclass := some base
  constructors := (h.hostClass base).constructors
  methods := (h.virtualMethods base).map (slotOf h script)
  fields := []
  nested := []
  equality := none

/-- The host class that a script class becomes. It is made once. -/
def extensionOf (script : ClassId) (base : HostClassId) : HostRun HostClassId := Run.change fun w =>
  match (w.heap.scriptClass? script).bind (·.extension) with
  | some cls => (cls, w)
  | none =>
    let (cls, heap) := w.heap.addHostClass (extensionTable w.heap script base)
    let classes := heap.classes.modify script.index fun c => { c with extension := some cls }
    (cls, { w with heap := { heap with classes } })

/-- The host instance inside a new script instance: from the constructor that takes the arguments,
or else from the one that takes none. -/
def constructBase (cls : HostClassId) (args : List Value) : HostRun HostId := do
  let candidates ← HostRun.heap (constructorsOf · cls args.length)
  match ← firstFit HostConstructor.params args candidates with
  | some (c, fitted) => runConstructor c fitted
  | none =>
    match ← HostRun.heap fun h => (constructorsOf h cls 0).head? with
    | some c => runConstructor c []
    | none => HostRun.fail (.noMatchingConstructor
        (← HostRun.heap fun h => (h.hostClass cls).name) (typeNames args))

/-- A new instance of a script class that extends a host class. -/
def extend (script : ClassId) (base : HostClassId) (object : ObjectId) (args : List Value) :
    HostRun HostId := do
  let cls ← extensionOf script base
  let inner ← constructBase cls args
  newObject (.extended cls inner object)

end ScriptEngine.Host
