import ScriptEngine.Host.Dispatch
/-!
# Properties

* `sourceOf`, `readProperty` : a property of any value (`read_property`, `get_property`). On an
  instance a field comes first, then a baked value, then a method. A property that is not there
  reads as null, or is an error where its old value is needed.
* `constantGetter` : the function that reads a baked value when it is called under the name of its
  getter (`constant_getter`).
* `writeProperty`, `writeIndex` : the two ways to change an object (`set_property`, `write_index`);
  a baked value cannot be changed by either.

Properties of host objects are left to the module on host members.
-/

namespace ScriptEngine.Evaluation

variable (again : Calls)

/-- A native function of no arguments that always has the same value. -/
def constantGetter (name : String) (value : Value) : Script Value := Run.change fun w =>
  let (id, heap) := w.heap.addNative ⟨name, 0, some 0, .constant value⟩
  (.native id, { w with heap })

/-- Where a property of an object of the heap comes from. -/
inductive Source
  | value (v : Value)
  | getter (v : Value)
  | missing

/-- A property of an object: a field, a value baked in for it, a value baked in under its name as a
getter, or a method. -/
def sourceOf (h : Heap) (id : ObjectId) (name : String) : Source :=
  let o := h.object id
  match (o.fields.get? name).or (o.baked.get? (accessorName "get" name)) with
  | some v => .value v
  | none =>
    match o.baked.get? name with
    | some v => .getter v
    | none =>
      match o.cls.bind (h.methodOf? · name) with
      | some method => .value (.boundMethod (.object id) method)
      | none => .missing

/-- Reads a property. With `strict`, one that is not there is an error. -/
def readProperty (strict : Bool) (v : Value) (name : String) : Script Value :=
  let missing : Script Value :=
    if strict then Script.refuse (.undefinedProperty name) else pure .null
  match v with
  | .object id => do
    match ← Script.heap (sourceOf · id name) with
    | .value v => return v
    | .getter v => constantGetter name v
    | .missing => missing
  | .string s => if name == "length" then pure (.number (Float.ofNat s.length)) else missing
  | .list id =>
    if name == "length" then do return .number (Float.ofNat (← Script.heap (·.list id)).size)
    else missing
  | .host id => Host.getProperty again id name
  | .hostClass id => Host.getStatic id name
  | v => Script.mismatch (.propertyRead name v.typeName)

/-- Whether an object has a value baked in for a property. -/
def isBaked (h : Heap) (id : ObjectId) (name : String) : Bool :=
  ((h.object id).baked.get? (accessorName "get" name)).isSome

/-- Sets a field of an object unless a value is baked in for it. -/
def setField (id : ObjectId) (name : String) (value : Value) : Script Unit := do
  if ← Script.heap (isBaked · id name) then Script.fail (.readOnlyProperty name)
  else Host.putField id name value

/-- Writes a property. -/
def writeProperty (v : Value) (name : String) (value : Value) : Script Unit :=
  match v with
  | .object id => setField id name value
  | .host id => Host.setProperty again id name value
  | .hostClass _ => Script.fail (.unwritableProperty name)
  | v => Script.mismatch (.propertyWrite name v.typeName)

/-- Writes an item of a list. The place behind the last item adds one. -/
def writeItem (id : ListId) (i : Int) (value : Value) : Script Unit := fun w =>
  let size := (w.heap.list id).size
  let outside : Outcome Fault Unit := .error (.runtime (.indexOutOfBounds i size)) w
  match i with
  | .negSucc _ => outside
  | .ofNat n =>
    if n < size then .ok () { w with heap := w.heap.changeList id (·.setIfInBounds n value) }
    else if n = size then .ok () { w with heap := w.heap.changeList id (·.push value) }
    else outside

/-- Writes a part by index. -/
def writeIndex (v key value : Value) : Script Unit :=
  match v with
  | .list id => do writeItem id (← Operators.listIndex key) value
  | .object id => do setField id (← Script.text key) value
  | v => Script.mismatch (.indexWrite v.typeName)

end ScriptEngine.Evaluation
