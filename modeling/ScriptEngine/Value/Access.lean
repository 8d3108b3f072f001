import ScriptEngine.World
/-!
# Looking things up in the heap

* `Heap.list`, `Heap.object`, … : the thing with an identifier. One that was never given out reads
  as an empty thing of its kind.
* `Heap.addList`, `Heap.addObject`, … : one more thing, under the next identifier.
* `Heap.methodOf?`, `Heap.hostBase?` : the nearest class of a script class and those it extends that
  has a method, and the host class at the root (`find_method`, `host_base`).
* `Heap.ancestry` : a host class and those it extends, the most derived first (`ancestry`).
* `Heap.innermost`, `Heap.concrete` : the host object inside an instance of a script class (`base`).

Classes are made after those they extend, so every search goes down in identifiers and is bounded by
the one that it begins with.
-/

namespace ScriptEngine.Heap

/-- The items of a list. -/
def list (h : Heap) (id : ListId) : Array Value := h.lists.getD id.index #[]

/-- An object. -/
def object (h : Heap) (id : ObjectId) : Object := h.objects.getD id.index ⟨none, [], []⟩

/-- A script class. -/
def scriptClass? (h : Heap) (id : ClassId) : Option ScriptClass := h.classes[id.index]?

/-- The name of a script class. -/
def className (h : Heap) (id : ClassId) : String := ((h.scriptClass? id).map (·.name)).getD ""

/-- A script function. -/
def function? (h : Heap) (id : FunctionId) : Option Function := h.functions[id.index]?

/-- The name a script function is shown by. -/
def functionName (h : Heap) (id : FunctionId) : String :=
  ((h.function? id).map (·.decl.shownName)).getD ""

/-- A native function. -/
def native? (h : Heap) (id : NativeId) : Option Native := h.natives[id.index]?

/-- The table of a host class. -/
def hostClass (h : Heap) (id : HostClassId) : HostClass :=
  h.hostClasses.getD id.index ⟨"", none, [], [], [], [], none⟩

/-- A host object. -/
def hostObject (h : Heap) (id : HostId) : HostObject :=
  h.hostObjects.getD id.index (.plain bytesClass [])

/-- The class of a host object. -/
def classOf (h : Heap) (id : HostId) : HostClassId :=
  match h.hostObject id with
  | .plain cls _ => cls
  | .bytes _ => bytesClass
  | .extended cls .. => cls

/-! ### Chains of classes -/

/-- Searches a script class and the classes it extends, looking at no more than `levels`. -/
def searchClasses {α : Type} (h : Heap) (f : ScriptClass → Option α) :
    (levels : Nat) → ClassId → Option α
  | 0, _ => none
  | levels + 1, id => do
    let c ← h.scriptClass? id
    match f c with
    | some a => some a
    | none => searchClasses h f levels (← c.superclass)

/-- The method of a class or of the nearest class it extends that has one of that name. -/
def methodOf? (h : Heap) (id : ClassId) (name : String) : Option FunctionId :=
  h.searchClasses (fun c => c.methods.lookup name) (id.index + 1) id

/-- The host class that a class extends, itself or through others. -/
def hostBase? (h : Heap) (id : ClassId) : Option HostClassId :=
  h.searchClasses (fun c => c.hostBase) (id.index + 1) id

/-- The class identifiers from `id` upwards, no more than `levels`. -/
def ancestryFrom (h : Heap) : (levels : Nat) → HostClassId → List HostClassId
  | 0, _ => []
  | levels + 1, id =>
    match (h.hostClass id).superclass with
    | some s => id :: ancestryFrom h levels s
    | none => [id]

/-- A host class and the classes it extends, the most derived first. -/
def ancestry (h : Heap) (id : HostClassId) : List HostClassId := h.ancestryFrom (id.index + 1) id

/-- The host instance inside a script instance, or the object itself. -/
def innermost (h : Heap) : (levels : Nat) → HostId → HostId
  | 0, id => id
  | levels + 1, id =>
    match h.hostObject id with
    | .extended _ base _ => innermost h levels base
    | _ => id

/-- The host object that holds the state of `id`: of a script instance, the host instance in it. -/
def concrete (h : Heap) (id : HostId) : HostId := h.innermost (id.index + 1) id

/-! ### Adding -/

/-- Adds a list. -/
def addList (h : Heap) (items : Array Value) : Value × Heap :=
  (.list ⟨h.lists.size⟩, { h with lists := h.lists.push items })

/-- Adds an object. -/
def addObject (h : Heap) (o : Object) : ObjectId × Heap :=
  (⟨h.objects.size⟩, { h with objects := h.objects.push o })

/-- Adds a plain object. -/
def addFields (h : Heap) (fields : Fields) : Value × Heap :=
  let (id, h) := h.addObject ⟨none, fields, []⟩
  (.object id, h)

/-- Adds a script function. -/
def addFunction (h : Heap) (f : Function) : FunctionId × Heap :=
  (⟨h.functions.size⟩, { h with functions := h.functions.push f })

/-- Adds a native function. -/
def addNative (h : Heap) (n : Native) : NativeId × Heap :=
  (⟨h.natives.size⟩, { h with natives := h.natives.push n })

/-- Adds a script class. -/
def addClass (h : Heap) (c : ScriptClass) : ClassId × Heap :=
  (⟨h.classes.size⟩, { h with classes := h.classes.push c })

/-- Adds the table of a host class. -/
def addHostClass (h : Heap) (c : HostClass) : HostClassId × Heap :=
  (⟨h.hostClasses.size⟩, { h with hostClasses := h.hostClasses.push c })

/-- Adds a host object. -/
def addHostObject (h : Heap) (o : HostObject) : HostId × Heap :=
  (⟨h.hostObjects.size⟩, { h with hostObjects := h.hostObjects.push o })

/-! ### Changing -/

/-- Changes the items of a list. -/
def changeList (h : Heap) (id : ListId) (f : Array Value → Array Value) : Heap :=
  { h with lists := h.lists.modify id.index f }

/-- Sets a field of an object. -/
def putField (h : Heap) (id : ObjectId) (name : String) (value : Value) : Heap :=
  { h with objects := h.objects.modify id.index fun o =>
      { o with fields := Fields.put name value o.fields } }

end ScriptEngine.Heap
