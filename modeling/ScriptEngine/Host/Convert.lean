import ScriptEngine.Operators
/-!
# Crossing to the host and back

A value is first given the shape the host has for it and then fitted to the type that is asked for.
Null fits every type; numbers fit every numeric type, saturating at its ends.

* `HostError` : what goes wrong on the host's side, and the fault a script sees of it.
* `Heap.naturalWithin`, `HostRun.natural` : the shape of a value (`natural`). The keys of an object
  are sorted. A value inside itself has no shape: the search for it never ends.
* `Heap.coerce`, `Heap.coerceAll` : fitting data to types (`coerce`, `coerce_args`).
* `HostRun.toHost`, `HostRun.toHostAll`, `Run.fromHost` : the two directions (`to_host`,
  `to_host_args`, `from_host`). A whole number becomes an integer of the least size that holds it,
  and comes back as a double.
* `typeNames` : arguments as messages name them (`describe_args`).

Errors cross the border once: a script error that a host body lets through is the same error on the
other side (`HostRun.ofScript`, `HostRun.toScript`).
-/

namespace ScriptEngine

/-- What can go wrong on the host's side. -/
inductive HostError
  | conversion (source target : String)
  | methodNotFound (cls name : String) (arity : Nat)
  | noMatchingOverload (name args : String)
  | noMatchingConstructor (cls args : String)
  | wrongReceiver (cls : String)
  | failed (message : String)
  /-- A fault of a script that the host called. -/
  | script (fault : Fault)

namespace HostError

/-- What a host error says. -/
def message : HostError → String
  | conversion source target => "cannot convert " ++ source ++ " to host type " ++ target
  | methodNotFound cls name arity =>
    "method " ++ quoted name ++ " with " ++ toString arity ++ " arguments not found on "
      ++ quoted cls ++ " or any of its superclasses"
  | noMatchingOverload name args =>
    "could not find a suitable overload for " ++ quoted name ++ " with argument types (" ++ args
      ++ ")"
  | noMatchingConstructor cls args =>
    "no constructor of " ++ quoted cls ++ " accepts argument types (" ++ args ++ ")"
  | wrongReceiver cls => "receiver is not a " ++ quoted cls
  | failed message => message
  | script fault => fault.render

/-- The fault a script sees: its own come back as they were, others once wrapped. -/
def toFault : HostError → Fault
  | script fault => fault
  | e => { Fault.runtime (.host e.message) with reason := some e.message }

end HostError

/-- A run of host code. -/
abbrev HostRun (α : Type) := Run HostError α

namespace HostRun

variable {α : Type}

/-- Ends with a host error. -/
def fail (e : HostError) : HostRun α := Run.raise e

/-- A run of script code that the host started. -/
def ofScript (r : Script α) : HostRun α := r.mapError .script

/-- A run of host code that a script started. -/
def toScript (r : HostRun α) : Script α := r.mapError HostError.toFault

/-- Reads the heap. -/
def heap (f : Heap → α) : HostRun α := Run.read fun w => f w.heap

end HostRun

/-! ### To the host -/

/-- The magnitude from which on whole numbers are doubles to the host. -/
def longLimit : Nat := 9200000000000000000

/-- The shape of a number: the narrowest integer that holds it, or a double. -/
def naturalNumber (n : Float) : HostData :=
  if Number.isWhole n then
    let i := Number.toInt64 n
    if Number.minInt32 ≤ i && i ≤ Number.maxInt32 then .int i
    else if i.natAbs < longLimit then .long i
    else .double n
  else .double n

/-- Puts an entry into a map sorted by keys. -/
def putSorted (key : String) (data : HostData) : List (String × HostData) → List (String × HostData)
  | [] => [(key, data)]
  | (k, d) :: rest =>
    if key < k then (key, data) :: (k, d) :: rest
    else if k == key then (key, data) :: rest
    else (k, d) :: putSorted key data rest

/-- The shape of a value, whose parts nest no deeper than `levels`; without a shape there may be an
error, or none if the nesting goes on. -/
def Heap.naturalWithin (h : Heap) : (levels : Nat) → Value → Except (Option HostError) HostData
  | 0, _ => .error none
  | levels + 1, v =>
    match v with
    | .null => .ok .null
    | .bool b => .ok (.bool b)
    | .number n => .ok (naturalNumber n)
    | .float f => .ok (.float f)
    | .string s => .ok (.string s)
    | .list id => do
      let items ← (h.list id).toList.mapM (naturalWithin h levels)
      return .list items
    | .object id => do
      let entries ← (h.object id).fields.mapM fun (name, v) => do
        return (name, ← naturalWithin h levels v)
      return .map (entries.foldl (fun entries (name, d) => putSorted name d entries) [])
    | .host id => .ok (.object id)
    | .hostClass id => .ok (.hostClass id)
    | v => .error (some (.conversion v.typeName "a host value"))

/-- The shape of a value. One that contains itself has none, and converting it never ends. -/
def HostRun.natural (v : Value) : HostRun HostData := fun w =>
  match w.heap.naturalWithin (w.heap.containers + 1) v with
  | .ok d => .ok d w
  | .error (some e) => .error e w
  | .error none => .stopped .stuck

/-- Whether a host class is, or extends, one of the given name. -/
def Heap.isA (h : Heap) (cls : HostClassId) (name : String) : Bool :=
  (h.ancestry cls).any fun c => (h.hostClass c).name == name

/-- Fits data to a type. -/
def Heap.coerce (h : Heap) (type : HostType) (data : HostData) : Except HostError HostData :=
  let refused : Except HostError HostData := .error (.conversion data.typeName type.text)
  match type, data with
  | _, .null => .ok .null
  | .any, d => .ok d
  | .bool, .bool b => .ok (.bool b)
  | .string, .string s => .ok (.string s)
  | .list, .list items => .ok (.list items)
  | .map, .map entries => .ok (.map entries)
  | .object name, .object id => if h.isA (h.classOf id) name then .ok (.object id) else refused
  | .long, .long i => .ok (.long i)
  | type, d =>
    match d.asNumber? with
    | none => refused
    | some x =>
      match type with
      | .int => .ok (.int ((Number.exact x).toInt Number.minInt32 Number.maxInt32))
      | .long => .ok (.long (Number.toInt64 x))
      | .float => .ok (.float (Number.narrow x))
      | .double => .ok (.double x)
      | _ => refused

/-- Fits each argument to the type of its parameter. -/
def Heap.coerceAll (h : Heap) (types : List HostType) (args : List HostData) :
    Except HostError (List HostData) :=
  (types.zip args).mapM fun (type, d) => h.coerce type d

namespace HostRun

/-- A value as data of a type. -/
def toHost (type : HostType) (v : Value) : HostRun HostData := do
  let d ← natural v
  match ← heap (·.coerce type d) with
  | .ok d => return d
  | .error e => fail e

/-- Arguments as data of the types of the parameters. -/
def toHostAll (types : List HostType) (args : List Value) : HostRun (List HostData) :=
  Run.collect (fun (type, v) => toHost type v) (types.zip args)

end HostRun

/-! ### Back -/

mutual

/-- Data as a value. Lists and maps become new lists and objects. -/
def Heap.fromHost (h : Heap) : HostData → Value × Heap
  | .null => (.null, h)
  | .int i => (.number (Float.ofInt i), h)
  | .long i => (.number (Float.ofInt i), h)
  | .double x => (.number x, h)
  | .float x => (.float x, h)
  | .bool b => (.bool b, h)
  | .string s => (.string s, h)
  | .list items =>
    let (values, h) := h.fromHostItems items
    h.addList values.toArray
  | .map entries =>
    let (fields, h) := h.fromHostEntries entries
    h.addFields (Fields.ofPairs fields)
  | .object id => (.host id, h)
  | .hostClass id => (.hostClass id, h)

/-- Items as values. -/
def Heap.fromHostItems (h : Heap) : List HostData → List Value × Heap
  | [] => ([], h)
  | d :: ds =>
    let (v, h) := h.fromHost d
    let (vs, h) := h.fromHostItems ds
    (v :: vs, h)

/-- Entries as fields. -/
def Heap.fromHostEntries (h : Heap) : List (String × HostData) → List (String × Value) × Heap
  | [] => ([], h)
  | (name, d) :: ds =>
    let (v, h) := h.fromHost d
    let (vs, h) := h.fromHostEntries ds
    ((name, v) :: vs, h)

end

/-- Data as a value. -/
def Run.fromHost {ε : Type} (d : HostData) : Run ε Value := Run.change fun w =>
  let (v, heap) := w.heap.fromHost d
  (v, { w with heap })

/-- The kinds of some values, as messages list them. -/
def typeNames (args : List Value) : String := String.intercalate ", " (args.map Value.typeName)

end ScriptEngine
