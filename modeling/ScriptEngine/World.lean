import ScriptEngine.Fault
import ScriptEngine.Host.Class
import ScriptEngine.Tree
/-!
# The state of an engine

Everything a script can reach or leave behind is one value: the heap with its scopes, lists,
objects, functions and classes; the place in the program that is running; what the host supplied;
and what was written.

* `Heap` : things by identifier. Nothing is ever removed, and identifiers are given out in order.
* `Frame` : where execution is: the scope and how many loops, switches and functions surround it.
* `Settings` : what an engine is made with, and `Settings.default` what it is made with otherwise.
* `Task`, `Job`, `Scheduler` : work that is handed over, and when it runs.
* `Builtin`, `NativeBody` : the functions that are there from the start. The bodies besides those of
  the library stand for what an embedding program may register: it can call back, read and write
  properties, and look names up.
* `Memory` : what a machine grants at once. It is a part of the `Environment`, so what is proved
  holds whatever there is room for.
* `World` : the whole state.

The collector is out of scope: it clears what nothing can reach any more, and no function here can
tell. So are threads. A job of a thread runs where it is handed over, with no call active, and two
runs never interleave.
-/

namespace ScriptEngine

/-- What a name is bound to, and whether for good. -/
structure Binding where
  value : Value
  constant : Bool

/-- One level of names. A child was made after its parent, so parents have smaller identifiers. -/
structure Scope where
  parent : Option ScopeId
  bindings : List (String × Binding)

/-- An object: an instance of a class, or a plain one. Baked values are kept under the names of
their getters and never change. -/
structure Object where
  cls : Option ClassId
  fields : Fields
  baked : Fields

/-- A script function with the scope it was made in. -/
structure Function where
  decl : FunctionDecl
  closure : ScopeId

/-- A class of a script. A class was made after the class it extends. -/
structure ScriptClass where
  name : String
  methods : List (String × FunctionId)
  superclass : Option ClassId
  hostBase : Option HostClassId
  staticBlock : Option (List Stmt)
  /-- The host class of its instances, once there is one. -/
  extension : Option HostClassId

/-- The functions of the library. -/
inductive Builtin
  | print | error | len | typeOf | currentTimeMillis | delay | throw | assert
  | sqrt | abs | floor | ceil | round | isNaN | isFinite | random | pow | min | max
  | parseInt | parseFloat | toText | toNumber | toBoolean
  | toUpperCase | toLowerCase | trim | startsWith | endsWith | stringContains | replace | split
  | substring
  | listPush | listPop | listShift | listUnshift | listJoin | listSlice | listReverse
  | objectKeys | objectValues | objectHasProperty
  | jsonParse | jsonStringify | getBytes | bytesSize | runOn
  deriving DecidableEq, Repr

/-- What a native function does. -/
inductive NativeBody
  /-- A function of the library. -/
  | builtin (function : Builtin)
  /-- Always the same value. -/
  | constant (value : Value)
  /-- The list of its arguments. -/
  | echo
  /-- The text the host supplied. -/
  | context
  /-- The value the host supplied. -/
  | enclosing
  /-- Always fails. -/
  | fail
  /-- Calls its first argument with the others. -/
  | call
  /-- Reads a property. -/
  | getProperty
  /-- Writes a property. -/
  | setProperty
  /-- Looks a name up where the call stands. -/
  | lookupHere
  /-- Looks a name up among the globals. -/
  | lookupGlobal
  deriving DecidableEq

/-- A native function and how many arguments it takes; without `most` there is no upper limit. -/
structure Native where
  name : String
  least : Nat
  most : Option Nat
  body : NativeBody

/-- Things by identifier. -/
structure Heap where
  scopes : Array Scope
  lists : Array (Array Value)
  objects : Array Object
  functions : Array Function
  natives : Array Native
  classes : Array ScriptClass
  hostClasses : Array HostClass
  hostObjects : Array HostObject

/-- Where execution is. -/
structure Frame where
  scope : ScopeId
  loopDepth : Nat
  switchDepth : Nat
  functionDepth : Nat
  deriving DecidableEq, Repr

/-- The scope of the globals. -/
def globalScope : ScopeId := ⟨0⟩

/-- At the top of a program, in a scope. -/
def Frame.top (scope : ScopeId) : Frame := ⟨scope, 0, 0, 0⟩

/-- Settings of an engine. -/
structure Settings where
  /-- How many script calls may be active at once. -/
  maxCallDepth : Nat
  /-- Whether the library is installed. -/
  stdlib : Bool
  /-- Whether what is printed reaches the console. -/
  echoPrint : Bool
  deriving DecidableEq, Repr

/-- The settings an engine has unless told otherwise. -/
def Settings.default : Settings := ⟨256, true, true⟩

/-- Work to be done on another thread: a call without arguments, or a program. -/
inductive Task
  | call (callee : Value)
  | source (text : String)

/-- A task and the scope it runs in. -/
structure Job where
  scope : ScopeId
  task : Task

/-- When a scheduled job runs. -/
inductive Scheduler
  /-- At once, as part of the script that schedules it. -/
  | now
  /-- At once, with no script call active. -/
  | thread
  /-- When the host drains the queue of that name. -/
  | queue
  deriving DecidableEq, Repr

/-- A line that was written. -/
inductive Output
  | print (line : String)
  | error (line : String)
  /-- A job that failed, and the line it failed at. -/
  | failedJob (message : String) (line : Nat)
  deriving DecidableEq, Repr

/-- What can be asked of the memory at once. -/
structure Memory where
  /-- The number of bytes that it has room for. -/
  room : Nat
  /-- The number of bytes that an item of a list takes. -/
  itemBytes : Nat
  itemBytes_pos : 0 < itemBytes

/-- The number of bytes that a value may take. However much room there is, no more than the signed
64-bit integers count is ever granted. -/
def Memory.limit (m : Memory) : Nat := min m.room 0x7FFFFFFFFFFFFFFF

/-- The memory of a machine that addresses it by 47 bits. -/
def Memory.default : Memory := ⟨0x7FFFFFFFFFFF, 24, by decide⟩

/-- What the host supplied, and the machine it runs on. -/
structure Environment where
  settings : Settings
  memory : Memory
  registry : List (String × HostClassId)
  schedulers : List (String × Scheduler)
  context : Option String
  enclosing : Option Value

/-- The whole state of an engine. -/
structure World where
  heap : Heap
  frame : Frame
  /-- How many script functions are active. -/
  callDepth : Nat
  environment : Environment
  /-- Jobs by queue, the oldest first. -/
  queues : List (String × List Job)
  output : Array Output
  /-- Milliseconds since the epoch. -/
  clock : Float
  /-- The state of the generator of random numbers. -/
  seed : UInt64

/-- An empty heap with a scope for the globals and the class of encoded text. -/
def Heap.initial : Heap where
  scopes := #[⟨none, []⟩]
  lists := #[]
  objects := #[]
  functions := #[]
  natives := #[]
  classes := #[]
  hostClasses := #[{
    name := "ByteArray"
    superclass := none
    constructors := []
    methods := [⟨"size", [], .int, .final, .byteCount⟩, ⟨"get", [.int], .int, .final, .byteAt⟩]
    fields := []
    nested := []
    equality := none }]
  hostObjects := #[]

/-- The host class of encoded text. -/
def bytesClass : HostClassId := ⟨0⟩

/-- The state before anything ran, at a time and with a state of the generator of random numbers. -/
def World.initial (settings : Settings) (clock : Float) (seed : UInt64) : World where
  heap := .initial
  frame := .top globalScope
  callDepth := 0
  environment := ⟨settings, .default, [], [], none, none⟩
  queues := []
  output := #[]
  clock
  seed

end ScriptEngine
