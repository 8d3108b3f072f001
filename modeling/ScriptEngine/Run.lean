import ScriptEngine.Scope
/-!
# Running

A run takes the state of an engine to a value or an error and the state after it, or it stops
without either: because its budget is used up, or because it can never go on. Nothing in a script
notices a stop. Whatever a run changes of the frame it was started in is restored by the two
functions that change it, in every other outcome.

* `Outcome`, `Run` : runs with errors of any type; `Script` and `HostRun` are the two in use.
* `Stop` : `exhausted` is a budget that a greater one replaces. `stuck` is a run that no budget
  completes: the shape of a value that contains itself, and a text that is cut out of order.
* `inFrame` : another scope, or other counts of what surrounds it, with the ones before put back at
  the end. It is the capture and return at each place that executes something inside another
  (`execute_in`, `run_while`, `run_for`, `execute_switch`, `call_function`, `run_static_block`,
  `run_on`).
* `asCall` : one more active call, unless there are as many as the settings allow (`enter`). The
  count is put back whatever the end.
* `onThread` : a run that begins with no call active.
* `attempt`, `mapError`, `Script.placedAt` : an error as a value, as another error, and with a
  place.
* `repeatUntil`, `forEach`, `collect` : loops.
* `Script.declare`, `Script.assign`, `Script.get` : names of a scope, with what is wrong about them
  as an error.

Out of scope are the native stack, which is grown as it is needed (`ensure_sufficient_stack`), the
collector, and the host's own closures: a host body is one of the bodies in the table of its class.
A body comes back to scripts by calling a method or reading a property, and in no other way.
-/

namespace ScriptEngine

/-- Why a run ends with neither a value nor an error. -/
inductive Stop
  /-- Its budget is used up. -/
  | exhausted
  /-- It can never go on, whatever its budget. -/
  | stuck
  deriving DecidableEq, Repr

/-- How a run ends. -/
inductive Outcome (ε α : Type)
  | ok (value : α) (world : World)
  | error (e : ε) (world : World)
  | stopped (reason : Stop)

/-- A run with errors of type `ε` and results of type `α`. -/
def Run (ε α : Type) := World → Outcome ε α

namespace Run

variable {ε α β : Type}

instance : Monad (Run ε) where
  pure a := fun w => .ok a w
  bind r f := fun w => match r w with
    | .ok a w => f a w
    | .error e w => .error e w
    | .stopped s => .stopped s

/-- The run that uses up its budget. -/
def exhausted : Run ε α := fun _ => .stopped .exhausted

/-- The run that can never go on. -/
def stuck : Run ε α := fun _ => .stopped .stuck

/-- Ends with an error. -/
def raise (e : ε) : Run ε α := fun w => .error e w

/-- Reads the state. -/
def read (f : World → α) : Run ε α := fun w => .ok (f w) w

/-- Changes the state. -/
def update (f : World → World) : Run ε Unit := fun w => .ok () (f w)

/-- Changes the state and has a result. -/
def change (f : World → α × World) : Run ε α := fun w =>
  match f w with
  | (a, w) => .ok a w

/-- Turns the errors of a run into others. -/
def mapError {δ : Type} (f : ε → δ) (r : Run ε α) : Run δ α := fun w =>
  match r w with
  | .ok a w => .ok a w
  | .error e w => .error (f e) w
  | .stopped s => .stopped s

/-- A run whose error is a value. -/
def attempt {δ : Type} (r : Run ε α) : Run δ (Except ε α) := fun w =>
  match r w with
  | .ok a w => .ok (.ok a) w
  | .error e w => .ok (.error e) w
  | .stopped s => .stopped s

/-- A value, or an error to end with. -/
def ofExcept : Except ε α → Run ε α
  | .ok a => pure a
  | .error e => raise e

/-! ### Frames and calls -/

/-- Runs with another frame and restores the one before. -/
def inFrame (change : Frame → Frame) (r : Run ε α) : Run ε α := fun w =>
  let saved := w.frame
  match r { w with frame := change w.frame } with
  | .ok a w => .ok a { w with frame := saved }
  | .error e w => .error e { w with frame := saved }
  | .stopped s => .stopped s

/-- Runs with one more script function active, unless as many as the settings allow are. -/
def asCall (overflow : Nat → ε) (r : Run ε α) : Run ε α := fun w =>
  let limit := w.environment.settings.maxCallDepth
  if limit ≤ w.callDepth then .error (overflow limit) w else
    match r { w with callDepth := w.callDepth + 1 } with
    | .ok a w => .ok a { w with callDepth := w.callDepth - 1 }
    | .error e w => .error e { w with callDepth := w.callDepth - 1 }
    | .stopped s => .stopped s

/-- Runs with no script function active and restores their number. -/
def onThread (r : Run ε α) : Run ε α := fun w =>
  let saved := w.callDepth
  match r { w with callDepth := 0 } with
  | .ok a w => .ok a { w with callDepth := saved }
  | .error e w => .error e { w with callDepth := saved }
  | .stopped s => .stopped s

/-! ### Loops -/

/-- Repeats a run until it has a result. -/
def repeatUntil (r : Run ε (Option α)) : (rounds : Nat) → Run ε α
  | 0 => exhausted
  | rounds + 1 => fun w => match r w with
    | .ok (some a) w => .ok a w
    | .ok none w => repeatUntil r rounds w
    | .error e w => .error e w
    | .stopped s => .stopped s

/-- Runs for one item after another until a run has a result. -/
def forEach (r : β → Run ε (Option α)) (final : α) : List β → Run ε α
  | [] => pure final
  | b :: bs => fun w => match r b w with
    | .ok (some a) w => .ok a w
    | .ok none w => forEach r final bs w
    | .error e w => .error e w
    | .stopped s => .stopped s

/-- The results of a run for each item, in order. -/
def collect (r : β → Run ε α) : List β → Run ε (List α)
  | [] => pure []
  | b :: bs => do
    let a ← r b
    return a :: (← collect r bs)

end Run

/-- A run of script code. -/
abbrev Script (α : Type) := Run Fault α

namespace Script

variable {α : Type}

/-- Ends with a runtime error that is not placed yet. -/
def fail (e : RuntimeError) : Script α := Run.raise (.runtime e)

/-- A result, or a runtime error that is not placed yet. -/
def ofExcept (r : Except RuntimeError α) : Script α :=
  match r with
  | .ok a => pure a
  | .error e => fail e

/-- Ends with a mismatch. -/
def mismatch (m : Mismatch) : Script α := fail (.mismatch m)

/-- Ends with a refusal. -/
def refuse (r : Refusal) : Script α := fail (.refused r)

/-- Places the errors of a run that are not placed yet. -/
def placedAt (span : Span) (r : Script α) : Script α := r.mapError (·.orSpan span)

/-- Runs as an active script function. -/
def asCall (r : Script α) : Script α := Run.asCall (fun limit => .runtime (.stackOverflow limit)) r

/-! ### The heap -/

/-- Reads the heap. -/
def heap (f : Heap → α) : Script α := Run.read fun w => f w.heap

/-- The scope that is running. -/
def currentScope : Script ScopeId := Run.read fun w => w.frame.scope

/-- Declares a name in a scope. -/
def declare (s : ScopeId) (name : String) (value : Value) (constant : Bool) :
    Script Unit := fun w =>
  match w.heap.declareError? s name with
  | some e => .error (.runtime e) w
  | none => .ok () { w with heap := w.heap.bind s name ⟨value, constant⟩ }

/-- Defines a variable in a scope. -/
def define (s : ScopeId) (name : String) (value : Value) : Script Unit := declare s name value false

/-- Assigns to the nearest binding of a name. -/
def assign (s : ScopeId) (name : String) (value : Value) : Script Unit := fun w =>
  match w.heap.assignTarget s name with
  | .error e => .error (.runtime e) w
  | .ok owner => .ok () { w with heap := w.heap.bind owner name ⟨value, false⟩ }

/-- The value of a name. -/
def get (s : ScopeId) (name : String) : Script Value := fun w =>
  match w.heap.lookup s name with
  | some v => .ok v w
  | none => .error (.runtime (.undefinedVariable name)) w

/-- A new scope inside another. -/
def childScope (parent : ScopeId) : Script ScopeId := Run.change fun w =>
  let (s, heap) := w.heap.addChild parent
  (s, { w with heap })

/-- Runs in another scope. -/
def inScope (s : ScopeId) (r : Script α) : Script α :=
  Run.inFrame (fun f => { f with scope := s }) r

end Script

end ScriptEngine
