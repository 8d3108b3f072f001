import ScriptEngine.Evaluation.Machine
/-!
# Engines

What a host does with an engine. Every run starts at the top of the global scope, so definitions
persist from one to the next.

* `Engine.create` : a new engine, with the library if its settings say so (`with_config`).
* `Engine.check`, `Engine.execute`, `Engine.runProgram`, `Engine.call`, `Engine.handOff` : running
  code (`check`, `execute`, `run_program`, `call`).
* `Engine.takeOutput` : what they wrote.
* `Engine.define`, `Engine.register`, `Engine.setScheduler` : what scripts can reach
  (`define_global`, `register_host_class`, `set_scheduler`).
* `Engine.pending`, `Engine.runPending` : the queue of a scheduler (`pending`, `run_pending`). Jobs
  that are handed over while it is drained run in the same round.

One engine has one heap; values never go from one engine to another. The collector
(`collect_garbage`) is out of scope.
-/

namespace ScriptEngine.Engine

open Evaluation

/-- A new engine. -/
def create (settings : Settings) (clock : Float) (seed : UInt64) : World :=
  let w := World.initial settings clock seed
  if settings.stdlib then
    match Library.install w with
    | .ok _ w | .error _ w => w
    | .stopped _ => w
  else w

/-! ### Running code -/

/-- Everything that is wrong with a source text. -/
def check (source : String) : List Fault :=
  match Parser.programOf source with
  | .ok _ => []
  | .error faults => faults

/-- Executes a program in the global scope. -/
def runProgram (program : List Stmt) : Script Value :=
  Run.inFrame (fun _ => .top globalScope) (interpret calls program)

/-- Executes a source text in the global scope. Its runtime errors show its lines. -/
def execute (source : String) : Script Value :=
  match Parser.programOf? source with
  | .error f => Run.raise f
  | .ok program => (runProgram program).mapError (·.withSource source)

/-- Calls a value. -/
def call (callee : Value) (args : List Value) : Script Value :=
  Run.inFrame (fun _ => .top globalScope) (calls.call callee args)

/-- Runs a task in the global scope and waits for it. -/
def handOff (task : Task) : Script Value := runTask calls ⟨globalScope, task⟩

/-- What was written since it was last taken. -/
def takeOutput (w : World) : List Output × World := (w.output.toList, { w with output := #[] })

/-! ### What scripts can reach -/

/-- The value of a global. -/
def global? (w : World) (name : String) : Option Value := w.heap.lookup globalScope name

/-- Binds a global. -/
def define (name : String) (value : Value) : Script Unit := Script.define globalScope name value

/-- Binds a global for good. -/
def defineConstant (name : String) (value : Value) : Script Unit :=
  Script.declare globalScope name value true

/-- The globals that are not native functions, sorted by name. -/
def bindings (w : World) : List (String × Value) :=
  (w.heap.localBindings globalScope).filter fun (_, v) =>
    match v with
    | .native _ => false
    | _ => true

/-- Makes a host class importable under a path. -/
def register (path : String) (cls : HostClassId) (w : World) : World :=
  { w with environment := { w.environment with
    registry := ScriptEngine.register path cls w.environment.registry } }

/-- The host class that a path names. -/
def resolve (w : World) (path : String) : Option HostClassId :=
  ScriptEngine.resolve w.heap w.environment.registry path

/-! ### Schedulers -/

/-- Registers a scheduler under a name. A queue starts empty. -/
def setScheduler (name : String) (scheduler : Scheduler) (w : World) : World :=
  let schedulers := (name, scheduler) :: w.environment.schedulers.filter (·.1 != name)
  let queues := if scheduler == .queue then w.queues.filter (·.1 != name) else w.queues
  { w with environment := { w.environment with schedulers }, queues }

/-- The jobs that wait in a queue, the oldest first. -/
def pending (w : World) (name : String) : List Job := (w.queues.lookup name).getD []

/-- Takes the oldest job off a queue. -/
def takeJob (name : String) (w : World) : Option Job × World :=
  match pending w name with
  | [] => (none, w)
  | job :: jobs =>
    let queues := w.queues.map fun (n, old) => (n, if n == name then jobs else old)
    (some job, { w with queues })

/-- Runs no more than `rounds` jobs of a queue after `ran` others and counts them all. -/
def drain (name : String) : (rounds ran : Nat) → Script Nat
  | 0, _ => Run.exhausted
  | rounds + 1, ran => do
    match ← Run.change (takeJob name) with
    | none => return ran
    | some job =>
      runJob calls job
      drain name rounds (ran + 1)

/-- Runs the jobs of a queue, with those they add to it, and counts them. -/
def runPending (name : String) : Script Nat := drain name budget 0

end ScriptEngine.Engine
