import ScriptEngine.Evaluation.Statement
import ScriptEngine.Parser.Program
/-!
# Jobs

A job runs in the scope it was handed over in, as a program of its own. Its failure is written down
and never reaches what scheduled it.

* `runTask` : what a job does (`run`): calls a value, or executes a text.
* `runJob` : a job as a scheduler runs it.
* `enqueue`, `schedule` : hands a job to a scheduler (`schedule`). A queue keeps the order in which
  jobs came.

When threads run is out of scope: a job of a thread runs where it is handed over, with no call
active.
-/

namespace ScriptEngine.Evaluation

variable (again : Calls)

/-- Calls the callable or executes the source text of a task. -/
def perform : Task → Script Value
  | .call callee => again.call callee []
  | .source text => do interpret again (← Run.ofExcept (Parser.programOf? text))

/-- Runs a task at the top of a scope. -/
def runTask (job : Job) : Script Value :=
  Run.inFrame (fun _ => .top job.scope) (perform again job.task)

/-- Writes a line. -/
def write (line : Output) : Script Unit := Run.update fun w =>
  { w with output := w.output.push line }

/-- Runs a job and writes down why it failed, if it did. -/
def runJob (job : Job) : Script Unit := do
  let outcome : Except Fault Value ← Run.attempt (runTask again job)
  match outcome with
  | .ok _ => pure ()
  | .error f => write (.failedJob f.message f.line)

/-- Adds a job at the end of a queue. -/
def enqueue (queue : String) (job : Job) : List (String × List Job) → List (String × List Job)
  | [] => [(queue, [job])]
  | (name, jobs) :: rest =>
    if name == queue then (name, jobs ++ [job]) :: rest else (name, jobs) :: enqueue queue job rest

/-- Hands a job to the scheduler of a name. -/
def schedule (name : String) (scheduler : Scheduler) (job : Job) : Script Unit :=
  match scheduler with
  | .now => runJob again job
  | .thread => Run.onThread (runJob again job)
  | .queue => Run.update fun w => { w with queues := enqueue name job w.queues }

end ScriptEngine.Evaluation
