import ScriptEngine.Proofs.Evolution
import ScriptEngine.Proofs.Frames
import ScriptEngine.Proofs.HandOffs
/-!
# Queues are first in, first out

A host executes programs, calls values, hands off tasks and drains a queue, in any order, and
whatever runs may hand jobs over to the queue, fail, and change what it can reach. The jobs that the
drains start are those that were handed over, in the order in which they were, each once.

* `Engine.Request`, `Engine.Session` : what a host asks of an engine, one thing after another.
* `Engine.Drains` : a drain and the jobs that it starts.
* `Engine.drain_eq_ok_iff` : a drain comes back exactly if it starts so many jobs and leaves none.
* `Evaluation.runJob_eq` : a job that fails is written down, and nothing else becomes of it.
* `Evaluation.runTask_function` : a function that was handed over does what any call of it does.
* **`Engine.queue_first_in_first_out`** : handing over, order, drains, failures and scopes in one.

The queue is that of one scheduler (`schedule`, `pending`, `run_pending`). Schedulers with a thread
of their own are out of scope: their jobs run where they are handed over.
-/

namespace ScriptEngine

open Run Evaluation

/-! ## Jobs -/

/-- Where two runs agree and the first one ends, so does the second one. -/
theorem Outcome.Agrees.endsIn {ε α : Type} {S : World → World → Prop} {o o' : Outcome ε α}
    (h : o.Agrees False S o') {w : World} (hend : o.EndsIn w) : ∃ w', o'.EndsIn w' ∧ S w w' := by
  cases h with
  | ok a hw =>
    rcases hend with ⟨_, hend⟩ | ⟨_, hend⟩ <;> cases hend
    exact ⟨_, .inl ⟨a, rfl⟩, hw⟩
  | error e hw =>
    rcases hend with ⟨_, hend⟩ | ⟨_, hend⟩ <;> cases hend
    exact ⟨_, .inr ⟨e, rfl⟩, hw⟩
  | stopped s => rcases hend with ⟨_, hend⟩ | ⟨_, hend⟩ <;> cases hend
  | exhausted hlax => exact hlax.elim

theorem Outcome.Agrees.of_ok {ε α : Type} {S : World → World → Prop} {a : α} {w : World}
    {o : Outcome ε α} (h : (Outcome.ok a w : Outcome ε α).Agrees False S o) :
    ∃ w', o = .ok a w' ∧ S w w' := by
  cases h with
  | ok a hw => exact ⟨_, rfl, hw⟩

namespace Evaluation

theorem calls_eq : ∃ n, calls = machine (n + 1) := ⟨budget - 1, rfl⟩

/-- **A job that fails is written down**, and nothing else becomes of it. -/
theorem runJob_eq (again : Calls) (job : Job) (w : World) :
    runJob again job w =
      match runTask again job w with
      | .ok _ w' => .ok () w'
      | .error f w' => .ok () { w' with output := w'.output.push (.failedJob f.message f.line) }
      | .stopped s => .stopped s := by
  simp only [runJob, Bind.bind, Run.attempt]
  cases runTask again job w <;> rfl

/-- **A function that was handed over does what any call of it does**, whatever scope it was handed
over in. -/
theorem runTask_function (scope : ScopeId) (id : FunctionId) :
    runTask calls ⟨scope, .call (.function id)⟩ = calls.call (.function id) [] := by
  obtain ⟨n, hn⟩ := calls_eq
  rw [hn]
  exact (callFunction_unframed (machine_regular n) id none []).inFrame_const
    (callFunction_regular (machine_regular n) id none []) _

theorem runTask_boundMethod (scope : ScopeId) (receiver : Receiver) (method : FunctionId) :
    runTask calls ⟨scope, .call (.boundMethod receiver method)⟩ =
      calls.call (.boundMethod receiver method) [] := by
  obtain ⟨n, hn⟩ := calls_eq
  rw [hn]
  exact (callFunction_unframed (machine_regular n) method (some receiver.value) []).inFrame_const
    (callFunction_regular (machine_regular n) method (some receiver.value) []) _

end Evaluation

namespace Engine

/-! ## Drains -/

/-- A drain of a queue that comes to an end, and the jobs that it starts. -/
inductive Drains (again : Calls) (queue : String) : World → List Job → World → Prop
  | done {w : World} (h : pending w queue = []) : Drains again queue w [] w
  | next {w v v' w' : World} {job : Job} {jobs : List Job} (htake : takeJob queue w = (some job, v))
      (hrun : runJob again job v = .ok () v') (hrest : Drains again queue v' jobs w') :
      Drains again queue w (job :: jobs) w'

variable {queue log : String} {w v w' : World} {jobs : List Job}

theorem takeJob_of_pending (h : pending w queue = []) : takeJob queue w = (none, w) := by
  unfold takeJob
  rw [h]

theorem takeJob_of_cons {job : Job} (h : pending w queue = job :: jobs) :
    ∃ v, takeJob queue w = (some job, v) := by
  unfold takeJob
  rw [h]
  exact ⟨_, rfl⟩

/-- A drain that comes to an end leaves nothing in the queue. -/
theorem Drains.pending_eq_nil {again : Calls} (h : Drains again queue w jobs w') :
    pending w' queue = [] := by
  induction h with
  | done h => exact h
  | next _ _ _ ih => exact ih

theorem drain_of_pending {rounds ran : Nat} (h : pending w queue = []) :
    drain queue (rounds + 1) ran w = .ok ran w := by
  have htake : Run.change (takeJob queue) w = (.ok none w : Outcome Fault _) := by
    rw [Run.change, takeJob_of_pending h]
  rw [drain, bind_of_ok htake]
  rfl

theorem drain_of_takeJob {rounds ran : Nat} {job : Job} (h : takeJob queue w = (some job, v)) :
    drain queue (rounds + 1) ran w = (runJob calls job >>= fun _ => drain queue rounds (ran + 1))
      v := by
  have htake : Run.change (takeJob queue) w = (.ok (some job) v : Outcome Fault _) := by
    rw [Run.change, h]
  rw [drain, bind_of_ok htake]

/-- **A drain comes back exactly if it starts so many jobs and leaves none**, those that are handed
over while it runs among them. -/
theorem drain_eq_ok_iff {n : Nat} : ∀ {rounds ran : Nat} {w : World},
    drain queue rounds ran w = .ok n w' ↔
      ∃ jobs, Drains calls queue w jobs w' ∧ n = ran + jobs.length ∧ jobs.length < rounds
  | 0, ran, w => by
    constructor
    · intro h; cases h
    · rintro ⟨jobs, -, -, hlt⟩; cases hlt
  | rounds + 1, ran, w => by
    cases hpending : pending w queue with
    | nil =>
      rw [drain_of_pending hpending]
      constructor
      · rintro ⟨⟩
        exact ⟨[], .done hpending, rfl, Nat.succ_pos _⟩
      · rintro ⟨jobs, hdrains, rfl, -⟩
        cases hdrains with
        | done => rfl
        | next htake => rw [takeJob_of_pending hpending] at htake; cases htake
    | cons job rest =>
      obtain ⟨v, hv⟩ := takeJob_of_cons hpending
      rw [drain_of_takeJob hv]
      constructor
      · intro hok
        obtain ⟨_, v', hrun, hrest⟩ := ok_of_bind hok
        obtain ⟨jobs, hdrains, rfl, hlt⟩ := drain_eq_ok_iff.mp hrest
        exact ⟨job :: jobs, .next hv hrun
          hdrains, by simp only [List.length_cons]; omega, Nat.succ_lt_succ hlt⟩
      · rintro ⟨jobs, hdrains, rfl, hlt⟩
        cases hdrains with
        | done h => rw [h] at hpending; cases hpending
        | next htake hrun hrest =>
          rw [hv] at htake
          cases htake
          rw [bind_of_ok hrun]
          exact drain_eq_ok_iff.mpr
            ⟨_, hrest, by simp only [List.length_cons]; omega, Nat.lt_of_succ_lt_succ hlt⟩

/-- No job makes a drain fail. -/
theorem drain_ne_error {f : Fault} :
    ∀ {rounds ran : Nat} {w : World}, drain queue rounds ran w ≠ .error f w'
  | 0, _, _ => nofun
  | rounds + 1, ran, w => by
    intro h
    cases hpending : pending w queue with
    | nil =>
      rw [drain_of_pending hpending] at h
      cases h
    | cons job rest =>
      obtain ⟨v, hv⟩ := takeJob_of_cons hpending
      rw [drain_of_takeJob hv] at h
      simp only [Bind.bind, runJob_eq] at h
      cases hrun : runTask calls job v <;> rw [hrun] at h
      · exact drain_ne_error h
      · exact drain_ne_error h
      · cases h

/-! ## Sessions -/

/-- What a host asks of an engine beside draining the queue. -/
inductive Request
  /-- Executes a source text. -/
  | execute (source : String)
  /-- Executes a program that was read before. -/
  | runProgram (program : List Stmt)
  /-- Calls a value. -/
  | call (callee : Value) (args : List Value)
  /-- Runs a task and waits for it. -/
  | handOff (task : Task)
  /-- Calls a method of a host object. -/
  | callVirtual (this : HostId) (name : String) (args : List HostData)
  /-- Reads a property of a host object. -/
  | readHost (this : HostId) (name : String)

/-- A program at the top of a scope. -/
def programIn (again : Calls) (scope : ScopeId) (program : List Stmt) : Script Value :=
  Run.inFrame (fun _ => .top scope) (interpret again program)

/-- A source text at the top of the global scope. -/
def sourceBy (again : Calls) (source : String) : Script Value :=
  match Parser.programOf? source with
  | .error f => Run.raise f
  | .ok program => (programIn again globalScope program).mapError (·.withSource source)

/-- The request leads from one state to another, where what it starts is started by given calls. -/
def Request.Leads (again : Calls) (w w' : World) : Request → Prop
  | .execute source => (sourceBy again source w).EndsIn w'
  | .runProgram program => (programIn again globalScope program w).EndsIn w'
  | .call callee args => (Run.inFrame (fun _ => .top globalScope) (again.call callee args) w).EndsIn
      w'
  | .handOff task => (runTask again ⟨globalScope, task⟩ w).EndsIn w'
  | .callVirtual this name args => (again.callVirtual this name args w).EndsIn w'
  | .readHost this name => (again.readHost this name w).EndsIn w'

/-- The calls of an engine answer requests as the engine does. -/
theorem Request.leads_calls (w w' : World) :
    (∀ source, (Request.execute source).Leads calls w w' ↔ (Engine.execute source w).EndsIn w') ∧
    (∀ program, (Request.runProgram program).Leads calls w w' ↔
      (Engine.runProgram program w).EndsIn w') ∧
    (∀ callee args, (Request.call callee args).Leads calls w w' ↔
      (Engine.call callee args w).EndsIn w') ∧
    ∀ task, (Request.handOff task).Leads calls w w' ↔ (Engine.handOff task w).EndsIn w' :=
  ⟨fun _ => Iff.rfl, fun _ => Iff.rfl, fun _ _ => Iff.rfl, fun _ => Iff.rfl⟩

/-- What a host does with an engine and one of its queues. -/
inductive Event
  | request (c : Request)
  /-- Drains the queue. -/
  | drain
  /-- Whatever else the host does between requests. It changes the state to this one, but for what
  waits in queues. -/
  | host (w : World)

/-- What a host does, one thing after another, and the jobs of the queue that are started in the
course of it. -/
inductive Session (again : Calls) (queue : String) : List Event → World → List Job → World → Prop
  | done (w : World) : Session again queue [] w [] w
  | request {events : List Event} {w v w' : World} {jobs : List Job} {c : Request}
      (h : c.Leads again w v) (hrest : Session again queue events v jobs w') :
      Session again queue (.request c :: events) w jobs w'
  | drain {events : List Event} {w v w' : World} {jobs more : List Job}
      (h : Drains again queue w jobs v) (hrest : Session again queue events v more w') :
      Session again queue (.drain :: events) w (jobs ++ more) w'
  | host {events : List Event} {w v w' : World} {jobs : List Job}
      (hschedulers : v.environment.schedulers = w.environment.schedulers)
      (hrest : Session again queue events (v.withQueues w.queues) jobs w') :
      Session again queue (.host v :: events) w jobs w'

/-! ## The notes account for what is started -/

variable {e : Environment} {before started : List Job}

/-- A request does the same where notes are taken. -/
theorem Request.Leads.noted (hne : log ≠ queue) (hlog : e.schedulers.lookup log ≠ some .queue)
    {c : Request} {u : World} (hu : (accounted queue log e before started).Relates w u)
    (h : c.Leads calls w w') :
    ∃ u', c.Leads (recording queue log budget) u u' ∧
      (accounted queue log e before started).Relates w' u' := by
  have hagree : calls.Agree False (accounted queue log e before started)
    (accounted queue log e before started)
      (recording queue log budget) := machine_agrees_recording hne hlog budget
  have hprogram (program : List Stmt) : Run.Agrees False (accounted queue log e before started)
      (programIn calls globalScope program)
        (programIn (recording queue log budget) globalScope program) :=
    .inFrame (interpretAfter_agrees hagree program .null)
  cases c with
  | execute source =>
    have hsource : Run.Agrees False (accounted queue log e before started) (sourceBy calls source)
        (sourceBy (recording queue log budget) source) := by
      unfold sourceBy
      cases Parser.programOf? source with
      | error f => exact Run.Agrees.raise f
      | ok program => exact (hprogram program).mapError
    exact (hsource w u hu).endsIn h
  | runProgram program => exact (hprogram program w u hu).endsIn h
  | call callee args => exact ((hagree.call callee args).inFrame w u hu).endsIn h
  | handOff task => exact ((perform_agrees hagree task).inFrame w u hu).endsIn h
  | callVirtual this name args => exact (hagree.callVirtual this name args w u hu).endsIn h
  | readHost this name => exact (hagree.readHost this name w u hu).endsIn h

/-- The job that is taken off the queue was the oldest of those that were noted and not yet
started. -/
theorem takeJob_noted (hne : log ≠ queue) {job : Job} {u : World}
    (hu : (accounted queue log e before started).Relates w u)
    (h : takeJob queue w = (some job, v)) :
    ∃ u', takeJob queue u = (some job, u') ∧
      (accounted queue log e before (started ++ [job])).Relates v u' := by
  obtain ⟨q, henvironment, hothers, hnoted⟩ := hu
  obtain ⟨hv, hfirst, hrest⟩ := pending_takeJob h
  have hpending : pending (w.withQueues q) queue = job :: pending v queue :=
    (hothers queue hne.symm).trans hfirst
  obtain ⟨u', hu'⟩ := takeJob_of_cons hpending
  obtain ⟨hu, hfirst', hrest'⟩ := pending_takeJob hu'
  refine ⟨u', hu', ?_⟩
  rw [hu, hv]
  refine ⟨u'.queues, henvironment, fun name hname => ?_, ?_⟩
  · by_cases hqueue : name = queue
    · subst hqueue
      exact (List.cons.inj (hfirst'.symm.trans hpending)).2
    · exact (hrest' name hqueue).trans ((hothers name hname).trans (hrest name hqueue).symm)
  · have hlog : waiting u'.queues log = waiting q log := hrest' log hne
    have hwaiting : waiting w.queues queue = job :: waiting v.queues queue := hfirst
    rw [hlog, hnoted, hwaiting]
    simp [World.withQueues]

/-- A drain does the same where notes are taken. -/
theorem Drains.noted (hne : log ≠ queue) (hlog : e.schedulers.lookup log ≠ some .queue)
    (h : Drains calls queue w jobs w') : ∀ {started : List Job} {u : World},
    (accounted queue log e before started).Relates w u →
    ∃ u', Drains (recording queue log budget) queue u jobs u' ∧
      (accounted queue log e before (started ++ jobs)).Relates w' u' := by
  induction h with
  | done hpending =>
    intro started u hu
    obtain ⟨q, henvironment, hq⟩ := hu
    exact ⟨_, .done ((hq.1 queue hne.symm).trans hpending), q,
      henvironment, by rwa [List.append_nil]⟩
  | @next _ v v' _ job _ htake hrun _ ih =>
    intro started u hu
    obtain ⟨u₁, htake', hu₁⟩ := takeJob_noted hne hu htake
    have hjob : (runJob calls job v).Agrees False _ (runJob (recording queue log budget) job u₁) :=
      runJob_agrees (machine_agrees_recording hne hlog budget) job v u₁ hu₁
    rw [hrun] at hjob
    obtain ⟨u₂, hrun', hu₂⟩ := hjob.of_ok
    obtain ⟨u', hdrains, hu'⟩ := ih hu₂
    refine ⟨u', .next htake' hrun' hdrains, ?_⟩
    rwa [List.append_assoc] at hu'

/-- **A session does the same where notes are taken**, and what was noted in it accounts for what it
started. -/
theorem Session.noted (hne : log ≠ queue) {events : List Event}
    (h : Session calls queue events w jobs w') :
    ∀ {started : List Job} {u : World}, w.environment.schedulers.lookup log ≠ some .queue →
    (accounted queue log w.environment before started).Relates w u →
    ∃ u', Session (recording queue log budget) queue events u jobs u' ∧
      (accounted queue log w'.environment before (started ++ jobs)).Relates w' u' := by
  induction h with
  | done w =>
    intro started u _ hu
    exact ⟨u, .done u, by rwa [List.append_nil]⟩
  | request hc _ ih =>
    intro started u hlog hu
    obtain ⟨_, hc', q, henvironment, hq⟩ := hc.noted hne hlog hu
    obtain ⟨u', hsession, hu'⟩ := ih (henvironment ▸ hlog) ⟨q, rfl, hq⟩
    exact ⟨u', .request hc' hsession, hu'⟩
  | drain hdrains _ ih =>
    intro started u hlog hu
    obtain ⟨_, hdrains', q, henvironment, hq⟩ := hdrains.noted hne hlog hu
    obtain ⟨u', hsession, hu'⟩ := ih (henvironment ▸ hlog) ⟨q, rfl, hq⟩
    exact ⟨u', .drain hdrains' hsession, by rwa [List.append_assoc] at hu'⟩
  | host hschedulers _ ih =>
    intro started u hlog hu
    obtain ⟨q, -, hq⟩ := hu
    have hlog' := hschedulers ▸ hlog
    obtain ⟨u', hsession, hu'⟩ := ih hlog' ⟨q, rfl, hq⟩
    exact ⟨u', .host hschedulers hsession, hu'⟩

/-! ## First in, first out -/

/-- What a host can count on of a queue. -/
structure FirstInFirstOut (queue : String) : Prop where
  /-- A job is handed over in the scope in which the call stands. It waits at the end of the queue,
  and the script goes on with null whatever will become of it. -/
  hands_over : ∀ {w : World} {callee : Value} {args : List Value} {job : Job},
    handedOver? queue w callee args = some job →
      calls.call callee args w = .ok .null { w with queues := enqueue queue job w.queues } ∧
      job.scope = w.frame.scope
  /-- A session goes as it does where every job is noted at the call that hands it over. What waited
  at first and what was noted are what was started and what still waits, in this order. -/
  in_order : ∀ {log : String} {events : List Event} {w w' : World} {jobs : List Job}, log ≠ queue →
    w.environment.schedulers.lookup log ≠ some .queue → pending w log = [] →
    Session calls queue events w jobs w' →
      ∃ u, Session (recording queue log budget) queue events w jobs u ∧ u = w'.withQueues u.queues ∧
        (∀ name, name ≠ log → pending u name = pending w' name) ∧
        pending w queue ++ pending u log = jobs ++ pending w' queue
  /-- A drain comes back exactly if it starts finitely many jobs until none is left, and it comes
  back with their number. -/
  counts : ∀ {w w' : World} {n : Nat}, runPending queue w = .ok n w' ↔
    n < budget ∧ ∃ jobs, Drains calls queue w jobs w' ∧ jobs.length = n
  leaves_none : ∀ {w w' : World} {n : Nat}, runPending queue w = .ok n w' → pending w' queue = []
  never_fails : ∀ {w w' : World} {f : Fault}, runPending queue w ≠ .error f w'
  /-- A job that fails is started as one that does not, and only written down. -/
  outlives : ∀ {w w' : World} {job : Job} {f : Fault}, runTask calls job w = .error f w' →
    runJob calls job w = .ok () { w' with output := w'.output.push (.failedJob f.message f.line) }
  /-- What can be called is called in the scope in which it was handed over. -/
  call_scope : ∀ {scope : ScopeId} {callee : Value},
    runTask calls ⟨scope, .call callee⟩ = Run.inFrame (fun _ => .top scope) (calls.call callee [])
  /-- A source text is executed in the scope in which it was handed over, as others are in the
  global one. -/
  source_scope : ∀ {scope : ScopeId} {text : String} {program : List Stmt},
    Parser.programOf? text = .ok program →
      runTask calls ⟨scope, .source text⟩ = programIn calls scope program
  /-- A function or a method does what any call of it does: its names are those of the scope it was
  made in. -/
  closure_scope : ∀ {scope : ScopeId} {callee : Value},
    ((∃ id, callee = .function id) ∨ ∃ receiver method, callee = .boundMethod receiver method) →
      runTask calls ⟨scope, .call callee⟩ = calls.call callee []

/-- **Jobs start in the order in which they were handed over**, each once, and none of them harms a
drain or a script. -/
theorem queue_first_in_first_out (queue : String) : FirstInFirstOut queue where
  hands_over {w callee args job} hover := by
    refine ⟨callValue_of_handedOver _ hover, ?_⟩
    obtain ⟨_, _, _, _, _, _, _, rfl⟩ := handedOver?_eq_some hover
    rfl
  in_order {log events w w' jobs} hne hlog hnone hsession := by
    have hstart : (accounted queue log w.environment (pending w queue) []).Relates w w :=
      ⟨w.queues, rfl, fun _ _ => rfl, by
        rw [← pending_eq, ← pending_eq, hnone, List.append_nil, List.nil_append]⟩
    obtain ⟨u, hnoted, q, -, hothers, heq⟩ := hsession.noted hne hlog hstart
    exact ⟨_, hnoted, rfl, hothers, heq⟩
  counts {w w' n} := by
    rw [runPending, drain_eq_ok_iff]
    constructor
    · rintro ⟨jobs, hdrains, rfl, hlt⟩
      exact ⟨by rwa [Nat.zero_add], jobs, hdrains, (Nat.zero_add _).symm⟩
    · rintro ⟨hlt, jobs, hdrains, rfl⟩
      exact ⟨jobs, hdrains, (Nat.zero_add _).symm, hlt⟩
  leaves_none {w w' n} hok := by
    obtain ⟨_, hdrains, -⟩ := drain_eq_ok_iff.mp hok
    exact hdrains.pending_eq_nil
  never_fails := drain_ne_error
  outlives {w w' job f} hfails := by rw [runJob_eq, hfails]
  call_scope := rfl
  source_scope {scope text program} hread := by
    unfold runTask programIn
    simp only [perform, hread]
    rfl
  closure_scope {scope callee} hcallee := by
    rcases hcallee with ⟨id, rfl⟩ | ⟨receiver, method, rfl⟩
    · exact runTask_function scope id
    · exact runTask_boundMethod scope receiver method

/-- An engine with a queue and a script function that hands jobs over. -/
def desk : World :=
  let w := World.initial .default 0 0
  { w with
    heap := { w.heap with
      natives := #[Builtin.runOn.native]
      scopes := #[⟨none, [("runOn", ⟨.native ⟨0⟩, true⟩)]⟩] }
    environment := { w.environment with schedulers := [("ui", .queue)] } }

/-- `runOn("ui", name)`. -/
def runOnDesk (name : String) : Stmt :=
  .expr (.call (.var "runOn" default) [.string "ui" default, .var name default] default)

/-- A script that binds `x` as a global and, in a function, as a local, and hands functions over
from there: `broken` fails and `show` reads `x`. -/
def handOver (names : List String) : List Stmt := [
  .binding "x" (some (.string "global" default)) false default,
  .function (.mk (some "broken") [] [.expr (.var "missing" default)] default),
  .function (.mk (some "show") [] [.ret (some (.var "x" default)) default] default),
  .function (.mk (some "later") []
    (.binding "x" (some (.string "local" default)) false default :: names.map runOnDesk) default),
  .expr (.call (.var "later" default) [] default)]

/-- How many jobs a drain starts after a program, if both come back. -/
def startedAfter (program : List Stmt) (queue : String) (w : World) : Option Nat :=
  match programIn calls globalScope program w with
  | .ok _ v =>
    match runPending queue v with
    | .ok n _ => some n
    | _ => none
  | _ => none

/-- Two functions that a script hands over are started and were noted in this order, although the
first one fails. -/
theorem queue_first_in_first_out_desk : ∃ jobs w u, jobs.length = 2 ∧
    Session calls "ui" [.request (.runProgram (handOver ["broken", "show"])), .drain] desk jobs w ∧
    Session (recording "ui" "notes" budget) "ui"
      [.request (.runProgram (handOver ["broken", "show"])), .drain] desk
      jobs u ∧ pending u "notes" = jobs := by
  have hstarted : startedAfter (handOver ["broken", "show"]) "ui" desk = some 2 := by decide +kernel
  unfold startedAfter at hstarted
  split at hstarted
  · next w hprogram =>
    split at hstarted
    · next n w' hdrain =>
      obtain rfl : n = 2 := Option.some.inj hstarted
      obtain ⟨-, jobs, hdrains, hlength⟩ := (queue_first_in_first_out "ui").counts.mp hdrain
      have hsession : Session calls "ui"
          [.request (.runProgram (handOver ["broken", "show"])), .drain] desk (jobs ++ []) w' :=
        .request (c := .runProgram _) (.inl ⟨_, hprogram⟩) (.drain hdrains (.done _))
      rw [List.append_nil] at hsession
      have hnotes : "notes" ≠ "ui" := by decide
      obtain ⟨u, hnoted, -, -, heq⟩ := (queue_first_in_first_out "ui").in_order hnotes (by decide)
        rfl hsession
      rw [hdrains.pending_eq_nil, List.append_nil] at heq
      exact ⟨jobs, w', u, hlength, hsession, hnoted, heq⟩
    · cases hstarted
  · cases hstarted

/-- What `x` is in the scope in which a program handed over its first job, and what the job comes
back with. -/
def seenAfter (program : List Stmt) (queue : String) (w : World) : Option (Option Value × Value) :=
  match programIn calls globalScope program w with
  | .ok _ v =>
    match takeJob queue v with
    | (some job, v) =>
      match runTask calls job v with
      | .ok a _ => some (v.heap.lookup job.scope "x", a)
      | _ => none
    | _ => none
  | _ => none

/-- A function that reads `x` and is handed over where `x` is a local comes back with the global. -/
theorem handed_over_reads_global :
    ∃ a w v v' job, programIn calls globalScope (handOver ["show"]) desk = .ok a w ∧
    takeJob "ui" w = (some job, v) ∧ v.heap.lookup job.scope "x" = some (.string "local") ∧
    runTask calls job v = .ok (.string "global") v' := by
  have hseen : seenAfter (handOver ["show"]) "ui" desk =
      some (some (.string "local"), .string "global") := by
    decide +kernel
  unfold seenAfter at hseen
  split at hseen
  · next a w hprogram =>
    split at hseen
    · next job v htake =>
      split at hseen
      · next b v' hrun =>
        obtain ⟨hlocal, rfl⟩ : v.heap.lookup job.scope "x" = some (.string "local") ∧ b =
          .string "global" := by
          simpa using hseen
        exact ⟨a, w, v, v', job, hprogram, htake, hlocal, hrun⟩
      · cases hseen
    · cases hseen
  · cases hseen

end Engine

end ScriptEngine
