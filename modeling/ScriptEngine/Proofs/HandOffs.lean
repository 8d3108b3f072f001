import ScriptEngine.Engine
import ScriptEngine.Proofs.Agreement
/-!
# What is handed over to a queue

A job that is handed over waits in its queue, and nothing else that runs changes a queue. To say so
a second record is kept: a machine that notes every job where a call of `runOn` hands one over,
before the call is made, and under a name that no script can reach. It does what the machine does
that takes no notes, and what it notes is what waits in the queue, in that order.

* `Engine.waiting` : the jobs in a queue, with its value after a job is added or taken.
* `Evaluation.handedOver?` : the job that a call hands over to a queue, if it hands one over.
* `Evaluation.recording` : the machine that notes what is handed over.
* `Evaluation.callValue_of_handedOver` : such a call adds its job at the end, and answers with null.
* **`Evaluation.machine_agrees_recording`** : the notes are silent, and they account for the queue.
-/

namespace ScriptEngine

open Run

/-! ## Queues -/

namespace Engine

/-- The jobs that wait in one of some queues, the oldest first. -/
def waiting (queues : Queues) (name : String) : List Job := (queues.lookup name).getD []

theorem pending_eq (w : World) (name : String) : pending w name = waiting w.queues name := rfl

theorem lookup_cons_of_ne {name first : String} (h : name ≠ first) (jobs : List Job)
    (rest : Queues) :
    List.lookup name ((first, jobs) :: rest) = rest.lookup name := by
  rw [List.lookup_cons, beq_false_of_ne h]

/-- A job waits at the end of its own queue and in no other. -/
theorem waiting_enqueue (queue name : String) (job : Job) : ∀ queues : Queues,
    waiting (Evaluation.enqueue queue job queues) name =
      if name = queue then waiting queues name ++ [job] else waiting queues name
  | [] => by
    by_cases hname : name = queue
    · simp [Evaluation.enqueue, waiting, hname]
    · simp [Evaluation.enqueue, waiting, lookup_cons_of_ne hname, hname]
  | (first, jobs) :: rest => by
    have hrest := waiting_enqueue queue name job rest
    unfold waiting at *
    by_cases hfirst : first = queue
    · subst hfirst
      by_cases hname : name = first
      · simp [Evaluation.enqueue, hname]
      · simp [Evaluation.enqueue, lookup_cons_of_ne hname, hname]
    · by_cases hname : name = first
      · subst hname
        simp [Evaluation.enqueue, hfirst]
      · simpa [Evaluation.enqueue, hfirst, lookup_cons_of_ne hname] using hrest

/-- The jobs of a queue are replaced, if there is a queue of that name. -/
theorem lookup_replaced (queue name : String) (jobs : List Job) : ∀ queues : Queues,
    (queues.map fun (n, old) => (n, if n == queue then jobs else old)).lookup name =
      (queues.lookup name).map fun old => if name = queue then jobs else old
  | [] => rfl
  | (first, old) :: rest => by
    rw [List.map_cons]
    by_cases hname : name = first
    · subst hname
      simp
    · rw [lookup_cons_of_ne hname, lookup_cons_of_ne hname, lookup_replaced queue name jobs rest]

/-- The oldest job is taken off its own queue and off no other. -/
theorem pending_takeJob {queue : String} {w w' : World} {job : Job}
    (h : takeJob queue w = (some job, w')) :
    w' = w.withQueues w'.queues ∧ pending w queue = job :: pending w' queue ∧
    ∀ name, name ≠ queue → pending w' name = pending w name := by
  unfold takeJob at h
  split at h
  · cases h
  · next first jobs hjobs =>
    cases h
    refine ⟨rfl, ?_, fun name hname => ?_⟩
    · have hafter := lookup_replaced queue queue jobs w.queues
      unfold pending at *
      cases hqueue : w.queues.lookup queue with
      | none => simp [hqueue] at hjobs
      | some old =>
        rw [hafter, hqueue, Option.map_some, if_pos rfl]
        simpa [hqueue] using hjobs
    · have hafter := lookup_replaced queue name jobs w.queues
      unfold pending
      rw [hafter]
      cases w.queues.lookup name <;> simp [hname]

end Engine

/-! ## Notes -/

namespace Evaluation

open Engine

/-- A native function called with these arguments hands a task over to the queue: it is `runOn`, the
name is the queue's, and it is a queue. -/
def HandsOver (queue : String) (e : Environment) (f : Native) (args : List Value) : Prop :=
  f.body = .builtin .runOn ∧ f.takes args.length ∧ Library.argumentAt args 0 = .string queue ∧
    e.schedulers.lookup queue = some .queue

instance (queue : String) (e : Environment) (f : Native) (args : List Value) :
    Decidable (HandsOver queue e f args) :=
  inferInstanceAs (Decidable (_ ∧ _))

/-- The job that a call hands over to the queue, if it hands one over: the task that the second
argument stands for, in the scope in which the call stands. -/
def handedOver? (queue : String) (w : World) (callee : Value) (args : List Value) : Option Job :=
  match callee with
  | .native id =>
    match w.heap.native? id, Library.taskOf (Library.argumentAt args 1) with
    | some f, .ok task => if HandsOver queue w.environment f args then
        some ⟨w.frame.scope, task⟩ else none
    | _, _ => none
  | _ => none

/-- Notes the job that a call hands over to the queue, and makes the call. -/
def noting (queue log : String) (callee : Value) (args : List Value) (r : Script Value) :
    Script Value := fun w =>
  match handedOver? queue w callee args with
  | some job => r { w with queues := enqueue log job w.queues }
  | none => r w

/-- Evaluation that notes, under a name of its own, what is handed over to a queue. -/
def recording (queue log : String) : (budget : Nat) → Calls
  | 0 => .exhausted
  | budget + 1 =>
    let again := recording queue log budget
    { evaluate e := Script.placedAt e.span (valueOf again e)
      execute s := Script.placedAt s.span (step again budget s)
      call callee args := noting queue log callee args (callValue again callee args)
      callVirtual this name args := Host.callVirtual again this name args
      readHost this name := Host.readHost again this name }

/-! ## Handing over -/

variable {queue log : String} {callee : Value} {args : List Value} {job : Job}

theorem handedOver?_eq_some {w : World} (h : handedOver? queue w callee args = some job) :
    ∃ id f task, callee = .native id ∧ w.heap.native? id = some f ∧
      Library.taskOf (Library.argumentAt args 1) = .ok task ∧ HandsOver queue w.environment f args ∧
      job = ⟨w.frame.scope, task⟩ := by
  unfold handedOver? at h
  split at h
  · split at h
    · next hf htask =>
      obtain ⟨hover, hjob⟩ := Option.ite_none_right_eq_some.mp h
      exact ⟨_, _, _, rfl, hf, htask, hover, (Option.some.inj hjob).symm⟩
    · cases h
  · cases h

theorem stringAt_eq_ok_iff {function name : String} {i : Nat} :
    Library.stringAt function args i = .ok name ↔ Library.argumentAt args i = .string name := by
  unfold Library.stringAt Library.wantedAt
  cases Library.argumentAt args i <;> simp [Value.asString?]

/-- **A call that hands a job over adds it at the end of the queue**, does nothing else and answers
with null. -/
theorem callValue_of_handedOver (again : Calls) {w : World}
    (h : handedOver? queue w callee args = some job) :
    callValue again callee args w = .ok .null { w with queues := enqueue queue job w.queues } := by
  obtain ⟨id, f, task, rfl, hf, htask, ⟨hbody, harity, hname, hqueue⟩, rfl⟩ := handedOver?_eq_some h
  have hchecked : f.checkArity args.length = .ok () := if_pos harity
  have hstring : Library.stringAt "runOn" args 0 = .ok queue := stringAt_eq_ok_iff.mpr hname
  have hread : (Run.read fun w => w.environment.schedulers.lookup queue : Script _) w =
      .ok (some .queue) w :=
    read_of_eq hqueue
  show callNative again id args w = _
  rw [callNative_of_some hf, hchecked, hbody]
  show Library.runOn again args w = _
  rw [Library.runOn, hstring, htask]
  -- the name is read first, and then the scheduler of that name
  exact (bind_of_ok (r := Script.ofExcept (.ok queue)) rfl).trans ((bind_of_ok hread).trans rfl)

/-! ## The notes are silent -/

/-- The queues beside the notes are as they are without them, and what waited `before` and was noted
since is what was `started` since and waits now. -/
def accounted (queue log : String) (e : Environment) (before started : List Job) : Region where
  holds e' _ := e' = e
  queues q q' := (∀ name, name ≠ log → waiting q' name = waiting q name) ∧
    before ++ waiting q' log = started ++ waiting q queue

variable {e : Environment} {before started : List Job}

theorem accounted_around :
    (accounted queue log e before started).Around (accounted queue log e before started) where
  enter he _ := he
  leave he := he
  queues := rfl

theorem accounted_beside :
    (accounted queue log e before started).Beside (accounted queue log e before started) where
  enter he := he
  leave _ he := he
  queues := rfl

/-- A job that waits in another queue is not noted. -/
theorem accounted_other {name : String} (hqueue : name ≠ queue) (hlog : name ≠ log) {q q' : Queues}
    (h : (accounted queue log e before started).queues q q') :
    (accounted queue log e before started).queues (enqueue name job q) (enqueue name job q') := by
  obtain ⟨hothers, hnoted⟩ := h
  refine ⟨fun other hother => ?_, ?_⟩
  · rw [waiting_enqueue, waiting_enqueue, hothers other hother]
  · rw [waiting_enqueue, waiting_enqueue, if_neg hlog.symm, if_neg hqueue.symm]
    exact hnoted

/-- A job that waits in the queue is noted. -/
theorem accounted_noted (hne : log ≠ queue) {q q' : Queues}
    (h : (accounted queue log e before started).queues q q') :
    (accounted queue log e before started).queues (enqueue queue job q)
      (enqueue queue job (enqueue log job q')) := by
  obtain ⟨hothers, hnoted⟩ := h
  refine ⟨fun other hother => ?_, ?_⟩
  · rw [waiting_enqueue, waiting_enqueue, waiting_enqueue, if_neg hother, hothers other hother]
  · rw [waiting_enqueue, waiting_enqueue, waiting_enqueue, if_neg hne, if_pos rfl, if_pos rfl,
      ← List.append_assoc,
      hnoted, List.append_assoc]

section Machines

variable {again again' : Calls} (hne : log ≠ queue) (hlog : e.schedulers.lookup log ≠ some .queue)
  (h : again.Agree False (accounted queue log e before started)
    (accounted queue log e before started) again')
include hlog h

/-- A native function that hands no job over to the queue. -/
theorem runNative_accounted {f : Native} (harity : f.takes args.length)
    (hno : ∀ task, Library.taskOf (Library.argumentAt args 1) = .ok task →
      ¬HandsOver queue e f args) :
    (runNative again f.body args).Agrees False (accounted queue log e before started)
      (runNative again' f.body args) := by
  refine runNative_agrees f.body (fun hbody => ?_) fun _ => ⟨_, accounted_around, h⟩
  rintro _ _ name s task rfl hname hs htask scope
  refine schedule_agrees name s _ (fun _ => h) (fun _ => ⟨_, accounted_beside, h⟩) fun hqueue => ?_
  subst hqueue
  refine accounted_other ?_ ?_
  · rintro rfl
    exact hno task htask ⟨hbody, harity, stringAt_eq_ok_iff.mp hname, hs⟩
  · rintro rfl
    exact hlog hs

/-- A call of a native function that hands no job over to the queue. -/
theorem callNative_accounted {w w' : World}
    (hw : (accounted queue log e before started).Relates w w') {id : NativeId}
    (hno : handedOver? queue w (.native id) args = none) :
    (callNative again id args w).Agrees False (accounted queue log e before started).Relates
      (callNative again' id args w') := by
  obtain ⟨q, rfl, hq⟩ := hw
  cases hf : w.heap.native? id with
  | none =>
    have hf' : (w.withQueues q).heap.native? id = none := hf
    rw [callNative_of_none hf, callNative_of_none hf']
    exact .ok Value.null ⟨q, rfl, hq⟩
  | some f =>
    have hf' : (w.withQueues q).heap.native? id = some f := hf
    rw [callNative_of_some hf, callNative_of_some hf']
    have hbody : Run.Agrees False (accounted queue log w.environment before started)
        (do Script.ofExcept (f.checkArity args.length); runNative again f.body args : Script Value)
        (do Script.ofExcept (f.checkArity args.length); runNative again' f.body args :
          Script Value) := by
      refine .ofExcept fun _ hchecked => runNative_accounted hlog h ?_ fun task htask hover => ?_
      · unfold Native.checkArity at hchecked
        split at hchecked
        · assumption
        · cases hchecked
      · simp [handedOver?, hf, htask, hover] at hno
    exact hbody w _ ⟨q, rfl, hq⟩

include hne in
/-- A call is noted if it hands a job over to the queue, and only then. -/
theorem noting_agrees (callee : Value) (args : List Value) :
    (callValue again callee args).Agrees False (accounted queue log e before started)
      (noting queue log callee args (callValue again' callee args)) := by
  rintro w _ ⟨q, hw, hq⟩
  have hsame : handedOver? queue (w.withQueues q) callee args = handedOver? queue w callee args :=
    rfl
  unfold noting
  rw [hsame]
  cases hover : handedOver? queue w callee args with
  | some job =>
    have hnoted :
        handedOver? queue { w.withQueues q with queues := enqueue log job q } callee args =
          some job := hover
    show Outcome.Agrees False _ _
      (callValue again' callee args { w.withQueues q with queues := enqueue log job q })
    rw [callValue_of_handedOver again hover, callValue_of_handedOver again' hnoted]
    exact .ok Value.null ⟨_, hw, accounted_noted hne hq⟩
  | none =>
    by_cases hnative : ∃ id, callee = .native id
    · obtain ⟨id, rfl⟩ := hnative
      exact callNative_accounted hlog h ⟨q, hw, hq⟩ hover
    · refine callValue_agrees accounted_around h args (fun id hid => absurd ⟨id, hid⟩ hnative)
        (fun id _ => ?_) w _
        ⟨q, hw, hq⟩
      exact instantiateBy_agrees accounted_around h (bakedValues_agrees h) id args

end Machines

/-- **The notes are silent.** A machine that takes them does what the machine does that takes none,
and what it notes is what is added to the queue, in that order. -/
theorem machine_agrees_recording (hne : log ≠ queue)
    (hlog : e.schedulers.lookup log ≠ some .queue) : ∀ n,
    (machine n).Agree False (accounted queue log e before started)
      (accounted queue log e before started)
      (recording queue log n)
  | 0 => ⟨fun _ => .used, fun _ => .used, fun _ _ => .used, fun _ _ _ => .used, fun _ _ => .used⟩
  | n + 1 => by
    have h := machine_agrees_recording hne hlog n
    refine ⟨fun x => ?_, fun s => ?_, fun callee args => ?_, fun this name args =>
      ?_, fun this name => ?_⟩
    · exact .mapError (valueOf_agrees accounted_around h x)
    · exact .mapError (step_agrees h (.inl rfl) s)
    · exact noting_agrees hne hlog h callee args
    · exact Host.callVirtual_agrees accounted_around h this name args
    · exact Host.readHost_agrees accounted_around h this name

end Evaluation

end ScriptEngine
