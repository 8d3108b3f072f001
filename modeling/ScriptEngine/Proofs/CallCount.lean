import ScriptEngine.Proofs.Agreement
import ScriptEngine.Proofs.Steps
/-!
# Active functions are counted exactly

The counter of a thread shows how many function bodies are active on it, wherever a run stands, and
it never shows more than the settings allow. To say so the bodies are counted a second time: a
machine that is told how many are active where it is started hands one more to what it runs as the
body of a function, as many to all else, and none to another thread. It rings an alarm where the
counter shows another number; it never does.

* `World.Counts` : the counter shows a number that is allowed.
* `Run.watch` : a run that rings the alarm where it starts or ends with another number.
* `Evaluation.watched` : the machine that counts bodies by itself and watches the counter.
* `Evaluation.watched_agrees` : it agrees with the machine that does not.
* **`Evaluation.machine_counts`** : the counter is exact, a function is refused exactly where as
  many bodies are active as are allowed, and after any error the count is what it was.

The counter is the one that `enter` raises; the depth of the native stack is no part of
it. Host bodies come back to scripts by `call_virtual` and `get` alone, and static blocks are not
counted, as `Evaluation.ends_iff` says in another place.
-/

namespace ScriptEngine

open Run

/-! ## Watching the counter -/

/-- The counter shows that so many function bodies are active, and no more are than the settings
allow. -/
def World.Counts (w : World) (active : Nat) : Prop :=
  w.callDepth = active ∧ active ≤ w.environment.settings.maxCallDepth

instance (w : World) (active : Nat) : Decidable (w.Counts active) :=
  inferInstanceAs (Decidable (_ ∧ _))

/-- The value a run came back with, if it did. -/
def Outcome.value? {ε α : Type} : Outcome ε α → Option α
  | .ok a _ => some a
  | _ => none

/-- A run that rings the alarm if the counter shows another number where it starts or where it
ends. -/
def Run.watch {ε α : Type} (alarm : Stop) (active : Nat) (r : Run ε α) : Run ε α := fun w =>
  if w.Counts active then
    match r w with
    | .ok a w' => if w'.Counts active then .ok a w' else .stopped alarm
    | .error e w' => if w'.Counts active then .error e w' else .stopped alarm
    | .stopped s => .stopped s
  else .stopped alarm

namespace Calls

/-- These calls, but function bodies are executed by others. -/
def withBodies (again bodies : Calls) : Calls := { again with execute := bodies.execute }

/-- What starts the task that a call of these arguments schedules: on another thread `thread`, and
on this one `again`, as deep as the call. -/
def forTask (again thread : Calls) (e : Environment) (args : List Value) : Calls :=
  match Library.stringAt "runOn" args 0 with
  | .ok name => if e.schedulers.lookup name = some .thread then thread else again
  | .error _ => again

/-- What a native function starts: a function of the library tasks, and any other one function
bodies. -/
def forNative (again bodies thread : Calls) (e : Environment) (args : List Value) :
    NativeBody → Calls
  | .builtin _ => again.forTask thread e args
  | _ => again.withBodies bodies

end Calls

namespace Evaluation

/-- A call of a native function, which starts what a function of its kind starts. -/
def callNativeAmong (again bodies thread : Calls) (id : NativeId) (args : List Value) :
    Script Value := fun w =>
  match w.heap.native? id with
  | none => .ok .null w
  | some f => callNative (again.forNative bodies thread w.environment args f.body) id args w

/-- Evaluation where `active` function bodies are active, which rings the alarm where the counter
shows another number. The counter itself decides nothing about how they are counted. -/
def watched (alarm : Stop) : (budget active : Nat) → Calls
  | 0, _ => .exhausted
  | budget + 1, active =>
    let again := watched alarm budget active
    let bodies := watched alarm budget (active + 1)
    let thread := watched alarm budget 0
    let values := again.withBodies bodies
    { evaluate e := Run.watch alarm active (Script.placedAt e.span (valueOf values e))
      execute s := Run.watch alarm active (Script.placedAt s.span (step again budget s))
      call callee args := Run.watch alarm active <|
        match callee with
        | .scriptClass id => instantiateBy values (bakedValues again) id args
        | .native id => callNativeAmong again bodies thread id args
        | v => callValue values v args
      callVirtual this name args := Run.watch alarm active (Host.callVirtual values this name args)
      readHost this name := Run.watch alarm active (Host.readHost values this name) }

/-! ## The alarm is silent -/

/-- The states of one environment whose counter shows a number that is allowed. -/
def counted (e : Environment) (active : Nat) : Region := .single fun e' c =>
  e' = e ∧ c = active ∧ active ≤ e.settings.maxCallDepth

variable {e : Environment} {active : Nat} {alarm : Stop} {ε α : Type}

theorem counted_holds {w : World} :
    (counted e active).Holds w ↔ w.environment = e ∧ w.Counts active := by
  unfold Region.Holds counted Region.single World.Counts
  constructor
  · rintro ⟨rfl, hc, hle⟩
    exact ⟨rfl, hc, hle⟩
  · rintro ⟨rfl, hc, hle⟩
    exact ⟨rfl, hc, hle⟩

theorem counted_around : (counted e active).Around (counted e (active + 1)) where
  enter := by
    rintro _ _ ⟨rfl, rfl, -⟩ hroom
    exact ⟨rfl, rfl, hroom⟩
  leave := by
    rintro _ _ ⟨rfl, rfl, hle⟩
    exact ⟨rfl, rfl, Nat.le_of_succ_le hle⟩
  queues := rfl

theorem counted_beside : (counted e active).Beside (counted e 0) where
  enter := by
    rintro _ _ ⟨rfl, -, -⟩
    exact ⟨rfl, rfl, Nat.zero_le _⟩
  leave := by
    rintro _ _ _ _ ⟨rfl, rfl, hle⟩ ⟨rfl, -, -⟩
    exact ⟨rfl, rfl, hle⟩
  queues := rfl

/-- A run that agrees with one that keeps the count is not interrupted. -/
theorem watch_agrees {r r' : Run ε α} (hr : r.Agrees False (counted e active) r') :
    (Run.watch alarm active r).Agrees False (counted e active) r' := by
  refine agrees_single_iff.mpr fun w hw => .inr ?_
  obtain ⟨heq, hends⟩ := hr.eq_of_single hw
  unfold Run.watch
  rw [if_pos (counted_holds.mp hw).2]
  cases hrw : r w with
  | ok a w' =>
    rw [hrw] at heq hends
    simp only [if_pos (counted_holds.mp hends).2]
    exact ⟨heq, hends⟩
  | error f w' =>
    rw [hrw] at heq hends
    simp only [if_pos (counted_holds.mp hends).2]
    exact ⟨heq, hends⟩
  | stopped s =>
    rw [hrw] at heq
    exact ⟨heq, trivial⟩

section Started

variable {again bodies thread m : Calls}
    (h : again.Agree False (counted e active) (counted e active) m)
include h

theorem withBodies_agrees
    (hb : bodies.Agree False (counted e (active + 1)) (counted e (active + 1)) m) :
    (again.withBodies bodies).Agree False (counted e active) (counted e (active + 1)) m :=
  ⟨h.evaluate, hb.execute, h.call, h.callVirtual, h.readHost⟩

theorem forTask_agrees (ht : thread.Agree False (counted e 0) (counted e 0) m) (args : List Value) :
    SchedulersAgree False (counted e active) (again.forTask thread e args) m args := by
  intro e' c name s task hR hname hs _ scope
  obtain ⟨rfl, -, -⟩ := hR
  unfold Calls.forTask
  rw [hname]
  simp only [hs, Option.some.injEq]
  by_cases hthread : s = .thread
  · rw [if_pos hthread]
    refine schedule_agrees name s _ (fun hnow => ?_) (fun _ => ⟨_, counted_beside, ht⟩)
      fun _ _ _ => congrArg _
    rw [hnow] at hthread
    cases hthread
  · rw [if_neg hthread]
    exact schedule_agrees name s _ (fun _ => h) (fun hs => absurd hs hthread) fun _ _ _ =>
      congrArg _

theorem forNative_agrees
    (hb : bodies.Agree False (counted e (active + 1)) (counted e (active + 1)) m)
    (ht : thread.Agree False (counted e 0) (counted e 0) m) (args : List Value)
    (body : NativeBody) :
    (runNative (again.forNative bodies thread e args body) body args).Agrees False
      (counted e active)
      (runNative m body args) := by
  by_cases hbuiltin : ∃ b, body = .builtin b
  · obtain ⟨b, rfl⟩ := hbuiltin
    exact runNative_agrees _ (fun _ => forTask_agrees h ht args) fun hno => absurd rfl (hno b)
  · have hvalues : again.forNative bodies thread e args body = again.withBodies bodies := by
      cases body with
      | builtin b => exact absurd ⟨b, rfl⟩ hbuiltin
      | _ => rfl
    rw [hvalues]
    refine runNative_agrees _ (fun hb => absurd ⟨_, hb⟩ hbuiltin) fun _ => ?_
    exact ⟨_, counted_around, withBodies_agrees h hb⟩

theorem callNativeAmong_agrees
    (hb : bodies.Agree False (counted e (active + 1)) (counted e (active + 1)) m)
    (ht : thread.Agree False (counted e 0) (counted e 0) m) (id : NativeId) (args : List Value) :
    (callNativeAmong again bodies thread id args).Agrees False (counted e active)
      (callNative m id args) := by
  refine agrees_single_iff.mpr fun w hw => .inr ?_
  obtain ⟨rfl, -⟩ := counted_holds.mp hw
  unfold callNativeAmong
  cases hn : w.heap.native? id with
  | none =>
    refine ⟨?_, hw⟩
    rw [callNative_of_none hn]
  | some f =>
    simp only [callNative_of_some hn]
    exact (Run.Agrees.ofExcept fun _ _ => forNative_agrees h hb ht args f.body).eq_of_single hw

end Started

/-- **The machine that counts agrees** with the one that does not. -/
theorem watched_agrees (alarm : Stop) (e : Environment) : ∀ n active,
    (watched alarm n active).Agree False (counted e active) (counted e active) (machine n)
  | 0, active =>
    ⟨fun _ => .used, fun _ => .used, fun _ _ => .used, fun _ _ _ => .used, fun _ _ => .used⟩
  | n + 1, active => by
    have h := watched_agrees alarm e n active
    have hb := watched_agrees alarm e n (active + 1)
    have ht := watched_agrees alarm e n 0
    have hvalues := withBodies_agrees h hb
    refine ⟨fun x => ?_, fun s => ?_, fun callee args => ?_, fun this name args =>
      ?_, fun this name => ?_⟩
    · exact watch_agrees (.mapError (valueOf_agrees counted_around hvalues x))
    · exact watch_agrees (.mapError (step_agrees h (.inl rfl) s))
    · refine watch_agrees ?_
      cases callee with
      | scriptClass id =>
        exact instantiateBy_agrees counted_around hvalues (bakedValues_agrees h) id args
      | native id => exact callNativeAmong_agrees h hb ht id args
      | _ => exact callValue_agrees counted_around hvalues args (by simp) (by simp)
    · exact watch_agrees (Host.callVirtual_agrees counted_around hvalues this name args)
    · exact watch_agrees (Host.readHost_agrees counted_around hvalues this name)

/-! ## The counter is exact -/

/-- What is started on a thread: parts of programs, calls of every kind, programs and jobs. -/
inductive Start : {ε α : Type} → (Calls → Run ε α) → Prop
  | evaluate (x : Expr) : Start fun again => again.evaluate x
  | execute (s : Stmt) : Start fun again => again.execute s
  | call (callee : Value) (args : List Value) : Start fun again => again.call callee args
  | callVirtual (this : HostId) (name : String) (args : List HostData) :
    Start fun again => again.callVirtual this name args
  | readHost (this : HostId) (name : String) : Start fun again => again.readHost this name
  | program (body : List Stmt) : Start fun again => interpret again body
  | task (job : Job) : Start fun again => runTask again job
  | job (job : Job) : Start fun again => runJob again job

theorem Start.agrees {start : Calls → Run ε α} (hstart : Start start) {R : Region}
    {again again' : Calls} (h : again.Agree False R R again') :
    (start again).Agrees False R (start again') := by
  cases hstart with
  | evaluate x => exact h.evaluate x
  | execute s => exact h.execute s
  | call callee args => exact h.call callee args
  | callVirtual this name args => exact h.callVirtual this name args
  | readHost this name => exact h.readHost this name
  | program body => exact interpretAfter_agrees h body .null
  | task job => exact .inFrame (perform_agrees h job.task)
  | job job => exact runJob_agrees h job

/-- A function is refused exactly if as many bodies are active as are allowed. Otherwise its body is
executed, with one more active. -/
def Admits (again : Calls) (active : Nat) (w : World) : Prop :=
  ∀ id this args, callFunction again id this args w =
    if active = w.environment.settings.maxCallDepth then
      .error (.runtime (.stackOverflow w.environment.settings.maxCallDepth)) w
    else (enterFunction again id this args { w with callDepth := active + 1 }).mapWorld fun w' =>
      { w' with callDepth := active }

theorem machine_leaves (n : Nat) {w : World} (hw : w.Counts active) {start : Calls → Run ε α}
    (hstart : Start start) :
    (start (machine n) w).Leaves fun w' => w'.environment = w.environment ∧ w'.Counts active := by
  obtain ⟨heq, hends⟩ :=
    (hstart.agrees (watched_agrees .exhausted w.environment n active)).eq_of_single
    (counted_holds.mpr ⟨rfl, hw⟩)
  rw [heq] at hends
  exact hends.imp fun _ => counted_holds.mp

theorem machine_admits (n : Nat) {w : World} (hw : w.Counts active) :
    Admits (machine n) active w := by
  obtain ⟨hcount, hle⟩ := hw
  intro id this args
  generalize hlimit : w.environment.settings.maxCallDepth = limit at hle
  rw [callFunction_eq]
  unfold Script.asCall Run.asCall
  rw [hlimit, hcount]
  by_cases hfull : active = limit
  · rw [if_pos hfull]
    exact if_pos (Nat.le_of_eq hfull.symm)
  · have hroom : active < limit := Nat.lt_of_le_of_ne hle hfull
    have hbody := (enterFunction_agrees (watched_agrees .exhausted w.environment n (active + 1)) id
      this
      args).eq_of_single (w := { w with callDepth := active + 1 }) ⟨rfl, rfl, hlimit ▸ hroom⟩
    rw [hbody.1] at hbody
    rw [if_neg hfull]
    refine (if_neg (Nat.not_le_of_lt hroom)).trans ?_
    cases hrun : enterFunction (machine n) id this args { w with callDepth := active + 1 } with
    | ok v w' =>
      rw [hrun] at hbody
      have hcalls : w'.callDepth = active + 1 := (counted_holds.mp hbody.2).2.1
      simp only [Outcome.mapWorld, hcalls, Nat.add_sub_cancel]
    | error f w' =>
      rw [hrun] at hbody
      have hcalls : w'.callDepth = active + 1 := (counted_holds.mp hbody.2).2.1
      simp only [Outcome.mapWorld, hcalls, Nat.add_sub_cancel]
    | stopped s => rfl

/-- **The counter is exact.** Where it shows how many function bodies are active, and no more than
are allowed:

* a machine that counts the bodies by itself and stops, in whatever way, wherever the counter shows
  another number or more than are allowed does just what the machine does;
* a function is refused exactly if as many are active as are allowed;
* so it is again after every value and every error, a refusal among them. -/
theorem machine_counts (n : Nat) {w : World} {active : Nat} (hw : w.Counts active) :
    Admits (machine n) active w ∧
    ∀ {ε α : Type} (start : Calls → Run ε α), Start start →
      (∀ alarm, start (watched alarm n active) w = start (machine n) w) ∧
      (start (machine n) w).Leaves fun w' =>
        w'.environment = w.environment ∧ w'.Counts active ∧ ∀ m, Admits (machine m) active w' := by
  refine ⟨machine_admits n hw, fun start hstart => ⟨fun alarm => ?_, ?_⟩⟩
  · have hw : (counted w.environment active).Holds w := counted_holds.mpr ⟨rfl, hw⟩
    exact ((hstart.agrees (watched_agrees alarm w.environment n active)).eq_of_single hw).1
  · exact (machine_leaves n hw hstart).imp fun w' h => ⟨h.1, h.2, fun m => machine_admits m h.2⟩

/-- A function that calls itself without end. -/
def bottomless : FunctionDecl :=
  .mk (some "fall") [] [.expr (.call (.var "fall" default) [] default)] default

/-- A program that calls the function and catches the error. Its value says whether there was
one. -/
def fallCaught : List Stmt :=
  [.function bottomless,
    .binding "caught" (some (.bool false default)) false default,
    .attempt [.expr (.call (.var "fall" default) [] default)]
      (some ("e", [.assign "caught" .plain (.bool true default) default])) none default,
    .expr (.var "caught" default)]

/-- Where three calls may be active the error is caught, and none is active afterwards. -/
theorem machine_counts_caught :
    (interpret (machine 20) fallCaught (World.initial ⟨3, false, false⟩ 0 0)).value? =
      some (.bool true) ∧
    (interpret (machine 20) fallCaught (World.initial ⟨3, false, false⟩ 0 0)).Leaves fun w' =>
      w'.Counts 0 ∧ ∀ m, Admits (machine m) 0 w' := by
  refine ⟨by decide +kernel, ?_⟩
  generalize fallCaught = program
  have hcounts : (World.initial ⟨3, false, false⟩ 0 0).Counts 0 := ⟨rfl, Nat.zero_le _⟩
  exact ((machine_counts 20 hcounts).2 _ (.program program)).2.imp fun _ => And.right

end Evaluation

end ScriptEngine
