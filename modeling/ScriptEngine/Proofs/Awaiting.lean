import ScriptEngine.Proofs.LoopFree
import ScriptEngine.Proofs.Passage
/-!
# What a run waits for

Everything that a step starts again is an activity: an expression, a statement or a call, in the
state in which it is started. A run waits for an activity if it stops whenever the activity stops,
for whatever reason. So runs are compared with runs in which the activity is cut off, and what the
activity ends with is carried on by every run that waits for it.

* `Activity`, `Activity.run`, `Activity.step` : activities, and what they do within a budget.
* `Calls.cutAt`, `Calls.Awaits` : an activity that is cut off, and a run that waits for it.
* `Calls.Awaits.carries` : what the activity fails with, the run fails with, as far as it is
  carried.
* `Calls.Awaits.conforms` : code that is as it should be waits only for such code.
* `Evaluation.machine_pass` : within every budget, errors are fit.
-/

namespace ScriptEngine

open Run Evaluation
open Faulty (fault)

variable {ε α : Type} [Faulty ε] {P : Passage} {again : Calls} {cut : Stop → Calls} {w v u : World}
    {f : Fault}

/-! ## How a run ends -/

namespace Run

/-- How a run ends, but for its value. An error of the host ends it with the fault that a script
sees. -/
def ending (r : Run ε α) : Script Unit := do
  let _ ← r.mapError fault
  return ()

variable {r : Run ε α}

theorem ending_of_error {e : ε} (h : r w = .error e u) : r.ending w = .error (fault e) u :=
  bind_of_error (mapError_of_error h)

theorem ending_of_stopped {s : Stop} (h : r w = .stopped s) : r.ending w = .stopped s :=
  bind_of_stopped (mapError_of_stopped h)

theorem error_of_ending (h : r.ending w = .error f u) : ∃ e, r w = .error e u ∧ fault e = f := by
  simp only [ending, Bind.bind, Run.mapError] at h
  cases hr : r w with
  | ok a v => rw [hr] at h; cases h
  | error e v => rw [hr] at h; cases h; exact ⟨e, rfl, rfl⟩
  | stopped s => rw [hr] at h; cases h

theorem carried_of_ending (h : ∃ f u, r.ending w = .error f u ∧ P.carries f) :
    ∃ e u, r w = .error e u ∧ P.carries (fault e) := by
  obtain ⟨f, u, hr, hf⟩ := h
  obtain ⟨e, herror, rfl⟩ := error_of_ending hr
  exact ⟨e, u, herror, hf⟩

theorem ending_passes {cut : Stop → Run ε α} (h : (r w).Passes P fun s => cut s w) :
    (r.ending w).Passes P fun s => (cut s).ending w := by
  have hcross : (r.mapError fault w).Passes P fun s => (cut s).mapError fault w :=
    Passes.mapError_at (fun _ he => he) (fun _ _ he => he) h
  exact Passes.bind_at hcross fun _ v _ hv => Passes.value () v hv

end Run

/-! ## Activities -/

/-- Something that a step starts again. -/
inductive Activity
  | evaluate (e : Expr)
  | execute (stmt : Stmt)
  | call (callee : Value) (args : List Value)
  | callVirtual (this : HostId) (name : String) (args : List HostData)
  | readHost (this : HostId) (name : String)

namespace Activity

/-- The activity, started by the given calls. -/
def run (again : Calls) : Activity → Script Unit
  | evaluate e => (again.evaluate e).ending
  | execute stmt => (again.execute stmt).ending
  | call callee args => (again.call callee args).ending
  | callVirtual this name args => (again.callVirtual this name args).ending
  | readHost this name => (again.readHost this name).ending

/-- What the activity does, where the given calls do what it starts. -/
def step (rounds : Nat) (again : Calls) : Activity → Script Unit
  | evaluate e => (Script.placedAt e.span (valueOf again e)).ending
  | execute stmt => (Script.placedAt stmt.span (Evaluation.step again rounds stmt)).ending
  | call callee args => (callValue again callee args).ending
  | callVirtual this name args => (Host.callVirtual again this name args).ending
  | readHost this name => (Host.readHost again this name).ending

theorem run_succ (n : Nat) (a : Activity) : a.run (machine (n + 1)) = a.step n (machine n) := by
  cases a <;> rfl

/-- The tree in the activity is made of nodes as they should be. -/
def Conforms (P : Passage) : Activity → Prop
  | evaluate e => e.Throughout P.expr P.stmt
  | execute stmt => stmt.Throughout P.expr P.stmt
  | _ => True

/-- The error that meets the cut is not taken by the activity, and goes on to be carried. -/
def LetsPass (P : Passage) (again : Calls) (cut : Stop → Calls) (w : World) : Activity → Prop
  | execute stmt => Escapes again cut stmt w
  | call callee _ => Unchanged P cut callee w
  | _ => True

end Activity

/-! ## Steps -/

namespace Evaluation

/-- Errors are placed at an expression. -/
theorem evaluate_passes (h : again.Pass P cut) {e : Expr} (he : e.Throughout P.expr P.stmt) :
    (Script.placedAt e.span (valueOf again e)).Passes P fun s => Script.placedAt e.span
      (valueOf (cut s) e) :=
  .mapError (fun _ hf => P.fits_expr (Expr.throughout_iff.mp he).1 hf) (fun _ hf =>
    P.carries_orSpan _ hf)
    (valueOf_passes h he)

/-- Errors are placed at a statement. -/
theorem execute_passes (h : again.Pass P cut) {stmt : Stmt} (hs : stmt.Throughout P.expr P.stmt)
    (rounds : Nat) (hw : P.Governs w) (hl : Escapes again cut stmt w) :
    (Script.placedAt stmt.span (step again rounds stmt) w).Passes P
      fun s => Script.placedAt stmt.span (step (cut s) rounds stmt) w :=
  Run.Passes.mapError_at (fun _ hf => P.fits_stmt (Stmt.throughout_iff.mp hs).1 hf)
    (fun _ _ hf => P.carries_orSpan _ hf) (step_passes h hs rounds hw hl)

end Evaluation

namespace Activity

variable {a : Activity}

/-- **An activity** passes a cut if it lets the error pass. -/
theorem step_passes (h : again.Pass P cut) (ha : a.Conforms P) (rounds : Nat) (hw : P.Governs w)
    (hl : a.LetsPass P again cut w) :
    (a.step rounds again w).Passes P fun s => a.step rounds (cut s) w := by
  cases a with
  | evaluate e => exact ending_passes (evaluate_passes h ha w hw)
  | execute stmt => exact ending_passes (execute_passes h ha rounds hw hl)
  | call callee args => exact ending_passes (callValue_passes h hw hl)
  | callVirtual this name args =>
    exact ending_passes (Host.callVirtual_passes h this name args w hw)
  | readHost this name => exact ending_passes (Host.readHost_passes h this name w hw)

end Activity

/-- A cut that changes nothing is not met. -/
theorem Evaluation.escapes_same (again : Calls) (stmt : Stmt) (w : World) :
    Escapes again (fun _ => again) stmt w where
  uncaught _ _ _ _ _ := Outcome.not_cut
  kept _ _ _ _ _ hstop := absurd hstop Outcome.not_cut

theorem unchanged_same (P : Passage) (again : Calls) (callee : Value) (w : World) :
    Unchanged P (fun _ => again) callee w where
  unscheduled _ _ _ _ _ _ := Outcome.not_cut
  wrapped _ _ _ _ hstop := absurd hstop Outcome.not_cut

/-- **Within every budget** errors are fit, and the code in the heap stays as it should be. -/
theorem Evaluation.machine_pass (P : Passage) : ∀ n, (machine n).Pass P fun _ => machine n
  | 0 => ⟨fun _ _ => .exhausted, fun _ _ => .exhausted, fun _ _ => .exhausted, fun _ _ _ =>
    .exhausted,
      fun _ _ => .exhausted⟩
  | n + 1 => by
    have h := machine_pass P n
    exact {
      evaluate := fun e he => evaluate_passes h he
      execute := fun stmt hs w hw => execute_passes h hs n hw (escapes_same _ stmt w)
      call := fun callee args w hw => callValue_passes h hw (unchanged_same P _ callee w)
      callVirtual := fun this name args => Host.callVirtual_passes h this name args
      readHost := fun this name => Host.readHost_passes h this name }

/-! ## Cuts -/

open Classical in
/-- The run, if it is the one that is meant, stops in the state `v`. -/
noncomputable def Run.stopAt {ε α : Type} (meant : Prop) (v : World) (s : Stop) (r : Run ε α) :
    Run ε α :=
  fun w => if meant ∧ w = v then .stopped s else r w

/-- The calls, but an activity that is started in the state `v` is cut off. -/
noncomputable def Calls.cutAt (again : Calls) (b : Activity) (v : World) (s : Stop) : Calls where
  evaluate e := (again.evaluate e).stopAt (b = .evaluate e) v s
  execute stmt := (again.execute stmt).stopAt (b = .execute stmt) v s
  call callee args := (again.call callee args).stopAt (b = .call callee args) v s
  callVirtual this name args :=
    (again.callVirtual this name args).stopAt (b = .callVirtual this name args) v s
  readHost this name := (again.readHost this name).stopAt (b = .readHost this name) v s

/-- The run stops whenever the activity stops that is started in the state `v`: it starts it and
waits for it. -/
def Calls.Awaits {ε α : Type} (again : Calls) (start : Calls → Run ε α) (w : World) (b : Activity)
    (v : World) : Prop :=
  ∀ s, start (again.cutAt b v s) w = .stopped s

theorem Run.Passes.stopAt {r : Run ε α} {meant : Prop} (hr : r.Passes P fun _ => r)
    (hmet : meant → P.Governs v → ∃ e u, r v = .error e u ∧ P.carries (fault e)) :
    r.Passes P fun s => r.stopAt meant v s := by
  intro w hw
  by_cases h : meant ∧ w = v
  · obtain ⟨hmeant, rfl⟩ := h
    obtain ⟨e, u, ho, he⟩ := hmet hmeant hw
    exact .carried (fun s => if_pos ⟨hmeant, rfl⟩) e u ho he
  · simp only [Run.stopAt, if_neg h]
    exact hr w hw

/-- An activity is cut off that fails with an error that is carried, or that is not as it should
be. -/
theorem Calls.Pass.cutAt {b : Activity} (h : again.Pass P fun _ => again)
    (hb : b.Conforms P → P.Governs v → ∃ f u, b.run again v = .error f u ∧ P.carries f) :
    again.Pass P (again.cutAt b v) where
  evaluate e he := .stopAt (h.evaluate e he) fun hmeant hv => by
    subst hmeant
    exact carried_of_ending (hb he hv)
  execute stmt hs := .stopAt (h.execute stmt hs) fun hmeant hv => by
    subst hmeant
    exact carried_of_ending (hb hs hv)
  call callee args := .stopAt (h.call callee args) fun hmeant hv => by
    subst hmeant
    exact carried_of_ending (hb trivial hv)
  callVirtual this name args := .stopAt (h.callVirtual this name args) fun hmeant hv => by
    subst hmeant
    exact carried_of_ending (hb trivial hv)
  readHost this name := .stopAt (h.readHost this name) fun hmeant hv => by
    subst hmeant
    exact carried_of_ending (hb trivial hv)

namespace Calls.Awaits

variable {start : Calls → Run ε α} {b : Activity}

/-- **What the activity fails with, the run fails with**, as far as it is carried. -/
theorem carries (h : again.Awaits start w b v)
    (hstart : (start again w).Passes P fun s => start (again.cutAt b v s) w) :
    ∃ e u, start again w = .error e u ∧ P.carries (fault e) :=
  hstart.carries h

/-- **Code that is as it should be waits only for such code**, in a state in which there is no
other. -/
theorem conforms (h : again.Awaits start w b v) (hnever : ∀ f, ¬P.carries f)
    (hagain : again.Pass P fun _ => again)
    (hstart : ∀ cut, again.Pass P cut → (start again w).Passes P fun s => start (cut s) w) :
    b.Conforms P ∧ P.Governs v := by
  by_contra hnot
  have hcut : again.Pass P (again.cutAt b v) := hagain.cutAt fun hb hv => absurd ⟨hb, hv⟩ hnot
  obtain ⟨e, u, -, he⟩ := h.carries (hstart _ hcut)
  exact hnever _ he

end Calls.Awaits

/-- Where nothing is carried no cut is met, so everything lets pass what is. -/
theorem Activity.letsPass_of_never {a : Activity} (hnever : ∀ f, ¬P.carries f)
    (h : again.Pass P cut) (ha : a.Conforms P) (hw : P.Governs w) : a.LetsPass P again cut w := by
  have hmet {ε α : Type} [Faulty ε] {o : Outcome ε α} {cut : Stop → Outcome ε α}
    (ho : o.Passes P cut) :
      ¬∀ s, cut s = .stopped s := fun hstop => by
    obtain ⟨e, u, -, he⟩ := ho.carries hstop
    exact hnever _ he
  cases a with
  | execute stmt =>
    have hinner := (Stmt.throughout_iff.mp ha).2.2.1
    have hescapes : ∀ body clause cleanup span, stmt = .attempt body (some clause) cleanup span →
        ¬∀ s, executeBlock (cut s) body w = .stopped s := by
      rintro body clause cleanup span rfl
      refine hmet (executeBlock_passes h (fun s hs => hinner s ?_) w hw)
      exact List.mem_append_left _ (List.mem_append_left _ hs)
    refine ⟨hescapes, ?_⟩
    rintro body handler block span rfl hstop
    refine absurd hstop
      (hmet (guarded_passes h hw (fun s hs => hinner s ?_) (fun s hs => hinner s ?_) ?_))
    · exact List.mem_append_left _ (List.mem_append_left _ hs)
    · exact List.mem_append_left _ (List.mem_append_right _ hs)
    · intro hsome
      obtain ⟨clause, rfl⟩ := Option.isSome_iff_exists.mp hsome
      exact hescapes body clause (some block) span rfl
  | call callee args =>
    exact ⟨fun _ _ _ job v hv => hmet (runTask_passes h job v (hw.of_heap hv)),
      fun _ _ _ _ _ f hf => absurd hf (hnever f)⟩
  | _ => trivial

end ScriptEngine
