import ScriptEngine.Proofs.Discipline
import ScriptEngine.Proofs.Steps
/-!
# Frames come back and signals stay inside

The discipline that asks for nothing governs every state, so every run of evaluation is orderly: one
induction on the budget says so for all the ways in which a step starts script code again.

* `Discipline.free`, `Evaluation.machine_restoring` : the discipline, and the law of the machine.
* `Evaluation.machine_restores` : whatever returns leaves the frame and the number of active calls
  as it found them.
* `Evaluation.machine_keeps_signals` : no signal crosses a function, a static block or the top, and
  a misplaced one is an error.

The places are `execute_in`, `call_function`, `run_while`, `run_for`, `execute_switch`,
`run_static_block`, `run_on` and `run`. A run that is stopped comes back to nobody, and so nothing
is said of it.
-/

namespace ScriptEngine

open Run

/-! ## The invariant -/

/-- The discipline that asks for nothing. -/
def Discipline.free : Discipline where
  function _ := True
  staticBlock _ := True
  native _ := True
  hostClass _ := True
  environment _ := True
  stops _ := True
  stuck := trivial
  constant _ := trivial
  extension _ _ _ _ := trivial

theorem Discipline.free_governs (w : World) : Discipline.free.Governs w :=
  ⟨fun _ _ => trivial, fun _ _ _ _ => trivial, fun _ _ => trivial, fun _ _ => trivial, trivial⟩

theorem Discipline.free_at (w : World) : Discipline.free.At w.frame w.callDepth w :=
  ⟨Discipline.free_governs w, rfl, rfl⟩

namespace Discipline

/-- All code is as the discipline wants it. -/
def freeGrammar : Grammar free.law :=
  .every (fun _ => ⟨fun _ => trivial, id⟩) (fun _ => trivial) (fun _ => trivial) (fun _ => trivial)
    (fun _ _ _ _ _ => trivial) trivial

theorem closed_free : freeGrammar.Closed where
  uncarried _ := id
  inside _ := ⟨_, rfl⟩
  beside _ := ⟨_, rfl⟩
  queued _ _ _ _ _ _ hw _ _ := ⟨free_governs _, hw.frame, hw.calls⟩
  sources _ _ _ _ _ _ := trivial
  declares_top _ _ _ _ _ _ _ := trivial

end Discipline

open Discipline

namespace Evaluation

variable {f : Frame} {c : Nat}

theorem machine_restoring (n : Nat) :
    Calls.Obey freeGrammar (.all free.law) (.all free.law) (machine n) fun _ => machine n :=
  machine_obeys closed_free n

/-- Statements end with signals that their frames allow. -/
theorem execute_yields (n : Nat) (s : Stmt) :
    ((machine n).execute s).Yields .free f c (Flow.Allowed f) :=
  yields_of_obeys (fun _ _ hends => hends.allowed) fun _ =>
    (machine_restoring n).execute trivial trivial fun _ _ _ _ _ => trivial

theorem executeAll_yields (n : Nat) (body : List Stmt) :
    (executeAll (machine n) body).Yields .free f c (Flow.Allowed f) := by
  have body h : (executeAll (machine n) body).Lawful free.law (f, c) h (free.law.Ends (f, c)) :=
    executeAll_obeys fun s _ => (machine_restoring n).execute (s := s) trivial trivial
      fun _ _ _ _ _ => trivial
  exact yields_of_obeys (fun _ _ hends => hends.allowed) body

/-- The body of a function ends normally or with a return. -/
theorem functionBody_yields (n : Nat) (body : List Stmt) (s : ScopeId) :
    (Run.inFrame (functionFrame s) (executeAll (machine n) body)).Yields .free f c
      fun flow => flow = .normal ∨ ∃ v, flow = .ret v :=
  .inFrame (.function s) ((executeAll_yields n body).mono fun _ => Flow.allowed_functionFrame)

/-- A static block is executed at the top, so it ends normally. -/
theorem staticBlock_yields (n : Nat) (block : List Stmt) (s : ScopeId) :
    (Run.inFrame (fun _ => .top s) (executeAll (machine n) block)).Yields .free f c (· = .normal) :=
  .inFrame (.top s) ((executeAll_yields n block).mono fun _ => Flow.allowed_top)

end Evaluation

/-! ## What a run leaves behind -/

namespace Outcome

variable {ε α : Type}

/-- If the run returned, with a value or an error, the frame and the number of active calls are what
they were in `w`. -/
def Restores (w : World) : Outcome ε α → Prop
  | .ok _ w' | .error _ w' => w'.frame = w.frame ∧ w'.callDepth = w.callDepth
  | .stopped _ => True

/-- If the run returned a value, it is in `Q`. -/
def Returns (Q : α → Prop) : Outcome ε α → Prop
  | .ok a _ => Q a
  | .error .. | .stopped _ => True

end Outcome

variable {ε α : Type} {r : Run ε α} {Q : α → Prop}

theorem Run.Yields.restores {w : World} (h : r.Yields .free w.frame w.callDepth Q) :
    (r w).Restores w := by
  have := h w (Discipline.free_at w)
  cases hr : r w <;> rw [hr] at this
  · exact ⟨this.2.frame, this.2.calls⟩
  · exact ⟨Discipline.At.frame this, Discipline.At.calls this⟩
  · trivial

theorem Run.restores_of_obeys [Faulty ε] {r' : Empty → Run ε α} {w : World} {Q : Heap → α → Prop}
    (hr : ∀ h, r.Obeys Discipline.free.law (w.frame, w.callDepth) h Q r') : (r w).Restores w :=
  Yields.restores (yields_of_obeys (fun _ _ _ => trivial) hr)

theorem Run.Yields.returns {w : World} (h : r.Yields .free w.frame w.callDepth Q) :
    (r w).Returns Q := by
  have := h w (Discipline.free_at w)
  cases hr : r w <;> rw [hr] at this
  · exact this.1
  · trivial
  · trivial

namespace Evaluation

/-- **Frames come back.** Whatever evaluation starts, in whatever state, and however it returns, the
frame and the number of active calls are as they were: for statements, expressions, calls of values
and of functions, new instances, and what the host calls or reads in between. -/
theorem machine_restores (n : Nat) (w : World) :
    (∀ s, ((machine n).execute s w).Restores w) ∧
    (∀ e, ((machine n).evaluate e w).Restores w) ∧
    (∀ callee args, ((machine n).call callee args w).Restores w) ∧
    (∀ id this args, (callFunction (machine n) id this args w).Restores w) ∧
    (∀ id args, (instantiate (machine n) id args w).Restores w) ∧
    (∀ this name args, ((machine n).callVirtual this name args w).Restores w) ∧
    (∀ this name, ((machine n).readHost this name w).Restores w) := by
  have ho := machine_restoring n
  have known (args : List Value) {h : Heap} : ∀ v ∈ args, free.law.Known h v := fun _ _ => trivial
  refine ⟨fun s => (execute_yields n s).restores,
    fun e => restores_of_obeys fun _ => ho.evaluate trivial trivial,
    fun callee args => restores_of_obeys fun _ => ho.call trivial trivial (known args),
    fun id this args => restores_of_obeys fun _ => ho.callFunction closed_free.opens trivial id
      (fun _ _ => trivial) (known args),
    fun id args => restores_of_obeys fun _ _ _ hw _ =>
      closed_free.instantiate ho hw trivial (known args),
    fun this name args => restores_of_obeys fun _ => ho.callVirtual this name args trivial,
    fun this name => restores_of_obeys fun _ => ho.readHost this name trivial⟩

/-! ## Signals -/

/-- Where a break has nothing to leave, it is an error at its place. -/
theorem execute_brk (n : Nat) (span : Span) (w : World) :
    (machine (n + 1)).execute (.brk span) w =
      if w.frame.loopDepth = 0 ∧ w.frame.switchDepth = 0 then
        .error (.placed (.runtime .breakOutsideLoop) span) w
      else .ok .brk w := by
  have hstep : step (machine n) n (.brk span) w =
      (if w.frame.loopDepth = 0 && w.frame.switchDepth = 0 then Script.fail .breakOutsideLoop
        else return .brk : Script Flow) w := rfl
  split
  · rename_i h
    rw [if_pos (by simp [h])] at hstep
    exact mapError_of_error hstep
  · rename_i h
    rw [if_neg (by simpa using h)] at hstep
    exact mapError_of_ok hstep

/-- Where a continue has no loop to go on with, it is an error at its place. -/
theorem execute_cont (n : Nat) (span : Span) (w : World) :
    (machine (n + 1)).execute (.cont span) w =
      if w.frame.loopDepth = 0 then .error (.placed (.runtime .continueOutsideLoop) span) w
      else .ok .cont w := by
  have hstep : step (machine n) n (.cont span) w =
      (if w.frame.loopDepth = 0 then Script.fail .continueOutsideLoop
        else return .cont : Script Flow) w := rfl
  split
  · rename_i h
    rw [if_pos h] at hstep
    exact mapError_of_error hstep
  · rename_i h
    rw [if_neg h] at hstep
    exact mapError_of_ok hstep

/-- Where a return has no function to leave, it is an error at its place, and its value is not
evaluated. -/
theorem execute_ret (n : Nat) (value : Option Expr) (span : Span) (w : World) :
    (machine (n + 1)).execute (.ret value span) w =
      if w.frame.functionDepth = 0 then
        .error (.placed (.runtime .returnOutsideFunction) span) w
      else Script.placedAt span (do return .ret (← evaluateOptional (machine n) value)) w := by
  have hstep : step (machine n) n (.ret value span) w =
      (if w.frame.functionDepth = 0 then Script.fail .returnOutsideFunction
        else do return .ret (← evaluateOptional (machine n) value) : Script Flow) w := rfl
  split
  · rename_i h
    rw [if_pos h] at hstep
    exact mapError_of_error hstep
  · rename_i h
    rw [if_neg h] at hstep
    show Run.mapError _ _ w = Run.mapError _ _ w
    unfold Run.mapError
    rw [hstep]
    rfl

/-- **Signals stay inside.** A statement ends only with a signal that its frame allows. So where
evaluation throws the end of statements away, there is nothing lost: the body of a function ends
normally or with the value it returns, a static block and the statements of a program, in whatever
state those before them leave, end normally. A misplaced signal is an error at its place. -/
theorem machine_keeps_signals (n : Nat) (w : World) :
    (∀ s, ((machine n).execute s w).Returns (Flow.Allowed w.frame)) ∧
    (∀ body scope, (Run.inFrame (functionFrame scope) (executeAll (machine n) body) w).Returns
      fun flow => flow = .normal ∨ ∃ v, flow = .ret v) ∧
    (∀ block scope, (Run.inFrame (fun _ => .top scope) (executeAll (machine n) block) w).Returns
      (· = .normal)) ∧
    (∀ before s scope, (Run.inFrame (fun _ => .top scope)
      (do let _ ← interpretAfter (machine n) .null before; (machine n).execute s) w).Returns
      (· = .normal)) ∧
    (∀ span, (machine (n + 1)).execute (.brk span) w =
      if w.frame.loopDepth = 0 ∧ w.frame.switchDepth = 0 then
        .error (.placed (.runtime .breakOutsideLoop) span) w
      else .ok .brk w) ∧
    (∀ span, (machine (n + 1)).execute (.cont span) w =
      if w.frame.loopDepth = 0 then .error (.placed (.runtime .continueOutsideLoop) span) w
      else .ok .cont w) ∧
    (∀ value span, (machine (n + 1)).execute (.ret value span) w =
      if w.frame.functionDepth = 0 then
        .error (.placed (.runtime .returnOutsideFunction) span) w
      else Script.placedAt span (do return .ret (← evaluateOptional (machine n) value)) w) := by
  refine ⟨fun s => (execute_yields n s).returns, fun body scope =>
    (functionBody_yields n body scope).returns,
    fun block scope => (staticBlock_yields n block scope).returns, fun before s scope => ?_,
    fun span => execute_brk n span w, fun span => execute_cont n span w,
    fun value span => execute_ret n value span w⟩
  have first : (interpretAfter (machine n) .null before).Orderly .free (.top scope) w.callDepth :=
    yields_of_obeys (fun _ _ _ => trivial) fun _ => (machine_restoring n).interpretAfter trivial
      (fun _ _ => trivial) (fun _ _ _ _ => trivial) trivial
  refine Run.Yields.returns (.inFrame (.top scope) (.bind first fun _ => ?_))
  exact (execute_yields n s).mono fun _ => Flow.allowed_top

end Evaluation

end ScriptEngine
