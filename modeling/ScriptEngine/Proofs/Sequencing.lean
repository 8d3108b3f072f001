import ScriptEngine.Engine
import ScriptEngine.Proofs.Restoration
/-!
# Programs one after the other

A run of a program hands nothing but the state to the run after it: the frame and the number of
active calls come back, and the value of its last statement counts only if nothing is executed after
it. So a program may be cut anywhere.

* `Evaluation.interpretAfter_append` : a program goes on where its first part ends.
* `Run.inFrame_bind` : two runs in one frame are each a run in that frame, if the first one restores
  it.
* `Engine.runProgram_append` : running a program in two pieces is running it whole.

This is `run_program`, and so what an engine keeps from one input to the next. Jobs of a queue run
when the host drains it, before, between or after.
-/

namespace ScriptEngine

/-! ## Statements in a row -/

namespace Evaluation

variable {again : Calls}

/-- A program goes on where its first part ends, with the value that part left. -/
theorem interpretAfter_append (last : Value) (before after : List Stmt) :
    interpretAfter again last (before ++ after) =
      interpretAfter again last before >>= fun v => interpretAfter again v after := by
  -- The recursion reads one statement and passes a new value on, so the value is generalised.
  induction before generalizing last with
  | nil => rfl
  | cons s before ih =>
    cases s
    case expr e =>
      calc (do interpretAfter again (← again.evaluate e) (before ++ after))
          = again.evaluate e >>= fun v => interpretAfter again v before >>=
              fun v => interpretAfter again v after := by
            congr 1
            funext v
            exact ih v
        _ = (do interpretAfter again (← again.evaluate e) before) >>=
              fun v => interpretAfter again v after := (bind_assoc ..).symm
    all_goals
      refine Eq.trans ?_ (bind_assoc ..).symm
      exact congrArg _ (funext fun _ => ih .null)

/-- The first statement that is executed forgets the value before it. -/
theorem interpretAfter_of_ne_nil {program : List Stmt} (h : program ≠ []) (last : Value) :
    interpretAfter again last program = interpret again program := by
  cases program with
  | nil => exact absurd rfl h
  | cons s program => cases s <;> rfl

end Evaluation

/-! ## Two runs in one frame -/

/-- Two runs in one frame are each a run in that frame, if the first one restores it. -/
theorem Run.inFrame_bind {ε α β : Type} {f : Frame} {r : Run ε α} (k : α → Run ε β) {w : World}
    (hr : (r { w with frame := f }).Restores { w with frame := f }) :
    Run.inFrame (fun _ => f) (r >>= k) w =
      (Run.inFrame (fun _ => f) r >>= fun a => Run.inFrame (fun _ => f) (k a)) w := by
  cases hend : r { w with frame := f } with
  | ok a w₁ =>
    rw [hend] at hr
    obtain ⟨rfl, -⟩ := hr
    simp only [Run.inFrame, Bind.bind, hend]
  | error e w₁ => simp only [Run.inFrame, Bind.bind, hend]
  | stopped s => simp only [Run.inFrame, Bind.bind, hend]

/-! ## Programs -/

namespace Engine

open Evaluation

/-- **A program may be run in pieces.** From whatever state, running one program and another that
has a statement after it is running the two as one: with the same value, the same error, the same
output and the same heap. If the first one fails, the whole fails as it does and leaves the state
that it leaves. -/
theorem runProgram_append (before : List Stmt) {after : List Stmt} (hafter : after ≠ [])
    (w : World) :
    runProgram (before ++ after) w =
      match runProgram before w with
      | .ok _ w' => runProgram after w'
      | .error e w' => .error e w'
      | .stopped s => .stopped s := by
  have hwhole : interpret calls (before ++ after) =
      interpret calls before >>= fun _ => interpret calls after := by
    unfold interpret
    rw [interpretAfter_append]
    congr 1
    funext v
    exact interpretAfter_of_ne_nil hafter v
  have hfirst : (interpret calls before { w with frame := .top globalScope }).Restores
      { w with frame := .top globalScope } :=
    Run.restores_of_obeys fun _ => (machine_restoring budget).interpretAfter trivial
      (fun _ _ => trivial) (fun _ _ _ _ => trivial) trivial
  have hpieces : runProgram (before ++ after) w =
      (runProgram before >>= fun _ => runProgram after) w := by
    unfold runProgram
    rw [hwhole]
    exact Run.inFrame_bind _ hfirst
  rw [hpieces]
  simp only [Bind.bind]
  cases runProgram before w <;> rfl

/-- `var x = "a"`. -/
def nameText : Stmt := .binding "x" (some (.string "a" default)) false default

/-- The name `x`. -/
def readName : Stmt := .expr (.var "x" default)

/-- A name that one piece declares is read in the next one. -/
theorem runProgram_append_read :
    [readName] ≠ [] ∧ ∃ w₁ w₂,
      runProgram [nameText] (World.initial .default 0 0) = .ok .null w₁ ∧
      runProgram [readName] w₁ = .ok (.string "a") w₂ ∧
      runProgram ([nameText] ++ [readName]) (World.initial .default 0 0) =
        .ok (.string "a") w₂ := by
  have hne : [readName] ≠ [] := List.cons_ne_nil _ _
  refine ⟨hne, _, _, rfl, rfl, ?_⟩
  exact (runProgram_append [nameText] hne _).trans rfl

end Engine

end ScriptEngine
