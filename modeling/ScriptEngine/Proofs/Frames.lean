import ScriptEngine.Proofs.Changes
/-!
# Functions and the frame they are called in

The body of a script function runs in a frame of its own, of which only the depth depends on the
call, and code inside of functions goes on alike at every depth. So a function does the same
whatever frame it is called in, and the host, which calls from the top, runs it as a script does.

* `Run.Unframed` : a run that goes on alike in every frame. There is one rule for each part of a
  call.
* `Run.Unframed.inFrame_const` : such a run in a frame of its own.
* `Evaluation.callFunction_unframed` : calls of script functions.
* `Evaluation.callFromHost_eq` : a call of the host is the call of a script.
-/

namespace ScriptEngine

open Run

variable {ε α β : Type}

/-- The same state in another frame. -/
def World.withFrame (f : Frame) (w : World) : World := { w with frame := f }

namespace Run

/-- The run goes on alike in every frame. -/
def Unframed (r : Run ε α) : Prop :=
  ∀ w f, r (w.withFrame f) = (r w).mapWorld (World.withFrame f)

namespace Unframed

theorem pure (a : α) : (pure a : Run ε α).Unframed := fun _ _ => rfl

theorem read {g : World → α} (hg : (fun (w : World) f => g (w.withFrame f)) = fun w _ => g w) :
    (Run.read g : Run ε α).Unframed :=
  fun w f => congrArg (Outcome.ok · (w.withFrame f)) (congrFun₂ hg w f)

theorem change {g : World → α × World}
    (hg : (fun (w : World) f => g (w.withFrame f)) = fun w f => ((g w).1, (g w).2.withFrame f)) :
    (Run.change g : Run ε α).Unframed := by
  intro w f
  have hw : g (w.withFrame f) = ((g w).1, (g w).2.withFrame f) := congrFun₂ hg w f
  simp only [Run.change, hw]
  rfl

theorem bind {r : Run ε α} {k : α → Run ε β} (hr : r.Unframed) (hk : ∀ a, (k a).Unframed) :
    (r >>= k).Unframed := by
  intro w f
  simp only [Bind.bind]
  rw [hr w f]
  cases r w with
  | ok a w' => exact hk a w' f
  | error e w' => rfl
  | stopped s => rfl

theorem asCall {overflow : Nat → ε} {r : Run ε α} (hr : r.Unframed) :
    (Run.asCall overflow r).Unframed := by
  intro w f
  have hin : r { w.withFrame f with callDepth := w.callDepth + 1 } = _ :=
    hr { w with callDepth := w.callDepth + 1 } f
  unfold Run.asCall
  simp only
  by_cases hlimit : w.environment.settings.maxCallDepth ≤ w.callDepth
  · have hlimit' : (w.withFrame f).environment.settings.maxCallDepth ≤ (w.withFrame f).callDepth :=
      hlimit
    rw [if_pos hlimit, if_pos hlimit']
    rfl
  · have hlimit' : ¬(w.withFrame f).environment.settings.maxCallDepth ≤ (w.withFrame f).callDepth :=
      hlimit
    have hcall : (w.withFrame f).callDepth = w.callDepth := rfl
    rw [if_neg hlimit, if_neg hlimit', hcall, hin]
    cases r { w with callDepth := w.callDepth + 1 } <;> rfl

theorem declare (s : ScopeId) (name : String) (v : Value) (constant : Bool) :
    (Script.declare s name v constant).Unframed := by
  intro w f
  have hheap : (w.withFrame f).heap = w.heap := rfl
  unfold Script.declare
  rw [hheap]
  cases w.heap.declareError? s name <;> rfl

/-- A run that puts back the frame it was started in needs no frame of its own. -/
theorem inFrame_const {r : Run ε α} (hr : r.Unframed) (hregular : r.Regular) (f : Frame) :
    Run.inFrame (fun _ => f) r = r := by
  funext w
  have hframe := (hregular w).evolves
  have hin : r { w with frame := f } = (r w).mapWorld (World.withFrame f) := hr w f
  unfold Run.inFrame
  simp only
  rw [hin]
  cases hw : r w with
  | ok a w' => rw [hw] at hframe; rw [← hframe.1]; rfl
  | error e w' => rw [hw] at hframe; rw [← hframe.1]; rfl
  | stopped s => rfl

end Unframed

end Run

namespace Evaluation

variable {again : Calls}

theorem bindArguments_unframed (scope : ScopeId) :
    ∀ (params : List String) (args : List Value), (bindArguments scope params args).Unframed
  | [], _ => .pure ()
  | _ :: ps, [] => .bind (.declare _ _ _ _) fun _ => bindArguments_unframed scope ps []
  | _ :: ps, _ :: vs => .bind (.declare _ _ _ _) fun _ => bindArguments_unframed scope ps vs

/-- The frame of a function body depends on the one of the call by its depth alone. -/
theorem inFrame_unframed {r : Script α} (hr : r.Regular) (scope : ScopeId) :
    (Run.inFrame (functionFrame scope) r).Unframed := by
  intro w f
  have halike : r ({ w with frame := functionFrame scope w.frame }.atDepth (f.functionDepth + 1)) =
      _ := (hr _).alike _ (by simp [Frame.Alike, functionFrame])
  have hsame : { w.withFrame f with frame := functionFrame scope (w.withFrame f).frame } =
      { w with frame := functionFrame scope w.frame }.atDepth (f.functionDepth + 1) := rfl
  unfold Run.inFrame
  simp only
  rw [hsame, halike]
  cases r { w with frame := functionFrame scope w.frame } <;> rfl

theorem callFunction_unframed (h : again.Regular) (id : FunctionId) (this : Option Value)
    (args : List Value) : (callFunction again id this args).Unframed := by
  unfold callFunction Script.asCall
  refine .asCall (.bind (.read rfl) fun g => ?_)
  cases g with
  | none => exact .pure _
  | some g =>
    refine .bind (.change rfl) fun scope => ?_
    have hbody : (do
        bindArguments scope g.decl.params args
        return returned (← Run.inFrame (functionFrame scope) (executeAll again g.decl.body)) :
          Script Value).Unframed :=
      .bind (bindArguments_unframed _ _ _) fun _ =>
        .bind (inFrame_unframed (executeAll_regular h _) _) fun _ => .pure _
    cases this with
    | none => exact hbody
    | some v => exact .bind (.declare _ _ _ _) fun _ => hbody

/-- **A call of the host runs a script function as a call of a script does.** -/
theorem callFromHost_eq (h : again.Regular) (id : FunctionId) (this : Value) (args : List Value) :
    callFromHost again id this args = callFunction again id (some this) args :=
  (callFunction_unframed h id (some this) args).inFrame_const (callFunction_regular h id (some this)
    args) _

end Evaluation

end ScriptEngine
