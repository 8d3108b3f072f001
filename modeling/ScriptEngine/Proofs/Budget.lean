import ScriptEngine.Proofs.Agreement
/-!
# Greater budgets

A run that is not exhausted is the same within any greater budget. A run is below another if it ends
as the other does unless it is exhausted: the two agree wherever they are started, but for that. So
every step of evaluation keeps the order between the calls it is given.

* `Run.Below`, `Calls.Below` : the order, on runs and on what a step may start again.
* `Run.below_iff_agrees`, `Calls.below_iff_agree` : the order is agreement in all states.
* `Evaluation.callValue_below` : calls keep the order.
-/

namespace ScriptEngine

variable {ε α : Type}

/-! ## Runs -/

/-- Unless the first run is exhausted, both end alike. -/
def Run.Below (r r' : Run ε α) : Prop :=
  ∀ w, r w = .stopped .exhausted ∨ r w = r' w

/-- All states. -/
abbrev Region.everywhere : Region := .single fun _ _ => True

theorem Region.everywhere_around : everywhere.Around everywhere :=
  ⟨fun _ _ => trivial, fun _ => trivial, rfl⟩

theorem Region.everywhere_beside : everywhere.Beside everywhere :=
  ⟨fun _ => trivial, fun _ _ => trivial, rfl⟩

theorem Outcome.leaves_everywhere (o : Outcome ε α) : o.Leaves Region.everywhere.Holds := by
  cases o <;> trivial

theorem Run.below_iff_agrees {r r' : Run ε α} : r.Below r' ↔ r.Agrees True .everywhere r' where
  mp h := agrees_single_iff.mpr fun w _ =>
    (h w).imp (⟨trivial, ·⟩) (⟨·, Outcome.leaves_everywhere _⟩)
  mpr h w := (agrees_single_iff.mp h w trivial).imp And.right And.left

namespace Run.Below

theorem refl (r : Run ε α) : r.Below r := fun _ => .inr rfl

theorem exhausted (r : Run ε α) : Run.exhausted.Below r := fun _ => .inl rfl

/-- A run that is not exhausted is the run above it. -/
theorem eq_of_ne {r r' : Run ε α} (h : r.Below r') {w : World} (hw : r w ≠ .stopped .exhausted) :
    r w = r' w :=
  (h w).resolve_left hw

theorem trans {r r' r'' : Run ε α} (h : r.Below r') (h' : r'.Below r'') : r.Below r'' := by
  intro w
  rcases h w with hw | hw
  · exact .inl hw
  · rw [hw]
    exact h' w

theorem bind {β : Type} {r r' : Run ε α} {k k' : α → Run ε β} (hr : r.Below r')
    (hk : ∀ a, (k a).Below (k' a)) :
    (r >>= k).Below (r' >>= k') := by
  intro w
  rcases hr w with hw | hw
  · exact .inl (Run.bind_of_stopped hw)
  · simp only [Bind.bind, ← hw]
    cases r w with
    | ok a v => exact hk a v
    | error | stopped => exact .inr rfl

theorem mapError {δ : Type} {r r' : Run ε α} (g : ε → δ) (hr : r.Below r') :
    (r.mapError g).Below (r'.mapError g) := by
  intro w
  rcases hr w with hw | hw
  · exact .inl (Run.mapError_of_stopped hw)
  · exact .inr (Run.mapError_congr_at g hw)

end Run.Below

/-! ## Calls -/

/-- Everything that the first calls start is below what the second ones start. -/
structure Calls.Below (again again' : Calls) : Prop where
  evaluate : ∀ e, (again.evaluate e).Below (again'.evaluate e)
  execute : ∀ s, (again.execute s).Below (again'.execute s)
  call : ∀ callee args, (again.call callee args).Below (again'.call callee args)
  callVirtual : ∀ this name args,
    (again.callVirtual this name args).Below (again'.callVirtual this name args)
  readHost : ∀ this name, (again.readHost this name).Below (again'.readHost this name)

variable {again again' : Calls}

theorem Calls.below_iff_agree :
    again.Below again' ↔ again.Agree True .everywhere .everywhere again' where
  mp h := by
    refine ⟨fun e => ?_, fun s => ?_, fun callee args => ?_, fun this name args =>
      ?_, fun this name => ?_⟩
    · exact Run.below_iff_agrees.mp (h.evaluate e)
    · exact Run.below_iff_agrees.mp (h.execute s)
    · exact Run.below_iff_agrees.mp (h.call callee args)
    · exact Run.below_iff_agrees.mp (h.callVirtual this name args)
    · exact Run.below_iff_agrees.mp (h.readHost this name)
  mpr h := by
    refine ⟨fun e => ?_, fun s => ?_, fun callee args => ?_, fun this name args =>
      ?_, fun this name => ?_⟩
    · exact Run.below_iff_agrees.mpr (h.evaluate e)
    · exact Run.below_iff_agrees.mpr (h.execute s)
    · exact Run.below_iff_agrees.mpr (h.call callee args)
    · exact Run.below_iff_agrees.mpr (h.callVirtual this name args)
    · exact Run.below_iff_agrees.mpr (h.readHost this name)

namespace Evaluation

/-- **Calls** keep the order: what a native function schedules does on whatever thread. -/
theorem callValue_below (h : again.Below again') (callee : Value) (args : List Value) :
    (callValue again callee args).Below (callValue again' callee args) := by
  have h := Calls.below_iff_agree.mp h
  refine Run.below_iff_agrees.mpr (callValue_agrees Region.everywhere_around h args (fun id _ => ?_)
    fun id _ => ?_)
  · refine callNative_agrees (fun body => ?_) id
    refine runNative_agrees body (fun _ => ?_) fun _ => ⟨_, Region.everywhere_around, h⟩
    intro _ _ name s task _ _ _ _ scope
    exact schedule_agrees name s _ (fun _ => h) (fun _ => ⟨_, Region.everywhere_beside, h⟩)
      fun _ _ _ => congrArg _
  · exact instantiateBy_agrees Region.everywhere_around h (bakedValues_agrees h) id args

end Evaluation

end ScriptEngine
