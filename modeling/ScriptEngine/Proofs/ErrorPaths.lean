import ScriptEngine.Proofs.Awaiting
/-!
# The way of an error

An error goes out from what fails through everything that waits for it, one activity inside another.
A handler takes it, a cleanup that does not end normally puts its own end in its place, a job takes
it, and a static block wraps it. Whatever else is on the way passes it on: an error that is placed
already as it is, any other one placed once.

* `Evaluation.Handles`, `Evaluation.Replaces`, `Evaluation.HandsOff`, `Evaluation.Wraps` : what does
  not pass an error on as it is.
* `Evaluation.Encloses` : one activity around another, and around that a further one, with none of
  these.
* `Evaluation.Encloses.carries` : what one activity fails with, every activity around it fails with.
* **`Evaluation.Encloses.kept`**, **`Evaluation.Encloses.placed_once`** : an error that is placed
  keeps its place and stays the same, and any other one is placed at most once.
* `Evaluation.PassesOn.kept` : the same for a program or a block around the activities.
-/

namespace ScriptEngine

open Run Evaluation
open Faulty (fault)

/-! ## Placing an error again -/

namespace Fault

variable {f : Fault} {span : Span}

theorem orSpan_of_span (hf : f.span = some span) (other : Span) : f.orSpan other = f := by
  obtain ⟨cause, place, line, reason⟩ := f
  cases hf
  rfl

theorem span_orSpan_of_span (hf : f.span = some span) (other : Span) :
    (f.orSpan other).span = some span := by
  rw [orSpan_of_span hf, hf]

/-- Placing a fault twice places it once. -/
theorem orSpan_orSpan (f : Fault) (span other : Span) :
    (f.orSpan span).orSpan other = f.orSpan span := by
  have hplaced : (f.orSpan span).span = some (f.span.getD span) := by
    rw [orSpan]
    cases f.span <;> rfl
  exact orSpan_of_span hplaced other

end Fault

/-! ## Following one error -/

mutual

theorem Expr.throughout_true (e : Expr) : e.Throughout (fun _ => True) fun _ => True :=
  ⟨trivial, fun e' _ => e'.throughout_true, fun _ _ s _ => s.throughout_true⟩
termination_by sizeOf e
decreasing_by
  · exact Expr.sizeOf_lt_of_mem_children ‹_›
  · exact Nat.lt_trans (FunctionDecl.sizeOf_lt_of_mem_body ‹_›)
      (Expr.sizeOf_lt_of_mem_functions ‹_›)

theorem Stmt.throughout_true (s : Stmt) : s.Throughout (fun _ => True) fun _ => True :=
  ⟨trivial, fun e _ => e.throughout_true, fun s' _ => s'.throughout_true, fun _ _ s' _ =>
    s'.throughout_true,
    fun _ _ s' _ => s'.throughout_true⟩
termination_by sizeOf s
decreasing_by
  · exact Stmt.sizeOf_lt_of_mem_exprs ‹_›
  · exact Stmt.sizeOf_lt_of_mem_inner ‹_›
  · exact Nat.lt_trans (FunctionDecl.sizeOf_lt_of_mem_body ‹_›)
      (Stmt.sizeOf_lt_of_mem_functions ‹_›)
  · exact Nat.lt_trans (List.sizeOf_lt_of_mem ‹_›) (Stmt.sizeOf_lt_of_mem_staticBlocks ‹_›)

end

/-- Nothing is asked of trees and errors, and some errors are carried. -/
def Passage.following (carries : Fault → Prop)
    (hplaced : ∀ {f} span, carries f → carries (f.orSpan span)) :
    Passage where
  expr _ := True
  stmt _ := True
  fits _ := True
  carries := carries
  fits_fresh _ := trivial
  fits_expr _ _ := trivial
  fits_stmt _ _ := trivial
  fits_mention _ _ _ := trivial
  fits_static _ := trivial
  fits_source _ := trivial
  source _ s _ := s.throughout_true
  carries_orSpan := hplaced

section Following

variable {carries : Fault → Prop} {hplaced : ∀ {f} span, carries f → carries (f.orSpan span)}

theorem Activity.conforms_following (a : Activity) : a.Conforms (.following carries hplaced) := by
  cases a with
  | evaluate e => exact e.throughout_true
  | execute stmt => exact stmt.throughout_true
  | _ => trivial

theorem Passage.governs_following (w : World) : (Passage.following carries hplaced).Governs w where
  functions _ _ s _ := s.throughout_true
  staticBlocks _ _ _ _ s _ := s.throughout_true
  natives _ _ := trivial
  hostClasses _ _ := trivial
  environment := trivial

end Following

namespace Evaluation

variable {bare : Prop} {n m : Nat} {a b c : Activity} {w v u w' : World} {f : Fault}
    {Q : Fault → Prop}

/-! ## What does not pass an error on as it is -/

/-- A try statement with a handler, whose body waits for the activity. -/
def Handles (again : Calls) (a : Activity) (w : World) (b : Activity) (v : World) : Prop :=
  ∃ body clause cleanup span, a = .execute (.attempt body (some clause) cleanup span) ∧
    again.Awaits (executeBlock · body) w b v

/-- A try statement with a cleanup that does not end normally after the error. -/
def Replaces (again : Calls) (a : Activity) (w : World) (b : Activity) (v : World) : Prop :=
  ∃ body handler block span, a = .execute (.attempt body handler (some block) span) ∧
    again.Awaits (guarded · body handler) w b v ∧
    ∀ f u u', guarded again body handler w = .error f u →
      executeBlock again block u ≠ .ok .normal u'

/-- A call of the function that schedules jobs. -/
def HandsOff (a : Activity) (w : World) : Prop :=
  ∃ id args, a = .call (.native id) args ∧ Schedules w id

/-- A call that makes an instance of a class, whose static block waits for the activity. -/
def Wraps (again : Calls) (a : Activity) (w : World) (b : Activity) (v : World) : Prop :=
  ∃ id args k, a = .call (.scriptClass id) args ∧ w.heap.scriptClass? id = some k ∧
    again.Awaits (bakedValues · k) w b v

/-! ## One activity around another -/

/-- One activity waits for another and passes its error on. If it is `bare`, no static block is
between them. -/
structure Holds (bare : Prop) (n : Nat) (a : Activity) (w : World) (b : Activity) (v : World) :
    Prop where
  awaits : (machine n).Awaits (a.step n ·) w b v
  unhandled : ¬Handles (machine n) a w b v
  unreplaced : ¬Replaces (machine n) a w b v
  unscheduled : ¬HandsOff a w
  unwrapped : bare → ¬Wraps (machine n) a w b v

/-- One activity is inside another, any number of activities deep, and each passes the errors of the
one inside on. The numbers are the budgets that are left to the two. -/
inductive Encloses (bare : Prop) : Nat → Activity → World → Nat → Activity → World → Prop
  | self (n : Nat) (a : Activity) (w : World) : Encloses bare n a w n a w
  | around {n m : Nat} {a b c : Activity} {w v u : World} (h : Holds bare n a w b v)
      (hinner : Encloses bare n b v m c u) : Encloses bare (n + 1) a w m c u

section Carries

variable (hplaced : ∀ {f} span, Q f → Q (f.orSpan span))
include hplaced

theorem Holds.letsPass (h : Holds bare n a w b v)
    (hwrapped : bare ∨ ∀ name f, Q f → Q (staticFault name f)) :
    a.LetsPass (.following Q hplaced) (machine n) ((machine n).cutAt b v) w := by
  cases a with
  | execute stmt =>
    refine ⟨fun body clause cleanup span hstmt hstop =>
      h.unhandled ⟨body, clause, cleanup, span, congrArg _ hstmt, hstop⟩, ?_⟩
    intro body handler block span hstmt hstop f u herror
    by_contra hnone
    refine h.unreplaced ⟨body, handler, block, span, congrArg _ hstmt, hstop,
      fun f' u' v' herror' hnormal => ?_⟩
    cases herror.symm.trans herror'
    exact hnone ⟨v', hnormal⟩
  | call callee args =>
    refine ⟨?_, ?_⟩
    · rintro id rfl hschedules
      exact absurd ⟨id, args, rfl, hschedules⟩ h.unscheduled
    · rintro id k rfl hk hstop
      rcases hwrapped with hbare | hwrapped
      · exact absurd ⟨id, args, k, rfl, hk, hstop⟩ (h.unwrapped hbare)
      · exact hwrapped k.name
  | _ => trivial

theorem Holds.carries (h : Holds bare n a w b v)
    (hwrapped : bare ∨ ∀ name f, Q f → Q (staticFault name f))
    (hb : b.run (machine n) v = .error f u) (hf : Q f) :
    ∃ f' u', a.run (machine (n + 1)) w = .error f' u' ∧ Q f' := by
  have hcut : (machine n).Pass (.following Q hplaced) ((machine n).cutAt b v) :=
    (machine_pass _ n).cutAt fun _ _ => ⟨f, u, hb, hf⟩
  rw [Activity.run_succ]
  exact h.awaits.carries (a.step_passes hcut a.conforms_following n (Passage.governs_following w)
    (h.letsPass hplaced hwrapped))

/-- **What one activity fails with, every activity around it fails with**, as far as it is
carried. -/
theorem Encloses.carries (h : Encloses bare n a w m c u)
    (hwrapped : bare ∨ ∀ name f, Q f → Q (staticFault name f))
    (hc : c.run (machine m) u = .error f w') (hf : Q f) :
    ∃ f' u', a.run (machine n) w = .error f' u' ∧ Q f' := by
  induction h with
  | self n a w => exact ⟨f, w', hc, hf⟩
  | around h _ ih =>
    obtain ⟨f', u', hb, hf'⟩ := ih hc
    exact h.carries hplaced hwrapped hb hf'

end Carries

/-! ## What becomes of it -/

/-- **The place of an error is kept**, and with no static block on the way nothing else of it
changes either. -/
theorem Encloses.kept {span : Span} (h : Encloses bare n a w m c u)
    (hc : c.run (machine m) u = .error f w') (hf : f.span = some span) :
    ∃ f' u', a.run (machine n) w = .error f' u' ∧ f'.span = some span ∧ (bare → f' = f) := by
  by_cases hbare : bare
  · obtain ⟨f', u', ha, rfl⟩ := h.carries (Q := (· = f)) (fun other hf' => by
      rw [hf', Fault.orSpan_of_span hf]) (.inl hbare) hc rfl
    exact ⟨f', u', ha, hf, fun _ => rfl⟩
  · obtain ⟨f', u', ha, hf'⟩ := h.carries (Q := fun f' => f'.span = some span)
      (fun other hf' => Fault.span_orSpan_of_span hf' other) (.inr fun _ _ hf' => hf') hc hf
    exact ⟨f', u', ha, hf', fun h => absurd h hbare⟩

/-- **An error is placed at most once**, where no static block is on the way. -/
theorem Encloses.placed_once (h : Encloses True n a w m c u)
    (hc : c.run (machine m) u = .error f w') :
    ∃ f' u', a.run (machine n) w = .error f' u' ∧ (f' = f ∨ ∃ span, f' = f.orSpan span) := by
  refine h.carries (Q := fun f' => f' = f ∨ ∃ span, f' = f.orSpan span) (fun {f'} other hf' =>
    .inr ?_)
    (.inl trivial) hc (.inl rfl)
  rcases hf' with rfl | ⟨span, rfl⟩
  · exact ⟨other, rfl⟩
  · exact ⟨span, Fault.orSpan_orSpan f span other⟩

/-! ## Runs around activities -/

variable {ε α : Type} [Faulty ε]

/-- The run passes on the errors of what it starts. -/
def PassesOn (start : Calls → Run ε α) : Prop :=
  ∀ (Q : Fault → Prop) (hplaced : ∀ {f} span, Q f → Q (f.orSpan span)) (again : Calls)
    (cut : Stop → Calls), again.Pass (.following Q hplaced) cut →
    (start again).Passes (.following Q hplaced) fun s => start (cut s)

theorem executeBlock_passesOn (body : List Stmt) : PassesOn (executeBlock · body) :=
  fun _ _ _ _ h => executeBlock_passes h fun s _ => s.throughout_true

theorem interpret_passesOn (program : List Stmt) : PassesOn (interpret · program) :=
  fun _ _ _ _ h => interpretAfter_passes h .null fun s _ => s.throughout_true

theorem PassesOn.inFrame {start : Calls → Run ε α} (h : PassesOn start) (shift : Shift) :
    PassesOn fun again => Run.inFrame shift.apply (start again) :=
  fun Q hplaced again cut hagain => .inFrame shift (h Q hplaced again cut hagain)

theorem PassesOn.carries {start : Calls → Run ε α} (h : PassesOn start)
    (hawaits : (machine n).Awaits start w b v) (hplaced : ∀ {f} span, Q f → Q (f.orSpan span))
    (hb : b.run (machine n) v = .error f u) (hf : Q f) :
    ∃ e u', start (machine n) w = .error e u' ∧ Q (fault e) := by
  have hcut : (machine n).Pass (.following Q hplaced) ((machine n).cutAt b v) :=
    (machine_pass _ n).cutAt fun _ _ => ⟨f, u, hb, hf⟩
  exact hawaits.carries (h Q hplaced _ _ hcut w (Passage.governs_following w))

/-- **An error that is placed goes out** to a run that starts what it comes from. -/
theorem PassesOn.kept {start : Calls → Run ε α} {span : Span} (h : PassesOn start)
    (hawaits : (machine n).Awaits start w b v) (hinner : Encloses bare n b v m c u)
    (hc : c.run (machine m) u = .error f w') (hf : f.span = some span) :
    ∃ e u', start (machine n) w = .error e u' ∧ (fault e).span = some span ∧
      (bare → fault e = f) := by
  obtain ⟨f', u', hb, hspan, hsame⟩ := hinner.kept hc hf
  obtain ⟨e, u', hstart, rfl⟩ := h.carries hawaits (Q := (· = f')) (fun other hf' => by
    rw [hf', Fault.orSpan_of_span hspan]) hb rfl
  exact ⟨e, u', hstart, hspan, hsame⟩

end Evaluation

end ScriptEngine
