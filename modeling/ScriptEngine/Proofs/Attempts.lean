import ScriptEngine.Proofs.ErrorPlaces
/-!
# Bodies, handlers and cleanups

A try statement executes its body, then its handler if the body failed, and then its cleanup. Only
an error leads to the handler; a break, a continue and a return go past it. The cleanup is executed
however the blocks before it ended. If it ends with a signal or an error the statement ends so, and
otherwise as the last block before it ended.

* `Turn` : a block that was executed, with the end it had and the states around it.
* `Course` : which blocks of a try statement were executed, from which states, and how the statement
  ended.
* `Evaluation.attempt_eq_ended_iff` : a try statement ends exactly by such a course.
* **`Evaluation.execute_attempt_iff`** : the same in the course of a run, where errors are placed:
  that of a try statement is the one that a block of it ended with.

This is `execute_try`, whatever its blocks are and whatever they start. A block that never ends is
no part of a course: then the statement never ends either.
-/

namespace ScriptEngine

open Run Evaluation

/-- The end of a run with a value or an error. -/
def Outcome.ended {ε α : Type} : Except ε α → World → Outcome ε α
  | .ok a, w => .ok a w
  | .error e, w => .error e w

/-- A run stops, or it ends. -/
theorem Outcome.stopped_or_ended {ε α : Type} (o : Outcome ε α) :
    (∃ s, o = .stopped s) ∨ ∃ ending w, o = .ended ending w := by
  cases o with
  | ok a w => exact .inr ⟨.ok a, w, rfl⟩
  | error e w => exact .inr ⟨.error e, w, rfl⟩
  | stopped s => exact .inl ⟨s, rfl⟩

theorem Outcome.ended_inj {ε α : Type} {e e' : Except ε α} {w w' : World}
    (h : Outcome.ended e w = .ended e' w') :
    e = e' ∧ w = w' := by
  cases e <;> cases e' <;> cases h <;> exact ⟨rfl, rfl⟩

theorem Outcome.stopped_ne_ended {ε α : Type} {s : Stop} {e : Except ε α} {w : World} :
    (Outcome.stopped s : Outcome ε α) ≠ .ended e w := by
  cases e <;> nofun

/-- A block that was executed: how it ended, and the states before and after it. -/
structure Turn where
  before : World
  ending : Except Fault Flow
  after : World

/-- The turn is a run of the block. -/
def Turn.IsRun (t : Turn) (block : Script Flow) : Prop := block t.before = .ended t.ending t.after

/-- What leads to the end of the body and the handler of a try statement: the turn of the body, and
the turn of the handler if it has one. -/
structure Pending (again : Calls) (body : List Stmt) (handler : Option (String × List Stmt))
    (w : World) (first : Turn) (second : Option Turn) : Prop where
  /-- The body starts where the statement does. -/
  starts : first.before = w
  /-- The body is executed, in a scope of its own. -/
  body : first.IsRun (executeBlock again body)
  /-- The handler is executed exactly if there is one and the body ended with an error. -/
  caught_iff : second.isSome ↔ (∃ f, first.ending = .error f) ∧ handler.isSome
  /-- It starts where the body ended, and is executed in a scope of its own, in which its name is
  bound to an object that holds the message and the line of the error. -/
  handler : ∀ t ∈ second, t.before = first.after ∧ ∃ name block f, handler = some (name, block) ∧
    first.ending = .error f ∧ t.IsRun fun v =>
      executeIn again (handlerStart name (reportOf f f.line) v).1 block
        (handlerStart name (reportOf f f.line) v).2

/-- The course of a try statement: the turn of the body, and the turns of the handler and the
cleanup if they have one. -/
structure Course (again : Calls) (body : List Stmt) (handler : Option (String × List Stmt))
    (cleanup : Option (List Stmt)) (w : World) (first : Turn) (second third : Option Turn)
    (ending : Except Fault Flow) (w' : World) :
    Prop extends Pending again body handler w first second where
  /-- The cleanup is executed exactly if there is one, whatever came before. -/
  cleaned_iff : third.isSome ↔ cleanup.isSome
  /-- It starts where the handler ended, or else the body, and is executed in a scope of its own. -/
  cleanup : ∀ t ∈ third, t.before = (second.getD first).after ∧ ∃ block, cleanup = some block ∧
    t.IsRun (executeBlock again block)
  /-- The statement ends where the last block did. -/
  finishes : w' = (third.getD (second.getD first)).after
  /-- A cleanup that ends with a signal or an error decides how the statement ends. -/
  overrules : ∀ t ∈ third, t.ending ≠ .ok .normal → ending = t.ending
  /-- Otherwise the statement ends as the handler did, or else the body. -/
  resumes : (∀ t ∈ third, t.ending = .ok .normal) → ending = (second.getD first).ending

namespace Evaluation

variable {again : Calls} {body block : List Stmt} {handler : Option (String × List Stmt)}
  {cleanup : Option (List Stmt)} {w w' v : World} {ending : Except Fault Flow} {first : Turn}
  {second third : Option Turn}

/-! ## Bodies and handlers -/

/-- A body that does not fail has no use for a handler. -/
theorem guarded_of_flow {flow : Flow} (hbody : executeBlock again body w = .ended (.ok flow) v) :
    guarded again body handler w = .ended (.ok flow) v := by
  rw [Outcome.ended] at hbody
  simp only [guarded, Bind.bind, Run.attempt, hbody]
  rfl

theorem guarded_of_stopped {s : Stop} (hbody : executeBlock again body w = .stopped s) :
    guarded again body handler w = .stopped s := by
  simp only [guarded, Bind.bind, Run.attempt, hbody]

/-- **A body and its handler** end as the handler does if it is executed, and as the body does if
not. -/
theorem guarded_eq_ended_iff : guarded again body handler w = .ended ending w' ↔
    ∃ first second, Pending again body handler w first second ∧ (second.getD first).ending =
      ending ∧
      (second.getD first).after = w' := by
  constructor
  · intro hends
    obtain ⟨s, hbody⟩ | ⟨e, v, hbody⟩ := (executeBlock again body w).stopped_or_ended
    · rw [guarded_of_stopped hbody] at hends
      exact absurd hends Outcome.stopped_ne_ended
    cases e with
    | ok flow =>
      rw [guarded_of_flow hbody] at hends
      obtain ⟨rfl, rfl⟩ := Outcome.ended_inj hends
      exact ⟨⟨w, .ok flow, v⟩, none, ⟨rfl, hbody, by simp, fun _ ht => nomatch ht⟩, rfl, rfl⟩
    | error f =>
      cases handler with
      | none =>
        rw [guarded_none, hbody] at hends
        obtain ⟨rfl, rfl⟩ := Outcome.ended_inj hends
        exact ⟨⟨w, .error f, v⟩, none, ⟨rfl, hbody, by simp, fun _ ht => nomatch ht⟩, rfl, rfl⟩
      | some clause =>
        obtain ⟨name, block⟩ := clause
        rw [guarded_of_error hbody, handle_eq_executeIn] at hends
        refine ⟨⟨w, .error f, v⟩, some ⟨v, ending, w'⟩, ⟨rfl, hbody, by simp, ?_⟩, rfl, rfl⟩
        rintro _ ⟨⟩
        exact ⟨rfl, name, block, f, rfl, rfl, hends⟩
  · rintro ⟨first, second, hpending, rfl, rfl⟩
    obtain ⟨rfl, hbody, hcaught, hhandler⟩ := hpending
    obtain ⟨w, ending, v⟩ := first
    cases second with
    | some t =>
      obtain ⟨hbefore, name, block, f, rfl, hfailed, hturn⟩ := hhandler t rfl
      obtain ⟨v', ending', u⟩ := t
      cases hbefore
      cases hfailed
      rw [guarded_of_error hbody, handle_eq_executeIn]
      exact hturn
    | none =>
      cases ending with
      | ok flow => exact guarded_of_flow hbody
      | error f =>
        cases handler with
        | none => exact (guarded_none again body w).trans hbody
        | some clause => exact absurd (hcaught.mpr ⟨⟨f, rfl⟩, rfl⟩) nofun

/-! ## Cleanups -/

/-- With a cleanup, how the blocks before it ended is kept, and the cleanup is executed from where
they did. -/
theorem attempt_of_guarded_ended (hguarded : guarded again body handler w = .ended ending v) :
    attempt again body handler (some block) w =
      (do match ← executeBlock again block with
          | .normal => Run.ofExcept ending
          | flow => return flow : Script Flow) v := by
  have hkept : (Run.attempt (guarded again body handler) : Script (Except Fault Flow)) w =
      .ok ending v := by
    simp only [Run.attempt, hguarded]
    cases ending <;> rfl
  exact bind_of_ok hkept

/-- A cleanup that ends normally leaves the end of the blocks before it as it was; any other end
takes its place. -/
theorem attempt_of_ended {e : Except Fault Flow} {u : World}
    (hguarded : guarded again body handler w = .ended ending v)
    (hblock : executeBlock again block v = .ended e u) :
    ∃ ending', attempt again body handler (some block) w = .ended ending' u ∧
      (e ≠ .ok .normal → ending' = e) ∧ (e = .ok .normal → ending' = ending) := by
  rw [attempt_of_guarded_ended hguarded]
  cases e with
  | error f => exact ⟨.error f, bind_of_error hblock, fun _ => rfl, nofun⟩
  | ok flow =>
    rw [bind_of_ok hblock]
    cases flow with
    | normal => cases ending <;> exact ⟨_, rfl, fun hne => absurd rfl hne, fun _ => rfl⟩
    | brk | cont | ret => exact ⟨_, rfl, fun _ => rfl, nofun⟩

theorem attempt_of_guarded_stopped {s : Stop}
    (hguarded : guarded again body handler w = .stopped s) :
    attempt again body handler cleanup w = .stopped s := by
  cases cleanup with
  | none => exact hguarded
  | some block => exact bind_of_stopped (by simp only [Run.attempt, hguarded])

theorem attempt_of_block_stopped {s : Stop}
    (hguarded : guarded again body handler w = .ended ending v)
    (hblock : executeBlock again block v = .stopped s) :
    attempt again body handler (some block) w = .stopped s :=
  (attempt_of_guarded_ended hguarded).trans (bind_of_stopped hblock)

/-- **A try statement** ends exactly by a course of its blocks. -/
theorem attempt_eq_ended_iff : attempt again body handler cleanup w = .ended ending w' ↔
    ∃ first second third, Course again body handler cleanup w first second third ending w' := by
  constructor
  · intro hends
    obtain ⟨s, hguarded⟩ | ⟨e, v, hguarded⟩ := (guarded again body handler w).stopped_or_ended
    · rw [attempt_of_guarded_stopped hguarded] at hends
      exact absurd hends Outcome.stopped_ne_ended
    obtain ⟨first, second, hpending, rfl, rfl⟩ := guarded_eq_ended_iff.mp hguarded
    cases cleanup with
    | none =>
      obtain ⟨rfl, rfl⟩ := Outcome.ended_inj (hguarded.symm.trans hends)
      exact ⟨first, second, none, hpending, Iff.rfl, fun _ ht => (nomatch ht), rfl, fun _ ht =>
        (nomatch ht), fun _ => rfl⟩
    | some block =>
      obtain ⟨s, hblock⟩ | ⟨e, u, hblock⟩ :=
        (executeBlock again block (second.getD first).after).stopped_or_ended
      · rw [attempt_of_block_stopped hguarded hblock] at hends
        exact absurd hends Outcome.stopped_ne_ended
      obtain ⟨ending', hattempt, hoverrules, hresumes⟩ := attempt_of_ended hguarded hblock
      obtain ⟨rfl, rfl⟩ := Outcome.ended_inj (hattempt.symm.trans hends)
      refine ⟨first, second, some ⟨(second.getD first).after, e, u⟩, hpending, Iff.rfl, ?_, rfl, ?_,
        ?_⟩
      · rintro _ ⟨⟩
        exact ⟨rfl, block, rfl, hblock⟩
      · rintro _ ⟨⟩
        exact hoverrules
      · exact fun hnormal => hresumes (hnormal _ rfl)
  · intro ⟨first, second, third, hcourse⟩
    have hguarded := guarded_eq_ended_iff.mpr ⟨first, second, hcourse.toPending, rfl, rfl⟩
    cases third with
    | none =>
      cases cleanup with
      | some block => exact absurd (hcourse.cleaned_iff.mpr rfl) nofun
      | none =>
        rw [hcourse.finishes, hcourse.resumes fun _ ht => nomatch ht]
        exact hguarded
    | some t =>
      obtain ⟨hbefore, block, rfl, hturn⟩ := hcourse.cleanup t rfl
      rw [Turn.IsRun, hbefore] at hturn
      obtain ⟨ending', hattempt, hoverrules, hresumes⟩ := attempt_of_ended hguarded hturn
      rw [hattempt, hcourse.finishes]
      by_cases hnormal : t.ending = .ok .normal
      · have hall : ∀ t' ∈ some t, t'.ending = .ok .normal := by
          rintro _ ⟨⟩
          exact hnormal
        rw [hresumes hnormal, hcourse.resumes hall]
        rfl
      · rw [hoverrules hnormal, hcourse.overrules t rfl hnormal]
        rfl

/-! ## In the course of a run -/

/-- What a turn of a block that places its errors fails with is placed. -/
theorem placed_of_isRun {t : Turn} {f : Fault} {r : Script Flow} (hturn : t.IsRun r)
    (hplacing : r.Placing) (hf : t.ending = .error f) : ∃ span, f.span = some span := by
  rw [Turn.IsRun, hf] at hturn
  exact hplacing _ _ _ hturn

/-- What a try statement fails with, one of its blocks has placed. -/
theorem attempt_placing (n : Nat) (body : List Stmt) (handler : Option (String × List Stmt))
    (cleanup : Option (List Stmt)) : (attempt (machine n) body handler cleanup).Placing := by
  intro w f u hfails
  have hends : attempt (machine n) body handler cleanup w = .ended (.error f) u := hfails
  obtain ⟨first, second, third, hcourse⟩ := attempt_eq_ended_iff.mp hends
  by_cases hnormal : ∀ t ∈ third, t.ending = .ok .normal
  · have hpending : (second.getD first).ending = .error f := (hcourse.resumes hnormal).symm
    cases second with
    | none => exact placed_of_isRun hcourse.body (executeBlock_placing n body) hpending
    | some t =>
      obtain ⟨-, name, block, f', -, -, hturn⟩ := hcourse.handler t rfl
      exact placed_of_isRun hturn (fun v => executeIn_placing n _ block _) hpending
  · obtain ⟨t, hoverruled⟩ := not_forall.mp hnormal
    obtain ⟨ht, hne⟩ := Classical.not_imp.mp hoverruled
    obtain ⟨-, block, -, hturn⟩ := hcourse.cleanup t ht
    exact placed_of_isRun hturn (executeBlock_placing n block) (hcourse.overrules t ht hne).symm

/-- **A try statement ends by a course of its blocks**, in whatever state it is executed and however
they end. The body is executed once; the handler once, exactly if there is one and the body failed;
and the cleanup once after them, if there is one, however they ended. A cleanup that ends with a
signal or an error decides how the statement ends, and otherwise the handler does if it was executed
and the body if not: with the same signal and the same value, or with the same error at the same
place. -/
theorem execute_attempt_iff (n : Nat) (body : List Stmt) (handler : Option (String × List Stmt))
    (cleanup : Option (List Stmt)) (span : Span) (w w' : World) (ending : Except Fault Flow) :
    (machine (n + 1)).execute (.attempt body handler cleanup span) w = .ended ending w' ↔
      ∃ first second third, Course (machine n) body handler cleanup w first second third ending
        w' := by
  have hexecute : (machine (n + 1)).execute (.attempt body handler cleanup span) =
      attempt (machine n) body handler cleanup :=
        (attempt_placing n body handler cleanup).placedAt_eq span
  rw [hexecute]
  exact attempt_eq_ended_iff

end Evaluation

end ScriptEngine
