import ScriptEngine.Run
/-!
# Runs and scopes one step at a time

* `Run.bind_of_ok`, `Run.mapError_of_error`, … : how a run ends, given how its first part ends.
* `Run.repeatUntil_succ`, `Run.forEach_cons` : a loop as its first round and the rest.
* `Run.Looks` : runs that leave the state as it was.
* `Heap.binding_bind_self`, `Heap.lookup_addChild` : what a scope knows after a change.
-/

namespace ScriptEngine

namespace Run

variable {ε δ α β : Type} {r : Run ε α} {w w' : World} {s : Stop}

theorem bind_assoc_run {γ : Type} (r : Run ε α) (k : α → Run ε β) (k' : β → Run ε γ) :
    r >>= k >>= k' = r >>= fun a => k a >>= k' := by
  funext w
  simp only [Bind.bind]
  cases r w <;> rfl

theorem bind_pure_run (r : Run ε α) : r >>= pure = r := by
  funext w
  simp only [Bind.bind]
  cases r w <;> rfl

instance : LawfulMonad (Run ε) :=
  LawfulMonad.mk' (Run ε) bind_pure_run (fun _ _ => rfl) bind_assoc_run

theorem bind_congr_at {r' : Run ε α} (k : α → Run ε β) (h : r w = r' w) :
    (r >>= k) w = (r' >>= k) w := by
  simp only [Bind.bind, h]

theorem bind_of_ok {k : α → Run ε β} {a : α} (h : r w = .ok a w') : (r >>= k) w = k a w' := by
  simp only [Bind.bind, h]

/-- A run that ends well has done its first part. -/
theorem ok_of_bind {k : α → Run ε β} {b : β} (h : (r >>= k) w = .ok b w') :
    ∃ a w₁, r w = .ok a w₁ ∧ k a w₁ = .ok b w' := by
  simp only [Bind.bind] at h
  cases hr : r w with
  | ok a w₁ =>
    rw [hr] at h
    exact ⟨a, w₁, rfl, h⟩
  | error e w₁ => rw [hr] at h; cases h
  | stopped s => rw [hr] at h; cases h

theorem ok_of_mapError {g : ε → δ} {a : α} (h : r.mapError g w = .ok a w') : r w = .ok a w' := by
  unfold Run.mapError at h
  cases hr : r w with
  | ok a w₁ => rw [hr] at h; cases h; rfl
  | error e w₁ => rw [hr] at h; cases h
  | stopped s => rw [hr] at h; cases h

theorem read_of_eq {f : World → α} {a : α} (h : f w = a) : (Run.read f : Run ε α) w = .ok a w := by
  rw [← h]
  rfl

theorem bind_of_stopped {k : α → Run ε β} (h : r w = .stopped s) : (r >>= k) w = .stopped s := by
  simp only [Bind.bind, h]

theorem mapError_of_ok {g : ε → δ} {a : α} (h : r w = .ok a w') : r.mapError g w = .ok a w' := by
  unfold Run.mapError
  rw [h]

theorem mapError_of_error {g : ε → δ} {e : ε} (h : r w = .error e w') :
    r.mapError g w = .error (g e) w' := by
  unfold Run.mapError
  rw [h]

theorem mapError_of_stopped {g : ε → δ} (h : r w = .stopped s) : r.mapError g w = .stopped s := by
  unfold Run.mapError
  rw [h]

theorem mapError_congr_at {r' : Run ε α} (g : ε → δ) (h : r w = r' w) :
    r.mapError g w = r'.mapError g w := by
  unfold Run.mapError
  rw [h]

theorem inFrame_of_stopped {g : Frame → Frame} (h : r { w with frame := g w.frame } = .stopped s) :
    Run.inFrame g r w = .stopped s := by
  unfold Run.inFrame
  simp only
  rw [h]

/-! ### Loops -/

/-- A round is followed by the others unless it has a result. -/
theorem repeatUntil_succ (r : Run ε (Option α)) (rounds : Nat) :
    Run.repeatUntil r (rounds + 1) = r >>= fun o => o.elim (Run.repeatUntil r rounds) pure := by
  funext w
  simp only [Bind.bind, Run.repeatUntil]
  rcases r w with ⟨_ | a, w'⟩ | _ | _ <;> rfl

/-- The run for an item is followed by those for the others unless it has a result. -/
theorem forEach_cons (r : β → Run ε (Option α)) (final : α) (b : β) (bs : List β) :
    Run.forEach r final (b :: bs) = r b >>= fun o => o.elim (Run.forEach r final bs) pure := by
  funext w
  simp only [Bind.bind, Run.forEach]
  rcases r b w with ⟨_ | a, w'⟩ | _ | _ <;> rfl

/-! ### Runs that only look -/

/-- Whatever the run answers, it leaves the state as it was. -/
def Looks (r : Run ε α) : Prop :=
  ∀ w, match r w with
    | .ok _ w' | .error _ w' => w' = w
    | .stopped _ => True

namespace Looks

theorem pure (a : α) : (pure a : Run ε α).Looks := fun _ => rfl

theorem raise (e : ε) : (Run.raise e : Run ε α).Looks := fun _ => rfl

theorem read (f : World → α) : (Run.read f : Run ε α).Looks := fun _ => rfl

theorem bind {k : α → Run ε β} (hr : r.Looks) (hk : ∀ a, (k a).Looks) : (r >>= k).Looks := by
  intro w
  have := hr w
  simp only [Bind.bind]
  cases hw : r w <;> simp only [hw] at this ⊢
  · subst this
    exact hk _ _
  · exact this

theorem attempt (hr : r.Looks) : (Run.attempt r : Run δ (Except ε α)).Looks := by
  intro w
  have := hr w
  unfold Run.attempt
  cases hw : r w <;> simp only [hw] at this ⊢ <;> exact this

theorem collect {k : β → Run ε α} (hk : ∀ b, (k b).Looks) : ∀ bs, (Run.collect k bs).Looks
  | [] => pure []
  | b :: bs => bind (hk b) fun _ => bind (collect hk bs) fun _ => pure _

theorem eq_of_ok {a : α} (hr : r.Looks) (hw : r w = .ok a w') : w' = w := by
  have := hr w
  rw [hw] at this
  exact this

end Looks

end Run

/-! ## Scopes -/

theorem lookup_putBinding (name : String) (b : Binding) (bindings : List (String × Binding)) :
    (putBinding name b bindings).lookup name = some b := by
  unfold putBinding
  split
  · rename_i h
    induction bindings with
    | nil => cases h
    | cons e bindings ih =>
      rw [List.map_cons]
      by_cases he : e.1 == name
      · rw [if_pos he]
        simp
      · rw [if_neg he]
        have hne : (name == e.1) = false := by
          rw [beq_eq_false_iff_ne]
          rintro rfl
          exact he (beq_self_eq_true _)
        rw [List.any_cons, Bool.or_eq_true, or_iff_right he] at h
        rw [List.lookup_cons, hne]
        exact ih h
  · simp

namespace Heap

theorem binding_bind_self {h : Heap} {s : ScopeId} (hs : s.index < h.scopes.size) (name : String)
    (b : Binding) : ((h.bind s name b).scope s).binding? name = some b := by
  have hscope : (h.bind s name b).scope s =
      { h.scope s with bindings := putBinding name b (h.scope s).bindings } := by
    simp [Heap.scope, Heap.bind, Array.getD, hs, Array.getElem_modify]
  rw [hscope]
  exact lookup_putBinding name b _

/-- A new scope leaves the globals as they are. -/
theorem scope_addChild_global {h : Heap} (hsize : 0 < h.scopes.size) :
    (h.addChild globalScope).2.scope globalScope = h.scope globalScope := by
  have hlt : globalScope.index < h.scopes.size := hsize
  have hpush : globalScope.index < (h.scopes.push ⟨some globalScope, []⟩).size := by
    rw [Array.size_push]
    exact Nat.lt_succ_of_lt hlt
  unfold Heap.scope Heap.addChild
  rw [Array.getD, dif_pos hpush, Array.getD, dif_pos hlt]
  exact Array.getElem_push_lt hlt

/-- A scope inside the globals knows what they know. -/
theorem lookup_addChild {h : Heap} {name : String} {b : Binding}
    (hb : (h.scope globalScope).binding? name = some b) (hsize : 0 < h.scopes.size) :
    (h.addChild globalScope).2.lookup (h.addChild globalScope).1 name = some b.value := by
  have hnew : (h.addChild globalScope).2.scope (h.addChild globalScope).1 =
      ⟨some globalScope, []⟩ := by
    simp [Heap.scope, Heap.addChild, Array.getD]
  have hglobal := scope_addChild_global hsize
  rw [← hglobal] at hb
  obtain ⟨n, hn⟩ : ∃ n, (h.addChild globalScope).1.index = n + 1 :=
    ⟨_, (Nat.succ_pred_eq_of_pos hsize).symm⟩
  have hfrom : (h.addChild globalScope).2.findFrom name (n + 1) globalScope =
      some (globalScope, b) := by
    unfold Heap.findFrom
    simp only [hb]
  unfold Heap.lookup Heap.find?
  rw [hn, Heap.findFrom, hnew]
  exact congrArg (Option.map (·.2.value)) hfrom

end Heap

end ScriptEngine
