import ScriptEngine.Proofs.Walk.Law
/-!
# Runs under a law

A run obeys a law at a place if, started in states that the law holds of, it ends in such states
again, however it ends: with a result of which something is known, with an error that fits, or
stopped for a reason there is. The other runs end alike, but for two cases: where the law is lax,
the run may be exhausted earlier than they are; and where something that the run waits for is cut
off in the others, an error may be carried that they stop short of.

A law is a relation between runs that is closed under every way to put runs together. Here is one
rule for each way in `Run`, and one for each thing that `Script` does to a scope.

* `Faulty` : errors that a script sees as faults.
* `Outcome.Obeys`, `Run.ObeysAt`, `Run.Obeys` : ends, runs in given states, and runs.
* `Run.Lawful` : a run that is compared with itself.
* `Run.Obeys.andThen`, `Run.Obeys.attempt`, `Run.Obeys.inFrame`, `Run.Obeys.asCall`, … : the rules.
* `Run.Obeys.inChild` : what is done in a new scope.
-/

namespace ScriptEngine

open Run

/-- Errors that a script sees as faults. -/
class Faulty (ε : Type) where
  fault : ε → Fault

instance : Faulty Fault := ⟨id⟩

instance : Faulty HostError := ⟨HostError.toFault⟩

open Faulty (fault)

variable {L : Law} {p q : L.Place} {h h' : Heap} {w : World} {w' : L.Case → World} {ε δ α β : Type}

/-! ## Outcomes -/

namespace Outcome

/-- The same outcome with another state. -/
def mapWorld (g : World → World) : Outcome ε α → Outcome ε α
  | .ok a w => .ok a (g w)
  | .error e w => .error e (g w)
  | .stopped s => .stopped s

/-- The end of a run that goes on as `k` does after this one. -/
def andThen (k : α → Run ε β) : Outcome ε α → Outcome ε β
  | .ok a w => k a w
  | .error e w => .error e w
  | .stopped s => .stopped s

/-- The same outcome with another error. -/
def mapError (g : ε → δ) : Outcome ε α → Outcome δ α
  | .ok a w => .ok a w
  | .error e w => .error (g e) w
  | .stopped s => .stopped s

/-- The outcome whose error is a value. -/
def attempt : Outcome ε α → Outcome δ (Except ε α)
  | .ok a w => .ok (.ok a) w
  | .error e w => .ok (.error e) w
  | .stopped s => .stopped s

variable [Faulty ε] [Faulty δ]

/-- Ends that the law allows at a place for runs that were started with the heap `h`. -/
inductive Obeys (L : Law) (p : L.Place) (h : Heap) (Q : Heap → α → Prop) :
    Outcome ε α → (L.Case → Outcome ε α) → Prop
  | ok {a : α} {w : World} {w' : L.Case → World} (hw : L.Holds p w w') (hk : L.Keeps p h w.heap)
      (ha : Q w.heap a) : Obeys L p h Q (.ok a w) fun i => .ok a (w' i)
  | error {e : ε} {w : World} {w' : L.Case → World} (hw : L.Holds p w w') (hk : L.Keeps p h w.heap)
      (he : L.fits (fault e)) : Obeys L p h Q (.error e w) fun i => .error e (w' i)
  | stopped {s : Stop} (hs : L.stops s) : Obeys L p h Q (.stopped s) fun _ => .stopped s
  | exhausted (hlax : L.lax) (o' : L.Case → Outcome ε α) : Obeys L p h Q (.stopped .exhausted) o'
  | carried {e : ε} (w : World) (he : L.carries (fault e)) :
      Obeys L p h Q (.error e w) fun i => .stopped (L.cut i)

namespace Obeys

variable {Q R : Heap → α → Prop} {o : Outcome ε α} {o' : L.Case → Outcome ε α}

theorem of_ok {a : α} (ho : ∀ i, o' i = .ok a (w' i)) (hw : L.Holds p w w')
    (hk : L.Keeps p h w.heap) (ha : Q w.heap a) :
    (Outcome.ok a w : Outcome ε α).Obeys L p h Q o' := by
  obtain rfl : o' = fun i => .ok a (w' i) := funext ho
  exact .ok hw hk ha

theorem of_error {e : ε} (ho : ∀ i, o' i = .error e (w' i)) (hw : L.Holds p w w')
    (hk : L.Keeps p h w.heap) (he : L.fits (fault e)) :
    (Outcome.error e w : Outcome ε α).Obeys L p h Q o' := by
  obtain rfl : o' = fun i => .error e (w' i) := funext ho
  exact .error hw hk he

theorem of_stopped {s : Stop} (ho : ∀ i, o' i = .stopped s) (hs : L.stops s) :
    (Outcome.stopped s : Outcome ε α).Obeys L p h Q o' := by
  obtain rfl : o' = fun _ => .stopped s := funext ho
  exact .stopped hs

/-- What is known of states and results may be put in other words. -/
theorem imp {h₀ : Heap} (ho : o.Obeys L q h Q o')
    (hw : ∀ w w', L.Holds q w w' → L.Keeps q h w.heap → L.Holds p w w' ∧ L.Keeps p h₀ w.heap)
    (hQ : ∀ h' a, L.Later h h' → Q h' a → R h' a) : o.Obeys L p h₀ R o' := by
  cases ho with
  | ok hv hk ha => exact .ok (hw _ _ hv hk).1 (hw _ _ hv hk).2 (hQ _ _ (L.later_of_keeps hk) ha)
  | error hv hk he => exact .error (hw _ _ hv hk).1 (hw _ _ hv hk).2 he
  | stopped hs => exact .stopped hs
  | exhausted hlax => exact .exhausted hlax _
  | carried v he => exact .carried v he

/-- What happened before is part of what happened. -/
theorem since {h₀ : Heap} (ho : o.Obeys L p h Q o') (hk : L.Keeps p h₀ h) : o.Obeys L p h₀ Q o' :=
  ho.imp (fun _ _ hw hk' => ⟨hw, L.keeps_trans hk hk'⟩) fun _ _ _ => id

theorem andThen {k : α → Run ε β} {k' : L.Case → α → Run ε β} {R : Heap → β → Prop}
    (ho : o.Obeys L p h Q o')
    (hk : ∀ a w w', o = .ok a w → L.Holds p w w' → L.Keeps p h w.heap → Q w.heap a →
      (k a w).Obeys L p w.heap R fun i => k' i a (w' i)) :
    (o.andThen k).Obeys L p h R fun i => (o' i).andThen (k' i) := by
  cases ho with
  | ok hw hkept ha => exact (hk _ _ _ rfl hw hkept ha).since hkept
  | error hw hkept he => exact .error hw hkept he
  | stopped hs => exact .stopped hs
  | exhausted hlax => exact .exhausted hlax _
  | carried v he => exact .carried v he

theorem mapError {g : ε → δ} (ho : o.Obeys L p h Q o')
    (hfits : ∀ e, L.fits (fault e) → L.fits (fault (g e)))
    (hcarries : ∀ e, (∀ i, o' i = .stopped (L.cut i)) → L.carries (fault e) →
      L.carries (fault (g e))) :
    (o.mapError g).Obeys L p h Q fun i => (o' i).mapError g := by
  cases ho with
  | ok hw hk ha => exact .ok hw hk ha
  | error hw hk he => exact .error hw hk (hfits _ he)
  | stopped hs => exact .stopped hs
  | exhausted hlax => exact .exhausted hlax _
  | carried v he => exact .carried v (hcarries _ (fun _ => rfl) he)

/-- What becomes of an attempt: a result of which something is known, or an error that fits. -/
def Tried (L : Law) (Q : Heap → α → Prop) (h : Heap) : Except ε α → Prop
  | .ok a => Q h a
  | .error e => L.fits (fault e)

/-- An error becomes a value unless it is carried. -/
theorem attempt (ho : o.Obeys L p h Q o')
    (hcarries : ∀ e w, o = .error e w → (∀ i, o' i = .stopped (L.cut i)) → ¬L.carries (fault e)) :
    (o.attempt : Outcome δ (Except ε α)).Obeys L p h (Tried L Q) fun i => (o' i).attempt := by
  cases ho with
  | ok hw hk ha => exact .ok hw hk ha
  | error hw hk he => exact .ok hw hk he
  | stopped hs => exact .stopped hs
  | exhausted hlax => exact .exhausted hlax _
  | carried v he => exact absurd he (hcarries _ v rfl fun _ => rfl)

/-- What follows an attempt. An error that is carried goes on being carried if it is raised
again. -/
theorem attemptThen {k : Except ε α → Run ε β} {k' : L.Case → Except ε α → Run ε β}
    {R : Heap → β → Prop} (ho : o.Obeys L p h Q o')
    (hk : ∀ x w w', L.Holds p w w' → L.Keeps p h w.heap → Tried L Q w.heap x →
      (k x w).Obeys L p w.heap R fun i => k' i x (w' i))
    (hraised : ∀ e w, o = .error e w → (∀ i, o' i = .stopped (L.cut i)) → L.carries (fault e) →
      ∃ v, k (.error e) w = .error e v) :
    (o.attempt.andThen k).Obeys L p h R fun i => ((o' i).attempt : Outcome ε (Except ε α)).andThen
      (k' i) := by
  cases ho with
  | ok hw hkept ha => exact (hk (.ok _) _ _ hw hkept ha).since hkept
  | error hw hkept he => exact (hk (.error _) _ _ hw hkept he).since hkept
  | stopped hs => exact .stopped hs
  | exhausted hlax => exact .exhausted hlax _
  | carried v he =>
    obtain ⟨v', hk'⟩ := hraised _ v rfl (fun _ => rfl) he
    simp only [Outcome.attempt, Outcome.andThen, hk']
    exact .carried v' he

/-- Where no errors are carried, those of the law are not carried either. -/
theorem handled {o' : L.unhandled.Case → Outcome ε α} (ho : o.Obeys L.unhandled p h Q o') :
    o.Obeys L p h Q o' := by
  cases ho with
  | ok hw hk ha => exact .ok hw hk ha
  | error hw hk he => exact .error hw hk he
  | stopped hs => exact .stopped hs
  | exhausted hlax o' => exact exhausted (L := L) hlax o'
  | carried v he => exact he.elim

/-- What is restored after all runs. -/
theorem mapWorld {g : World → World} {g' : L.Case → World → World} (ho : o.Obeys L q h Q o')
    (hheap : ∀ w, (g w).heap = w.heap)
    (hw : ∀ w w', L.Holds q w w' → L.Keeps q h w.heap → L.Holds p (g w) fun i => g' i (w' i))
    (hk : ∀ h', L.Keeps q h h' → L.Keeps p h h') :
    (o.mapWorld g).Obeys L p h Q fun i => (o' i).mapWorld (g' i) := by
  cases ho with
  | ok hv hkept ha =>
    refine .ok (hw _ _ hv hkept) ?_ ?_
    · rw [hheap]
      exact hk _ hkept
    · rw [hheap]
      exact ha
  | error hv hkept he =>
    refine .error (hw _ _ hv hkept) ?_ he
    rw [hheap]
    exact hk _ hkept
  | stopped hs => exact .stopped hs
  | exhausted hlax => exact .exhausted hlax _
  | carried v he => exact .carried _ he

end Obeys

end Outcome

namespace Run

theorem inFrame_eq (g : Frame → Frame) (r : Run ε α) (w : World) :
    Run.inFrame g r w = (r { w with frame := g w.frame }).mapWorld fun v =>
      { v with frame := w.frame } := by
  unfold Run.inFrame
  cases r { w with frame := g w.frame } <;> rfl

theorem asCall_eq (overflow : Nat → ε) (r : Run ε α) (w : World) :
    Run.asCall overflow r w =
      if w.environment.settings.maxCallDepth ≤ w.callDepth then
        .error (overflow w.environment.settings.maxCallDepth) w
      else (r { w with callDepth := w.callDepth + 1 }).mapWorld fun v =>
        { v with callDepth := v.callDepth - 1 } := by
  unfold Run.asCall
  cases r { w with callDepth := w.callDepth + 1 } <;> rfl

theorem onThread_eq (r : Run ε α) (w : World) :
    Run.onThread r w =
      (r { w with callDepth := 0 }).mapWorld fun v => { v with callDepth := w.callDepth } := by
  unfold Run.onThread
  cases r { w with callDepth := 0 } <;> rfl

variable [Faulty ε] [Faulty δ]

/-! ## Runs -/

/-- Started in these states, the runs end as the law allows. -/
def ObeysAt (L : Law) (p : L.Place) (Q : Heap → α → Prop) (r : Run ε α) (r' : L.Case → Run ε α)
    (w : World) (w' : L.Case → World) : Prop :=
  (r w).Obeys L p w.heap Q fun i => r' i (w' i)

/-- Started in states that the law holds of, with a heap that `h` may have become, the runs end as
the law allows. -/
def Obeys (L : Law) (p : L.Place) (h : Heap) (Q : Heap → α → Prop) (r : Run ε α)
    (r' : L.Case → Run ε α) :
    Prop :=
  ∀ w w', L.Holds p w w' → L.Later h w.heap → r.ObeysAt L p Q r' w w'

/-- The run is compared with itself. -/
abbrev Lawful (L : Law) (p : L.Place) (h : Heap) (Q : Heap → α → Prop) (r : Run ε α) : Prop :=
  r.Obeys L p h Q fun _ => r

/-- Whatever the result is. -/
abbrev Tame (L : Law) (p : L.Place) (h : Heap) (r : Run ε α) : Prop :=
  r.Lawful L p h fun _ _ => True

/-! ### In given states -/

/-- What is read of a state is the same in all states that runs are compared in. -/
abbrev Blind (g : World → α) : Prop :=
  (fun (w : World) queues n => g (w.aside queues n)) = fun w _ _ => g w

theorem Blind.eq {g : World → α} (hg : Blind g) (hw : L.Holds p w w') (i : L.Case) :
    g (w' i) = g w := by
  obtain ⟨queues, n, heq, -⟩ := L.near hw i
  rw [heq]
  exact congrFun (congrFun (congrFun hg w) queues) n

namespace ObeysAt

variable {Q R : Heap → α → Prop} {r : Run ε α} {r' : L.Case → Run ε α}

theorem value {a : α} (hw : L.Holds p w w') (ha : Q w.heap a) :
    (Pure.pure a : Run ε α).ObeysAt L p Q (fun _ => Pure.pure a) w w' :=
  .ok hw (L.keeps_refl p w.heap) ha

/-- An error that is not placed yet. -/
theorem raise {e : ε} (hw : L.Holds p w w') (he : (fault e).span = none) :
    (Run.raise e : Run ε α).ObeysAt L p Q (fun _ => Run.raise e) w w' :=
  .error hw (L.keeps_refl p w.heap) (L.fits_fresh he)

/-- **One run after another**: what the first one comes to, the second one may count on. -/
theorem andThen {k : α → Run ε β} {k' : L.Case → α → Run ε β} {R : Heap → β → Prop}
    (hr : r.ObeysAt L p Q r' w w')
    (hk : ∀ a v v', r w = .ok a v → L.Holds p v v' → L.Keeps p w.heap v.heap → Q v.heap a →
      (k a).ObeysAt L p R (fun i => k' i a) v v') :
    (r >>= k).ObeysAt L p R (fun i => r' i >>= k' i) w w' :=
  Outcome.Obeys.andThen hr hk

/-- After a look at the state it is known what it shows. -/
theorem looking {g : World → β} {k : β → Run ε α} {k' : L.Case → β → Run ε α} (hg : Blind g)
    (hw : L.Holds p w w') (hk : (k (g w)).ObeysAt L p Q (fun i => k' i (g w)) w w') :
    (Run.read g >>= k).ObeysAt L p Q (fun i => Run.read g >>= k' i) w w' := by
  have hsame i : (Run.read g >>= k' i) (w' i) = k' i (g w) (w' i) := by
    simp only [Bind.bind, Run.read, hg.eq hw i]
  unfold ObeysAt
  simp only [hsame]
  exact hk

theorem mapError {g : ε → δ} (hr : r.ObeysAt L p Q r' w w')
    (hfits : ∀ e, L.fits (fault e) → L.fits (fault (g e)))
    (hcarries : ∀ e, (∀ i, r' i (w' i) = .stopped (L.cut i)) → L.carries (fault e) →
      L.carries (fault (g e))) :
    (r.mapError g).ObeysAt L p Q (fun i => (r' i).mapError g) w w' :=
  Outcome.Obeys.mapError hr hfits hcarries

/-- An error becomes a value unless it is carried. -/
theorem attempt (hr : r.ObeysAt L p Q r' w w')
    (hcarries : ∀ e v, r w = .error e v → (∀ i, r' i (w' i) = .stopped (L.cut i)) →
      ¬L.carries (fault e)) :
    (r.attempt : Run δ (Except ε α)).ObeysAt L p (Outcome.Obeys.Tried L Q)
    (fun i => (r' i).attempt) w w' :=
  Outcome.Obeys.attempt hr hcarries

/-- What follows an attempt. An error that is carried goes on being carried if it is raised
again. -/
theorem attemptThen {k : Except ε α → Run ε β} {k' : L.Case → Except ε α → Run ε β}
    {R : Heap → β → Prop} (hr : r.ObeysAt L p Q r' w w')
    (hk : ∀ x v v', L.Holds p v v' → L.Keeps p w.heap v.heap → Outcome.Obeys.Tried L Q v.heap x →
      (k x).ObeysAt L p R (fun i => k' i x) v v')
    (hraised : ∀ e v, r w = .error e v → (∀ i, r' i (w' i) = .stopped (L.cut i)) →
      L.carries (fault e) → ∃ v', k (.error e) v = .error e v') :
    (r.attempt >>= k).ObeysAt L p R (fun i => (r' i).attempt >>= k' i) w w' :=
  Outcome.Obeys.attemptThen hr hk hraised

/-- A heap in place of the one there is. -/
theorem putHeap {g : World → α × Heap} (hg : Blind g) (hw : L.Holds p w w')
    (ha : L.Admits p w w' (g w).2) (hQ : Q (g w).2 (g w).1) :
    (Run.change fun w => ((g w).1, { w with heap := (g w).2 }) : Run ε α).ObeysAt L p Q
      (fun _ => Run.change fun w => ((g w).1, { w with heap := (g w).2 })) w w' := by
  have hsame i : (Run.change fun w => ((g w).1, { w with heap := (g w).2 }) : Run ε α) (w' i) =
      .ok (g w).1 ((w' i).withHeap (g w).2) := by
    simp only [Run.change, hg.eq hw i]
    rfl
  unfold ObeysAt
  simp only [hsame]
  exact .ok ha.holds ha.keeps hQ

/-- One change of the heap. -/
theorem alter {g : World → Heap} (hg : Blind g) (hw : L.Holds p w w')
    (ha : L.Alters p w.heap (g w)) :
    (Run.update fun w => { w with heap := g w } : Run ε Unit).ObeysAt L p (fun _ _ => True)
      (fun _ => Run.update fun w => { w with heap := g w }) w w' :=
  putHeap (g := fun w => ((), g w)) (congrArg (fun f w queues n => ((), f w queues n)) hg) hw
    (L.alters hw ha)
    trivial

/-- Another thread has a count of its own. -/
theorem onThread (hq : L.Beside p q) (hw : L.Holds p w w')
    (hr : r.ObeysAt L q Q r' { w with callDepth := 0 } fun i => { w' i with callDepth := 0 }) :
    (Run.onThread r).ObeysAt L p Q (fun i => Run.onThread (r' i)) w w' := by
  unfold ObeysAt
  simp only [onThread_eq]
  exact Outcome.Obeys.mapWorld hr (fun _ => rfl) (fun v v' hv hk => L.holds_join hq hw hv hk)
    fun _ => L.keeps_thread hq

/-- What is done in a new scope, which is made inside one that is there. -/
theorem inChild {parent : ScopeId} {Q : Heap → α → Prop} {k : ScopeId → Script α}
    {k' : L.Case → ScopeId → Script α} (hw : L.Holds p w w')
    (hparent : L.There w.heap (.scope parent))
    (hk : L.Holds (L.child p (w.heap.addChild parent).1) (w.withHeap (w.heap.addChild parent).2)
      (fun i => (w' i).withHeap (w.heap.addChild parent).2) → L.There (w.heap.addChild parent).2
    (.scope (w.heap.addChild parent).1) → L.There (w.heap.addChild parent).2
    (.inner (w.heap.addChild parent).1) → (k (w.heap.addChild parent).1).ObeysAt L
    (L.child p (w.heap.addChild parent).1) Q (fun i => k' i (w.heap.addChild parent).1)
    (w.withHeap (w.heap.addChild parent).2) fun i => (w' i).withHeap (w.heap.addChild parent).2) :
    (Script.childScope parent >>= k).ObeysAt L p Q (fun i => Script.childScope parent >>= k' i) w
      w' := by
  obtain ⟨hscope, hinner⟩ := L.there_child parent hw
  have hsame i : (Script.childScope parent >>= k' i) (w' i) =
      k' i (w.heap.addChild parent).1 ((w' i).withHeap (w.heap.addChild parent).2) := by
    show k' i ((w' i).heap.addChild parent).1 ((w' i).withHeap ((w' i).heap.addChild parent).2) = _
    rw [L.heap_eq hw i]
  unfold ObeysAt
  simp only [hsame]
  exact Outcome.Obeys.imp (hk (L.holds_child hw hparent) hscope hinner)
    (fun v v' hv hkept => ⟨L.holds_of_child hv, L.keeps_of_child hkept⟩) fun _ _ _ => id

end ObeysAt

/-! ### In all states -/

namespace Obeys

variable {Q R : Heap → α → Prop} {r : Run ε α} {r' : L.Case → Run ε α}

theorem mono (hr : r.Obeys L p h Q r') (hQ : ∀ h' a, L.Later h h' → Q h' a → R h' a) :
    r.Obeys L p h R r' :=
  fun w w' hw hl => (hr w w' hw hl).imp (fun _ _ hv hk => ⟨hv, hk⟩) fun _ _ hl' =>
    hQ _ _ (L.later_trans hl hl')

/-- A run may be started later. -/
theorem later (hr : r.Obeys L p h Q r') (hl : L.Later h h') : r.Obeys L p h' Q r' :=
  fun w w' hw hl' => hr w w' hw (L.later_trans hl hl')

/-- Whatever its result is. -/
theorem tame (hr : r.Obeys L p h Q r') : r.Obeys L p h (fun _ _ => True) r' :=
  hr.mono fun _ _ _ _ => trivial

theorem value {a : α} (ha : ∀ h', L.Later h h' → Q h' a) : (Pure.pure a : Run ε α).Lawful L p h Q :=
  fun _ _ hw hl => .value hw (ha _ hl)

theorem done (a : α) : (Pure.pure a : Run ε α).Tame L p h := .value fun _ _ => trivial

/-- An error that is not placed yet. -/
theorem raise {e : ε} (he : (fault e).span = none) : (Run.raise e : Run ε α).Lawful L p h Q :=
  fun _ _ hw _ => .raise hw he

/-- A result, or an error that fits. -/
theorem ofExcept {x : Except ε α} (hx : ∀ h', L.Later h h' → Outcome.Obeys.Tried L Q h' x) :
    (Run.ofExcept x).Lawful L p h Q := by
  intro w w' hw hl
  cases x with
  | ok a => exact .value hw (hx _ hl)
  | error e => exact .error hw (L.keeps_refl p w.heap) (hx _ hl)

theorem stuck : (Run.stuck : Run ε α).Lawful L p h Q := fun _ _ _ _ => .stopped L.stuck

/-- **One run after another**: what the first one comes to, the second one may count on. -/
theorem andThen {k : α → Run ε β} {k' : L.Case → α → Run ε β} {R : Heap → β → Prop}
    (hr : r.Obeys L p h Q r')
    (hk : ∀ h' a, L.Later h h' → Q h' a → (k a).Obeys L p h' R fun i => k' i a) :
    (r >>= k).Obeys L p h R fun i => r' i >>= k' i :=
  fun w w' hw hl => (hr w w' hw hl).andThen fun a v v' _ hv hkept ha =>
    hk v.heap a (L.later_trans hl (L.later_of_keeps hkept)) ha v v' hv (L.later_refl _)

/-- One run after another, whatever the first one comes to. -/
theorem bind {k : α → Run ε β} {k' : L.Case → α → Run ε β} {R : Heap → β → Prop}
    (hr : r.Obeys L p h (fun _ _ => True) r') (hk : ∀ a, (k a).Obeys L p h R fun i => k' i a) :
    (r >>= k).Obeys L p h R fun i => r' i >>= k' i :=
  hr.andThen fun _ a hl _ => (hk a).later hl

/-- What is read of a state. -/
theorem look {g : World → α} (hg : Blind g)
    (hQ : ∀ w w', L.Holds p w w' → L.Later h w.heap → Q w.heap (g w)) :
    (Run.read g : Run ε α).Lawful L p h Q := by
  intro w w' hw hl
  have hsame i : (Run.read g : Run ε α) (w' i) = .ok (g w) (w' i) :=
    congrArg (Outcome.ok · (w' i)) (hg.eq hw i)
  unfold ObeysAt
  simp only [hsame]
  exact .ok hw (L.keeps_refl p w.heap) (hQ w w' hw hl)

theorem read {g : World → α} (hg : Blind g) : (Run.read g : Run ε α).Tame L p h :=
  .look hg fun _ _ _ _ => trivial

/-- After a look at the state, whatever it shows. -/
theorem reading {g : World → β} {k : β → Run ε α} {k' : L.Case → β → Run ε α} (hg : Blind g)
    (hk : ∀ b, (k b).Obeys L p h Q fun i => k' i b) :
    (Run.read g >>= k).Obeys L p h Q fun i => Run.read g >>= k' i :=
  bind (.read hg) hk

/-- After a look at the state it is known what it shows. -/
theorem looking {g : World → β} {k : β → Run ε α} {k' : L.Case → β → Run ε α} (hg : Blind g)
    (hk : ∀ w w', L.Holds p w w' → L.Later h w.heap →
      (k (g w)).ObeysAt L p Q (fun i => k' i (g w)) w w') :
    (Run.read g >>= k).Obeys L p h Q fun i => Run.read g >>= k' i :=
  fun w w' hw hl => .looking hg hw (hk w w' hw hl)

/-- A heap in place of the one there is. -/
theorem putHeap {g : World → α × Heap} (hg : Blind g)
    (ha : ∀ w w', L.Holds p w w' → L.Later h w.heap → L.Admits p w w' (g w).2 ∧ Q (g w).2 (g w).1) :
    (Run.change fun w => ((g w).1, { w with heap := (g w).2 }) : Run ε α).Lawful L p h Q :=
  fun w w' hw hl => .putHeap hg hw (ha w w' hw hl).1 (ha w w' hw hl).2

/-- One change of the heap. -/
theorem alter {g : World → α × Heap} (hg : Blind g)
    (ha : ∀ w w', L.Holds p w w' → L.Later h w.heap → L.Alters p w.heap (g w).2 ∧
      Q (g w).2 (g w).1) :
    (Run.change fun w => ((g w).1, { w with heap := (g w).2 }) : Run ε α).Lawful L p h Q :=
  putHeap hg fun w w' hw hl => ⟨L.alters hw (ha w w' hw hl).1, (ha w w' hw hl).2⟩

/-- What was written, the clock and the generator of random numbers are no part of any law. -/
theorem note {g : World → α × World} (hg : (fun (w : World) queues n => g (w.aside queues n)) =
      fun w queues n => ((g w).1, (g w).2.aside queues n))
    (hn : (fun w => (g w).2) = fun w =>
      { w with output := (g w).2.output, clock := (g w).2.clock, seed := (g w).2.seed }) :
    (Run.change g : Run ε α).Tame L p h := by
  intro w w' hw _
  have hnoted (w : World) := congrFun hn w
  have hsame i : (Run.change g : Run ε α) (w' i) = .ok (g w).1
      { w' i with output := (g w).2.output, clock := (g w).2.clock, seed := (g w).2.seed } := by
    obtain ⟨queues, n, heq, -⟩ := L.near hw i
    have hg : g (w.aside queues n) = _ := congrFun (congrFun (congrFun hg w) queues) n
    simp only [Run.change, heq, hg]
    rw [hnoted]
    rfl
  have hheap : (g w).2.heap = w.heap := by rw [hnoted]
  have hend := L.aside hw (g w).2.output (g w).2.clock (g w).2.seed
  rw [← hnoted] at hend
  unfold ObeysAt
  simp only [hsame]
  refine .ok hend ?_ trivial
  rw [hheap]
  exact L.keeps_refl p w.heap

theorem mapError {g : ε → δ} (hr : r.Obeys L p h Q r')
    (hfits : ∀ e, L.fits (fault e) → L.fits (fault (g e)))
    (hcarries : ∀ e, L.carries (fault e) → L.carries (fault (g e))) :
    (r.mapError g).Obeys L p h Q fun i => (r' i).mapError g :=
  fun w w' hw hl => (hr w w' hw hl).mapError hfits fun e _ => hcarries e

/-- Errors that become others of the same fault. -/
theorem cross {g : ε → δ} (hg : ∀ e, fault (g e) = fault e) (hr : r.Obeys L p h Q r') :
    (r.mapError g).Obeys L p h Q fun i => (r' i).mapError g :=
  mapError hr (fun e he => (hg e).symm ▸ he) fun e he => (hg e).symm ▸ he

/-- A run that carries no errors does not carry those of the law either. -/
theorem handled (hr : r.Obeys L.unhandled p h Q r') : r.Obeys L p h Q r' :=
  fun w w' hw hl => Outcome.Obeys.handled (hr w w' hw hl)

/-- An error becomes a value where none is carried. -/
theorem attempt (hr : r.Obeys L.unhandled p h Q r') :
    (r.attempt : Run δ (Except ε α)).Obeys L p h (Outcome.Obeys.Tried L Q)
      fun i => (r' i).attempt :=
  handled fun w w' hw hl => (hr w w' hw hl).attempt fun _ _ _ _ => id

/-! ### Frames and calls -/

/-- **Another frame** is one whose scope is there, and the frame before is put back. -/
theorem inFrame (shift : Shift) (hs : ∀ s ∈ shift.scope?, L.There h (.scope s))
    (hr : r.Obeys L (L.enter shift p) h Q r') :
    (Run.inFrame shift.apply r).Obeys L p h Q fun i => Run.inFrame shift.apply (r' i) := by
  intro w w' hw hl
  unfold ObeysAt
  simp only [inFrame_eq]
  have hin := L.holds_enter shift hw fun s hmem => L.there_later hl (hs s hmem)
  exact (hr _ _ hin hl).mapWorld (fun _ => rfl) (fun v v' hv hk => L.holds_leave shift hw hv hk)
    fun _ => L.keeps_enter shift

/-- **A call** is counted where there is room for it, and taken off again. -/
theorem asCall {overflow : Nat → ε} (ho : ∀ n, (fault (overflow n)).span = none) (hq : L.Inside p q)
    (hr : L.Room p → r.Obeys L q h Q r') :
    (Run.asCall overflow r).Obeys L p h Q fun i => Run.asCall overflow (r' i) := by
  intro w w' hw hl
  have henvironment i : (w' i).environment = w.environment :=
    Blind.eq (g := World.environment) rfl hw i
  have hcalls i : (w' i).callDepth = w.callDepth := Blind.eq (g := World.callDepth) rfl hw i
  have hlimit i : ((w' i).environment.settings.maxCallDepth ≤ (w' i).callDepth) =
      (w.environment.settings.maxCallDepth ≤ w.callDepth) := by rw [henvironment, hcalls]
  unfold ObeysAt
  simp only [asCall_eq, hlimit]
  by_cases hfull : w.environment.settings.maxCallDepth ≤ w.callDepth
  · simp only [if_pos hfull, henvironment]
    exact .error hw (L.keeps_refl p w.heap) (L.fits_fresh (ho _))
  · simp only [if_neg hfull]
    have hlt := Nat.lt_of_not_le hfull
    exact (hr (L.room hw hlt) _ _ (L.holds_call hq hw hlt) hl).mapWorld (fun _ => rfl)
      (fun v v' hv _ => L.holds_return hq hv) fun _ => L.keeps_call hq

/-! ### New scopes -/

/-- **A new scope** is made inside one that is there. -/
theorem inChild {Q : Heap → α → Prop} {parent : ScopeId} {k : ScopeId → Script α}
    {k' : L.Case → ScopeId → Script α} (hparent : L.There h (.scope parent))
    (hk : ∀ h' s, L.Later h h' → L.There h' (.scope s) → L.There h' (.inner s) →
      (k s).Obeys L (L.child p s) h' Q fun i => k' i s) :
    (Script.childScope parent >>= k).Obeys L p h Q fun i => Script.childScope parent >>= k' i :=
  fun _ _ hw hl => ObeysAt.inChild hw (L.there_later hl hparent) fun hv hscope hinner =>
    hk _ _ (L.later_trans hl (L.later_child _ parent)) hscope hinner _ _ hv (L.later_refl _)

/-! ### Loops -/

/-- A loop whose budget may be used up. -/
theorem repeatUntil {r : Run ε (Option α)} {r' : L.Case → Run ε (Option α)}
    (hs : L.stops .exhausted)
    (hr : r.Obeys L p h (fun h' o => ∀ a ∈ o, ∀ h'', L.Later h' h'' → Q h'' a) r') {n : Nat}
    {m : L.Case → Nat} (hrounds : ∀ i, L.Rounds n (m i)) :
    (Run.repeatUntil r n).Obeys L p h Q fun i => Run.repeatUntil (r' i) (m i) := by
  induction n generalizing m h with
  | zero =>
    intro w w' _ _
    by_cases hlax : L.lax
    · exact .exhausted hlax _
    · have hnone : m = fun _ => 0 := funext fun i => ((hrounds i).resolve_right fun h =>
        hlax h.1).symm
      subst hnone
      exact .stopped hs
  | succ n ih =>
    obtain ⟨m', rfl⟩ : ∃ m' : L.Case → Nat, m = fun i => m' i + 1 := by
      refine ⟨fun i => m i - 1, funext fun i => ?_⟩
      have hpos : n + 1 ≤ m i := (hrounds i).elim Nat.le_of_eq And.right
      exact (Nat.sub_add_cancel (Nat.le_trans (Nat.succ_pos n) hpos)).symm
    have hrounds' i : L.Rounds n (m' i) :=
      (hrounds i).imp Nat.succ.inj fun h => ⟨h.1, Nat.le_of_succ_le_succ h.2⟩
    simp only [repeatUntil_succ]
    refine hr.andThen fun h' o hl ho => ?_
    cases o with
    | some a => exact .value (ho a rfl)
    | none => exact ih (hr.later hl) hrounds'

theorem forEach {r : β → Run ε (Option α)} {r' : L.Case → β → Run ε (Option α)} {final : α}
    (hf : ∀ h', L.Later h h' → Q h' final) :
    ∀ bs : List β,
      (∀ b ∈ bs, (r b).Obeys L p h (fun h' o => ∀ a ∈ o, ∀ h'', L.Later h' h'' → Q h'' a)
        fun i => r' i b) →
      (Run.forEach r final bs).Obeys L p h Q fun i => Run.forEach (r' i) final bs
  | [], _ => .value hf
  | b :: bs, hr => by
    simp only [forEach_cons]
    refine (hr b List.mem_cons_self).andThen fun h' o hl ho => ?_
    cases o with
    | some a => exact .value (ho a rfl)
    | none => exact (forEach hf bs fun b' hb' => hr b' (List.mem_cons_of_mem b hb')).later hl

/-- What is known of a result is known later too. -/
theorem collect {r : β → Run ε α} {r' : L.Case → β → Run ε α}
    (hQ : ∀ {h h' a}, L.Later h h' → Q h a → Q h' a) :
    ∀ bs : List β, (∀ b ∈ bs, (r b).Obeys L p h Q fun i => r' i b) →
      (Run.collect r bs).Obeys L p h (fun h' as => ∀ a ∈ as, Q h' a) fun i => Run.collect (r' i) bs
  | [], _ => .value fun _ _ => nofun
  | b :: bs, hr => by
    refine (hr b List.mem_cons_self).andThen fun h₁ a hl₁ ha => ?_
    have hrest := (collect hQ bs fun b' hb' => hr b' (List.mem_cons_of_mem b hb')).later hl₁
    refine hrest.andThen fun h₂ as hl₂ has => .value fun h₃ hl₃ => ?_
    exact List.forall_mem_cons.mpr ⟨hQ (L.later_trans hl₂ hl₃) ha, fun a' ha' =>
      hQ hl₃ (has a' ha')⟩

end Obeys

end Run

end ScriptEngine
