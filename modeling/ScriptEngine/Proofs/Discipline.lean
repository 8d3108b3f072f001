import ScriptEngine.Proofs.Walk.Machines
/-!
# Orderly runs

A run is orderly under a discipline when, started in a state the discipline governs, it ends in one,
with the frame and the number of active calls it was started with. A discipline says which code may
lie in the heap and why a run may stop. This is a law, whose places are the frames and the numbers
of active calls; it compares a run with nothing else, and a statement ends with a signal that its
frame allows.

* `Discipline`, `Discipline.Governs` : what may lie in the heap, and a state in which nothing else
  does.
* `Discipline.At` : a governed state at a place, that is in a frame and with so many active calls.
* `Evaluation.Flow.Allowed` : the signals that may leave a statement in a frame.
* `Discipline.Governs.withHeap` : code that is added is code the discipline wants.
* `Run.Yields`, `Run.Orderly` : what a run started at a place leaves behind, with or without a word
  on its result.
* `Discipline.law`, `Run.yields_of_obeys`, `Run.Yields.obeys` : the law.

Out of scope: the native stack, on which calls of the host and of the interpreter lie in turn. The
count of active calls stands for it.
-/

namespace ScriptEngine

/-! ## Disciplines -/

/-- What the code in a heap has to look like, and why a run may stop. -/
structure Discipline where
  function : FunctionDecl → Prop
  staticBlock : List Stmt → Prop
  native : NativeBody → Prop
  hostClass : HostClass → Prop
  environment : Environment → Prop
  stops : Stop → Prop
  /-- A run may be stuck. -/
  stuck : stops .stuck
  constant : ∀ v, native (.constant v)
  /-- A class made for a script class is no exception. -/
  extension : ∀ (h : Heap) script base, (∀ k ∈ h.hostClasses, hostClass k) →
    hostClass (Host.extensionTable h script base)

namespace Discipline

variable {D : Discipline} {f : Frame} {c : Nat} {w w' : World}

/-- Everything in the state is as the discipline wants it. -/
structure Governs (D : Discipline) (w : World) : Prop where
  functions : ∀ g ∈ w.heap.functions, D.function g.decl
  staticBlocks : ∀ k ∈ w.heap.classes, ∀ block ∈ k.staticBlock, D.staticBlock block
  natives : ∀ n ∈ w.heap.natives, D.native n.body
  hostClasses : ∀ k ∈ w.heap.hostClasses, D.hostClass k
  environment : D.environment w.environment

/-- A governed state in the frame `f` with `c` active calls. -/
structure At (D : Discipline) (f : Frame) (c : Nat) (w : World) : Prop where
  governs : D.Governs w
  frame : w.frame = f
  calls : w.callDepth = c

/-- Some environment of the discipline leaves room for one more call than `c`. -/
def Room (D : Discipline) (c : Nat) : Prop :=
  ∃ e, D.environment e ∧ c < e.settings.maxCallDepth

end Discipline

/-! ## Signals -/

namespace Evaluation

/-- What surrounds a statement in a frame can take the signal it ends with. -/
def Flow.Allowed (f : Frame) : Flow → Prop
  | .normal => True
  | .brk => 0 < f.loopDepth ∨ 0 < f.switchDepth
  | .cont => 0 < f.loopDepth
  | .ret _ => 0 < f.functionDepth

/-- The scope of a frame has no say in signals. -/
theorem Flow.allowed_inScope {f : Frame} {s : ScopeId} {flow : Flow}
    (h : Flow.Allowed { f with scope := s } flow) : Flow.Allowed f flow := by
  cases flow <;> exact h

/-- Whatever leaves a loop is allowed around it. -/
theorem Flow.allowed_afterBody {f : Frame} {flow : Flow} (h : Flow.Allowed (loopFrame f) flow) :
    ∀ a ∈ afterBody flow, Flow.Allowed f a := by
  intro a ha
  cases flow with
  | normal | cont => cases ha
  | brk => cases ha; trivial
  | ret v => cases ha; exact h

/-- Whatever leaves a switch is allowed around it. -/
theorem Flow.allowed_afterSwitch {f : Frame} {s : ScopeId} {flow : Flow}
    (h : Flow.Allowed (switchFrame s f) flow) : Flow.Allowed f (afterSwitch flow) := by
  cases flow with
  | normal | brk => trivial
  | cont | ret => exact h

/-- In the frame of a function there is nothing but a return to leave with. -/
theorem Flow.allowed_functionFrame {f : Frame} {s : ScopeId} {flow : Flow}
    (h : Flow.Allowed (functionFrame s f) flow) : flow = .normal ∨ ∃ v, flow = .ret v := by
  cases flow with
  | normal => exact .inl rfl
  | brk => exact absurd h (by simp [Flow.Allowed, functionFrame])
  | cont => exact absurd h (by simp [Flow.Allowed, functionFrame])
  | ret v => exact .inr ⟨v, rfl⟩

/-- At the top there is no signal to leave with. -/
theorem Flow.allowed_top {s : ScopeId} {flow : Flow} (h : Flow.Allowed (.top s) flow) :
    flow = .normal := by
  cases flow with
  | normal => rfl
  | brk => exact absurd h (by simp [Flow.Allowed, Frame.top])
  | cont => exact absurd h (by simp [Flow.Allowed, Frame.top])
  | ret v => exact absurd h (by simp [Flow.Allowed, Frame.top])

end Evaluation

/-! ## Code that is added -/

theorem exists_of_mem_modify {α : Type} {xs : Array α} {i : Nat} {g : α → α} {x : α}
    (hx : x ∈ xs.modify i g) : ∃ y ∈ xs, x = y ∨ x = g y := by
  obtain ⟨j, hj, rfl⟩ := Array.getElem_of_mem hx
  rw [Array.size_modify] at hj
  refine ⟨xs[j], Array.getElem_mem hj, ?_⟩
  rw [Array.getElem_modify]
  split
  · exact .inr rfl
  · exact .inl rfl

namespace Discipline

variable {D : Discipline} {f : Frame} {c : Nat} {w : World} {h : Heap}

/-- **Code that is added** by what a law allows is code that the discipline wants. -/
theorem Governs.withHeap {T : Terms} {p : T.Place}
    (hfunction : ∀ {decl}, T.function decl → D.function decl)
    (hblock : ∀ {block}, T.staticBlock block → D.staticBlock block) (hw : D.Governs w)
    (ha : T.Alters p w.heap h) : D.Governs (w.withHeap h) := by
  obtain ⟨functions, staticBlocks, natives, hostClasses, environment⟩ := hw
  cases ha with
  | function hd =>
    refine ⟨fun g hg => ?_, staticBlocks, natives, hostClasses, environment⟩
    rcases Array.mem_push.mp hg with hg | rfl
    · exact functions g hg
    · exact hfunction hd
  | getter =>
    refine ⟨functions, staticBlocks, fun n hn => ?_, hostClasses, environment⟩
    rcases Array.mem_push.mp hn with hn | rfl
    · exact natives n hn
    · exact D.constant _
  | scriptClass hk =>
    refine ⟨functions, fun k hmem => ?_, natives, hostClasses, environment⟩
    rcases Array.mem_push.mp hmem with hmem | rfl
    · exact staticBlocks k hmem
    · exact fun block hb => hblock (hk block hb)
  | extension script base =>
    refine ⟨functions, fun k hk => ?_, natives, fun k hk => ?_, environment⟩
    · obtain ⟨k', hk', hsame⟩ := exists_of_mem_modify
        (show k ∈ w.heap.classes.modify script.index fun k => { k with extension := _ } from hk)
      have hblocks : k.staticBlock = k'.staticBlock := by rcases hsame with rfl | rfl <;> rfl
      rw [hblocks]
      exact staticBlocks k' hk'
    · rcases Array.mem_push.mp hk with hk | rfl
      · exact hostClasses k hk
      · exact D.extension _ _ _ hostClasses
  | declared | assigned | list | items | fields | made | field | hostObject | slot =>
    exact ⟨functions, staticBlocks, natives, hostClasses, environment⟩

/-- Nothing but the code and the environment of a state matters. -/
theorem Governs.of_heap {v : World} (hw : D.Governs w) (hheap : v.heap = w.heap)
    (henvironment : v.environment = w.environment) : D.Governs v :=
  ⟨hheap ▸ hw.functions, hheap ▸ hw.staticBlocks, hheap ▸ hw.natives, hheap ▸ hw.hostClasses,
    henvironment ▸ hw.environment⟩

end Discipline

/-! ## Orderly runs -/

variable {ε δ α β : Type}

/-- The place is as it was and the result is in `Q`. -/
def Outcome.Yields (D : Discipline) (f : Frame) (c : Nat) (Q : α → Prop) : Outcome ε α → Prop
  | .ok a w => Q a ∧ D.At f c w
  | .error _ w => D.At f c w
  | .stopped s => D.stops s

namespace Run

/-- Started at a place, the run comes back to it, and with a result in `Q` if it has one. -/
def Yields (D : Discipline) (f : Frame) (c : Nat) (Q : α → Prop) (r : Run ε α) : Prop :=
  ∀ w, D.At f c w → (r w).Yields D f c Q

/-- Started at a place, the run comes back to it. -/
abbrev Orderly (D : Discipline) (f : Frame) (c : Nat) (r : Run ε α) : Prop :=
  r.Yields D f c fun _ => True

end Run

/-! ## The law -/

namespace Discipline

variable (D : Discipline)

/-- **The law of a discipline**: governed states at a place. -/
def law : Law where
  Case := Empty
  Place := Frame × Nat
  Holds p w _ := D.At p.1 p.2 w
  Keeps _ _ _ := True
  function := D.function
  staticBlock := D.staticBlock
  native := D.native
  hostClass := D.hostClass
  Allowed p := Evaluation.Flow.Allowed p.1
  Room p := D.Room p.2
  stops := D.stops
  near _ := nofun
  keeps_refl _ _ := trivial
  alters hw ha := ⟨⟨hw.governs.withHeap id id ha, hw.frame, hw.calls⟩, trivial⟩
  aside hw _ _ _ := ⟨hw.governs.of_heap rfl rfl, hw.frame, hw.calls⟩
  enter shift p := (shift.apply p.1, p.2)
  holds_enter shift hw _ := ⟨hw.governs.of_heap rfl rfl, congrArg shift.apply hw.frame, hw.calls⟩
  holds_leave _ hw hv _ := ⟨hv.governs.of_heap rfl rfl, hw.frame, hv.calls⟩
  child p _ := p
  holds_child hw _ := ⟨⟨hw.governs.functions, hw.governs.staticBlocks, hw.governs.natives,
    hw.governs.hostClasses, hw.governs.environment⟩, hw.frame, hw.calls⟩
  Inside p q := q = (p.1, p.2 + 1)
  room hw hroom := ⟨_, hw.governs.environment, hw.calls ▸ hroom⟩
  holds_call := by
    rintro p _ w _ rfl hw -
    exact ⟨hw.governs.of_heap rfl rfl, hw.frame, congrArg (· + 1) hw.calls⟩
  holds_return := by
    rintro p _ w _ rfl hw
    exact ⟨hw.governs.of_heap rfl rfl, hw.frame, congrArg (· - 1) hw.calls⟩
  Beside p q := q = (p.1, 0)
  holds_thread := by
    rintro p _ w _ rfl hw
    exact ⟨hw.governs.of_heap rfl rfl, hw.frame, rfl⟩
  holds_join := by
    rintro p _ w _ v _ rfl hw hv -
    exact ⟨hv.governs.of_heap rfl rfl, hv.frame, hw.calls⟩
  function_at hw := hw.governs.functions
  staticBlock_at hw := hw.governs.staticBlocks
  native_at hw _ _ _ hn := hw.governs.natives _ (Array.mem_of_getElem? hn)
  hostClass_at hw := hw.governs.hostClasses
  allowed_ret hw hd _ := hw.frame ▸ Nat.pos_of_ne_zero hd
  allowed_brk := by
    rintro p w _ hw hd
    rw [hw.frame] at hd
    exact (not_and_or.mp hd).imp Nat.pos_of_ne_zero Nat.pos_of_ne_zero
  allowed_cont hw hd := hw.frame ▸ Nat.pos_of_ne_zero hd
  allowed_scope := Evaluation.Flow.allowed_inScope
  allowed_child := id
  allowed_loop := Evaluation.Flow.allowed_afterBody
  allowed_switch := Evaluation.Flow.allowed_afterSwitch
  stuck := D.stuck

/-- Inside of one activity no call is made or comes back. -/
theorem calls_of_within {p q : D.law.Place} (hq : D.law.Within p q) : q.2 = p.2 := by
  induction hq with
  | refl => rfl
  | enter _ _ ih => exact ih
  | child _ _ ih => exact ih

end Discipline

namespace Run

variable {D : Discipline} {f : Frame} {c : Nat} {h : Heap} {Q R : α → Prop} {r : Run ε α} [Faulty ε]
    [Faulty δ]

/-- What the law says of a run is what the run yields: there are no others. -/
theorem yields_of_obeysAt {Q' : Heap → α → Prop} {r' : Empty → Run ε α} (hQ : ∀ h a, Q' h a → Q a)
    (hr : ∀ w w', D.law.Holds (f, c) w w' → r.ObeysAt D.law (f, c) Q' r' w w') :
    r.Yields D f c Q := by
  intro w hw
  have hends := hr w Empty.elim hw
  unfold ObeysAt at hends
  generalize r w = o, (fun i : D.law.Case => r' i (Empty.elim i)) = o' at hends
  cases hends with
  | ok hv _ ha => exact ⟨hQ _ _ ha, hv⟩
  | error hv => exact hv
  | stopped hs => exact hs
  | exhausted hlax => exact hlax.elim
  | carried _ he => exact he.elim

theorem yields_of_obeys {Q' : Heap → α → Prop} {r' : Empty → Run ε α} (hQ : ∀ h a, Q' h a → Q a)
    (hr : ∀ h, r.Obeys D.law (f, c) h Q' r') : r.Yields D f c Q :=
  yields_of_obeysAt hQ fun w w' hw => hr w.heap w w' hw trivial

namespace Yields

/-- What a run yields is what the law says. -/
theorem obeys {r' : Empty → Run ε α} (hr : r.Yields D f c Q) :
    r.Obeys D.law (f, c) h (fun _ => Q) r' := by
  intro w w' hw _
  have hends := hr w hw
  unfold ObeysAt
  cases hrw : r w with
  | ok a v =>
    rw [hrw] at hends
    exact .of_ok (Empty.elim ·) (show D.law.Holds (f, c) v w' from hends.2) trivial hends.1
  | error e v =>
    rw [hrw] at hends
    exact .of_error (Empty.elim ·) (show D.law.Holds (f, c) v w' from hends) trivial trivial
  | stopped s =>
    rw [hrw] at hends
    exact .of_stopped (Empty.elim ·) hends

/-- The same with no other run named. -/
theorem alone (hr : r.Yields D f c Q) : r.Obeys D.law (f, c) h (fun _ => Q) Empty.elim := hr.obeys

omit [Faulty ε] in
theorem mono (hr : r.Yields D f c Q) (hQ : ∀ a, Q a → R a) : r.Yields D f c R := by
  intro w hw
  have hends := hr w hw
  unfold Outcome.Yields at *
  split at hends
  · exact ⟨hQ _ hends.1, hends.2⟩
  · exact hends
  · exact hends

omit [Faulty ε] in
/-- A change that leads from the place to the place. -/
theorem step {g : World → α × World} (hg : ∀ w, D.At f c w → D.At f c (g w).2) :
    (Run.change g : Run ε α).Orderly D f c :=
  fun w hw => ⟨trivial, hg w hw⟩

theorem bind {k : α → Run ε β} {R : β → Prop} (hr : r.Orderly D f c)
    (hk : ∀ a, (k a).Yields D f c R) :
    (r >>= k).Yields D f c R :=
  yields_of_obeys (fun _ _ => id) fun _ => .bind hr.alone fun a => (hk a).alone

theorem mapError {g : ε → δ} (hr : r.Yields D f c Q) : (r.mapError g).Yields D f c Q :=
  yields_of_obeys (fun _ _ => id) fun _ => Obeys.mapError (g := g) hr.alone (fun _ => id) fun _ =>
    id

/-- **Another frame is put back**, however the run inside it ends. -/
theorem inFrame (shift : Shift) (hr : r.Yields D (shift.apply f) c Q) :
    (Run.inFrame shift.apply r).Yields D f c Q :=
  yields_of_obeys (fun _ _ => id) fun _ =>
    Obeys.inFrame (L := D.law) (p := (f, c)) shift (fun _ _ => trivial) hr.alone

theorem collect {r : β → Run ε α} (bs : List β) (hr : ∀ b ∈ bs, (r b).Orderly D f c) :
    (Run.collect r bs).Orderly D f c :=
  yields_of_obeys (fun _ _ _ => trivial) fun _ =>
    Obeys.collect (Q := fun _ _ => True) (fun _ => id) bs fun b hb => (hr b hb).alone

end Yields

end Run

end ScriptEngine
