import ScriptEngine.Proofs.Grounding
import ScriptEngine.Proofs.Walk.Machines
/-!
# Runs in grounded states

Started in a grounded state, a run ends in one, in which everything is that was there. This is a law
that compares a run with one other, which may differ where a state is not grounded: so what holds of
a run, with the same run on both sides, is told apart from what a run starts, with something cut off
in the second one.

* `World.Grounded` : a state in which nothing refers to what is not there.
* `Ref.There` : what code refers to besides values is there.
* `Heap.Grounded.alters` : one change of a grounded heap, whatever it is.
* `Law.grounding`, `Law.groundingGrammar`, `Law.closed_grounding` : the law, about all trees.
* `Run.Grounds`, `Run.Lasts` : what the law says of two runs, with a word on results or without one.
* `Calls.Grounds`, **`Evaluation.machine_grounds`** : whatever runs leaves grounded states behind.

What a host keeps for itself is out of scope: the host is asked for no more than its own classes and
objects.
-/

namespace ScriptEngine

variable {ε δ α β : Type} {w w' : World} {h h' : Heap}

/-! ## States -/

/-- Nothing in the state refers to what is not there. -/
structure World.Grounded (w : World) : Prop where
  heap : w.heap.Grounded
  /-- The scope that is running is there. -/
  frame : w.frame.scope.index < w.heap.scopes.size
  enclosing : ∀ v ∈ w.environment.enclosing, v.Known w.heap
  /-- So are the scopes of the jobs that wait. -/
  queues : ∀ queue ∈ w.queues, ∀ job ∈ queue.2, job.Known w.heap

namespace World.Grounded

theorem withHeap (hw : w.Grounded) (hh : h.Grounded) (hg : w.heap.Persists h) :
    (w.withHeap h).Grounded where
  heap := hh
  frame := Nat.lt_of_lt_of_le hw.frame hg.scopes
  enclosing v hv := (hw.enclosing v hv).mono hg
  queues queue hq job hj := (hw.queues queue hq job hj).mono hg

theorem withFrame (hw : w.Grounded) {f : Frame} (hf : f.scope.index < w.heap.scopes.size) :
    World.Grounded { w with frame := f } :=
  { hw with frame := hf }

/-- A way to another frame leads to a scope that is there. -/
theorem shift (hw : w.Grounded) (shift : Shift)
    (hs : ∀ s ∈ shift.scope?, s.index < w.heap.scopes.size) :
    World.Grounded { w with frame := shift.apply w.frame } := by
  refine hw.withFrame ?_
  rw [shift.scope_apply]
  cases hscope : shift.scope? with
  | none => exact hw.frame
  | some s => exact hs s hscope

end World.Grounded

/-! ## What is there -/

/-- What code refers to is there. -/
def Ref.There (h : Heap) : Ref → Prop
  | scope s | inner s => s.index < h.scopes.size
  | function id => id.index < h.functions.size
  | object id => id.index < h.objects.size
  | hostClass id => id.index < h.hostClasses.size

theorem Ref.There.mono {ref : Ref} (hr : ref.There h) (hg : h.Persists h') : ref.There h' := by
  cases ref with
  | scope | inner => exact Nat.lt_of_lt_of_le hr hg.scopes
  | function => exact Nat.lt_of_lt_of_le hr hg.functions
  | object => exact Nat.lt_of_lt_of_le hr hg.objects
  | hostClass => exact Nat.lt_of_lt_of_le hr hg.hostClasses

theorem Value.known_all_mono {vs : List Value} (hvs : ∀ v ∈ vs, v.Known h) (hg : h.Persists h') :
    ∀ v ∈ vs, v.Known h' :=
  fun v hv => (hvs v hv).mono hg

namespace Law

/-- What is said of a run and of the run that it is compared with. -/
def groundingTerms : Terms where
  Case := Unit
  Place := Unit
  Holds _ w w' := w' = (fun _ => w) ∧ w.Grounded
  Keeps _ := Heap.Persists
  Known h v := v.Known h
  There h ref := ref.There h
  Bakes h fields := h.stock.HasFields fields

end Law

/-- **One change** of a grounded heap leads to one that has everything that was there. -/
theorem Heap.Grounded.alters {p : Law.groundingTerms.Place} (hh : h.Grounded)
    (ha : Law.groundingTerms.Alters p h h') : h'.Grounded ∧ h.Persists h' := by
  have moved {h' : Heap} (hm : h.Moves h') (hs : h'.Stocked h.stock) :
      h'.Grounded ∧ h.Persists h' :=
    ⟨hh.of_moves hm hs, .of_moves hm⟩
  cases ha with
  | declared _ _ hb => exact ⟨hh.bind _ _ hb, .bind h _ _ _⟩
  | assigned _ hv => exact ⟨hh.bind _ _ hv, .bind h _ _ _⟩
  | list hi => exact moved (moves_addList h _) (hh.stocked.addList hi)
  | items id hf => exact moved (moves_changeList h id _) (hh.stocked.changeList id hf)
  | fields hf => exact moved (moves_addObject h _) (hh.stocked.addFields hf)
  | made hc hb =>
    refine ⟨hh.addObject nofun hb ?_, .addObject h _⟩
    rintro _ ⟨⟩
    exact hc _ rfl
  | field _ hv => exact moved (moves_putField h _ _ _) (hh.stocked.putField _ _ hv)
  | function _ hs => exact ⟨hh.addFunction hs, .addFunction h _⟩
  | getter name hv =>
    refine ⟨hh.addNative ?_, .addNative h _⟩
    rintro _ ⟨⟩
    exact hv
  | scriptClass _ hsuper hmethods hextension =>
    exact ⟨hh.addClass (fun super hs => hsuper super hs super rfl) hmethods hextension,
      .addClass h _⟩
  | extension script base => exact ⟨hh.withExtension script base, .withExtension h script base⟩
  | @hostObject o ho =>
    by_cases hextended : ∃ cls base object, o = .extended cls base object
    · obtain ⟨cls, base, object, rfl⟩ := hextended
      obtain ⟨hcls, hobject⟩ := ho cls base object rfl
      exact ⟨hh.addExtended hcls hobject, .addHostObject h _⟩
    · have hplain cls base object (heq : o = .extended cls base object) : False :=
        hextended ⟨cls, base, object, heq⟩
      exact moved (moves_addHostObject h hplain) { hh.stocked with }
  | slot id name data => exact moved (moves_withSlot h id name data) { hh.stocked with }

/-! ## The law -/

namespace Law

/-- **The law of grounded states.** -/
def grounding : Law where
  toTerms := groundingTerms
  Later := Heap.Persists
  near := by
    rintro _ w _ ⟨rfl, -⟩ _
    exact ⟨w.queues, w.frame.functionDepth, rfl, Iff.rfl⟩
  later_refl := .refl
  later_trans := .trans
  keeps_refl _ := .refl
  keeps_trans := .trans
  later_of_keeps := id
  alters := by
    rintro _ w _ _ ⟨rfl, hw⟩ ha
    obtain ⟨hh, hg⟩ := hw.heap.alters ha
    exact ⟨⟨rfl, hw.withHeap hh hg⟩, hg⟩
  aside := by
    rintro _ w _ ⟨rfl, hw⟩ _ _ _
    exact ⟨rfl, { hw with }⟩
  enter _ _ := ()
  holds_enter := by
    rintro _ w _ shift ⟨rfl, hw⟩ hs
    exact ⟨rfl, hw.shift shift hs⟩
  holds_leave := by
    rintro _ w _ v _ _ ⟨rfl, hw⟩ ⟨rfl, hv⟩ hg
    exact ⟨rfl, hv.withFrame (Nat.lt_of_lt_of_le hw.frame hg.scopes)⟩
  holds_child := by
    rintro _ w _ parent ⟨rfl, hw⟩ hparent
    exact ⟨rfl, hw.withHeap (hw.heap.addChild hparent) (.addChild _ parent)⟩
  later_child := .addChild
  keeps_of_child hg := .trans (.addChild _ _) hg
  there_child {_ w _} parent _ := by
    have hnew : (w.heap.addChild parent).1.index < (w.heap.addChild parent).2.scopes.size := by
      simp [Heap.addChild]
    exact ⟨hnew, hnew⟩
  Inside _ _ := True
  holds_call := by
    rintro _ _ w _ - ⟨rfl, hw⟩ -
    exact ⟨rfl, { hw with }⟩
  holds_return := by
    rintro _ _ w _ - ⟨rfl, hw⟩
    exact ⟨rfl, { hw with }⟩
  keeps_call _ := id
  Beside _ _ := True
  holds_thread := by
    rintro _ _ w _ - ⟨rfl, hw⟩
    exact ⟨rfl, { hw with }⟩
  holds_join := by
    rintro _ _ w _ v _ - ⟨rfl, -⟩ ⟨rfl, hv⟩ -
    exact ⟨rfl, { hv with }⟩
  keeps_thread _ := id
  scope_there hw := hw.2.frame
  globals_there hw := hw.2.heap.root
  function_at _ _ _ := trivial
  closure_there hw := hw.2.heap.closures
  staticBlock_at _ _ _ _ _ := trivial
  native_at _ _ _ _ _ := trivial
  constant_known hw _ _ _ _ hn hbody := hw.2.heap.constants _ (Array.mem_of_getElem? hn) _ hbody
  hostClass_at _ _ _ := trivial
  extension_there hw _ _ _ hk hcls := hw.2.heap.extensions _ (Array.mem_of_getElem? hk) _ hcls
  lookup_known hw _ _ _ hv _ := hw.2.heap.lookup hv
  locals_known hw _ _ := hw.2.heap.localBindings _
  list_known hw := hw.2.heap.stocked.list
  fields_known hw := hw.2.heap.stocked.objectFields
  baked_known hw := hw.2.heap.stocked.objectBaked
  enclosing_known hw _ := hw.2.enclosing
  known_common := Heap.stock _ |>.common
  known_later hg hv := hv.mono hg
  there_later hg hr := hr.mono hg
  bakes_bakedFrom hb := Stock.hasFields_ofPairs fun e he => by
    obtain ⟨e', he', rfl⟩ := List.mem_map.mp he
    exact hb e' he'
  bakes_later hg hb e he := (hb e he).mono hg
  there_function _ _ := by simp [groundingTerms, Ref.There, Heap.addFunction]
  there_object _ _ := by simp [groundingTerms, Ref.There, Heap.addObject]
  there_extension _ _ _ := by simp [groundingTerms, Ref.There, Heap.withExtension]
  known_class h k := by
    rintro _ ⟨⟩
    simp [Heap.addClass]
  known_native _ _ := Value.known_of_ne nofun

/-- A task is known if what it calls is. -/
theorem knownTask_iff {task : Task} : grounding.KnownTask h task ↔ task.Known h := by
  cases task <;> exact Iff.rfl

/-- The law is about all trees. -/
def groundingGrammar : Grammar grounding :=
  .every (fun _ => ⟨id, id⟩) (fun _ => trivial) (fun _ => trivial) (fun _ => trivial)
    (fun _ _ _ _ _ => trivial)
    trivial

theorem closed_grounding : groundingGrammar.Closed where
  uncarried _ := id
  inside _ := ⟨(), trivial⟩
  beside _ := ⟨(), trivial⟩
  queued _ := by
    rintro _ w _ name job ⟨rfl, hw⟩ hs ht
    refine ⟨rfl, { hw with queues := fun queue hq j hj => ?_ }⟩
    obtain rfl | ⟨e, he, hj⟩ := Evaluation.mem_enqueue hq j hj
    · exact ⟨hs, knownTask_iff.mp ht⟩
    · exact hw.queues e he j hj
  sources _ _ _ _ _ _ := trivial
  declares_top _ _ _ _ _ _ _ := trivial

end Law

/-! ## Runs -/

namespace Run

/-- Started in a grounded state that has everything of the heap `h`, both runs do the same, and end
in such a state. -/
abbrev Grounds [Faulty ε] (h : Heap) (Q : Heap → α → Prop) (r r' : Run ε α) : Prop :=
  r.Obeys Law.grounding () h Q fun _ => r'

/-- Whatever their result is. -/
abbrev Lasts [Faulty ε] (h : Heap) (r r' : Run ε α) : Prop := r.Grounds h (fun _ _ => True) r'

end Run

/-- Started in grounded states, with nothing but values that are known, both calls do the same and
leave such states behind. -/
abbrev Calls.Grounds (again again' : Calls) : Prop :=
  Calls.Obey Law.groundingGrammar (.all _) (.all _) again fun _ => again'

/-- **Whatever runs leaves grounded states behind**, within every budget. -/
theorem Evaluation.machine_grounds (n : Nat) : (machine n).Grounds (machine n) :=
  machine_obeys Law.closed_grounding n

end ScriptEngine
