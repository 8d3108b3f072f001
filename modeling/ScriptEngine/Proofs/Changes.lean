import Mathlib.Logic.Relation
import ScriptEngine.Proofs.Walk.Machines
/-!
# What running code can change

Whatever runs changes the heap by a few kinds of changes, one after another, and puts the frame back
that it was started in. A baked value is in the way of one of them: a field that it stands for is
not set. How deep in functions the code stands makes no difference to a run, as long as it stands
inside of one or outside of all of them. Both are one law, which compares a run with itself at
another depth.

* `Heap.Change`, `Heap.Evolves` : one change, and any number of them.
* `Run.Regular` : a run that keeps to the changes, puts the frame back and goes on alike at another
  depth.
* `Law.evolution`, `Run.regular_iff` : the law.
* `Evaluation.machine_regular` : the machines.

Out of scope: collections of garbage, as nothing is ever taken off the heap.
-/

namespace ScriptEngine

/-! ## Changes of the heap -/

namespace Heap

/-- One change that running code makes to the heap. Things are only added, except that a scope binds
one of its names, and that items of lists, fields of objects and slots of host objects are set. -/
inductive Change (h : Heap) : Heap → Prop
  | scope (parent : ScopeId) : Change h (h.addChild parent).2
  | declared {s : ScopeId} {name : String} (b : Binding) (hs : h.declareError? s name = none) :
      Change h (h.bind s name b)
  | assigned {s owner : ScopeId} {name : String} (v : Value)
      (hs : h.assignTarget s name = .ok owner) : Change h (h.bind owner name ⟨v, false⟩)
  | list (items : Array Value) : Change h (h.addList items).2
  | items (id : ListId) (f : Array Value → Array Value) : Change h (h.changeList id f)
  | fields (fields : Fields) : Change h (h.addFields fields).2
  /-- A new instance of a script class has no fields, and the values of a static block baked in. -/
  | made (cls : ClassId) (bindings : List (String × Value)) :
      Change h (h.addObject ⟨some cls, [], Evaluation.bakedFrom bindings⟩).2
  /-- A field is set where nothing is baked in for it. -/
  | field {id : ObjectId} {name : String} (v : Value)
      (hn : Evaluation.isBaked h id name = false) : Change h (h.putField id name v)
  | function (f : Function) : Change h (h.addFunction f).2
  | native (n : Native) : Change h (h.addNative n).2
  | scriptClass (c : ScriptClass) : Change h (h.addClass c).2
  | extension (script : ClassId) (base : HostClassId) : Change h (h.withExtension script base)
  | hostObject (o : HostObject) : Change h (h.addHostObject o).2
  | slot (id : HostId) (name : String) (data : HostData) : Change h (h.withSlot id name data)

/-- Any number of changes, one after another. -/
def Evolves : Heap → Heap → Prop := Relation.ReflTransGen Change

theorem Evolves.refl (h : Heap) : h.Evolves h := Relation.ReflTransGen.refl

theorem Evolves.trans {h h' h'' : Heap} (a : h.Evolves h') (b : h'.Evolves h'') : h.Evolves h'' :=
  Relation.ReflTransGen.trans a b

theorem Change.evolves {h h' : Heap} (c : h.Change h') : h.Evolves h' := .single c

/-- What every change keeps is kept. -/
theorem Evolves.keeps {P : Heap → Prop} (hP : ∀ {h h'}, Change h h' → P h → P h') {h h' : Heap}
    (he : h.Evolves h') (h₀ : P h) : P h' := by
  induction he with
  | refl => exact h₀
  | tail _ hc ih => exact hP hc ih

end Heap

/-! ## Regular runs -/

variable {ε α : Type}

/-- The outcome leaves the frame of `w`, and a heap that the one of `w` evolves into. -/
def Outcome.Evolves (w : World) : Outcome ε α → Prop
  | .ok _ w' | .error _ w' => w'.frame = w.frame ∧ w.heap.Evolves w'.heap
  | .stopped _ => True

namespace Run

/-- Started in `w`, the run keeps to the changes there are, and goes on alike at another depth. -/
structure RegularAt (r : Run ε α) (w : World) : Prop where
  evolves : (r w).Evolves w
  alike : ∀ n, w.frame.Alike n → r (w.atDepth n) = (r w).mapWorld (World.atDepth n)

/-- The run keeps to the changes there are, and goes on alike at another depth. -/
def Regular (r : Run ε α) : Prop := ∀ w, r.RegularAt w

end Run

/-- Everything that the calls start is regular. -/
structure Calls.Regular (again : Calls) : Prop where
  evaluate : ∀ e, (again.evaluate e).Regular
  execute : ∀ s, (again.execute s).Regular
  call : ∀ callee args, (again.call callee args).Regular
  callVirtual : ∀ this name args, (again.callVirtual this name args).Regular
  readHost : ∀ this name, (again.readHost this name).Regular

/-! ## The law -/

namespace Law

/-- The terms of the law: a run in a frame, beside the run in that frame at another depth. -/
def changing : Terms where
  Case := Unit
  Place := Frame × Nat
  Holds p w w' := w.frame = p.1 ∧ p.1.Alike p.2 ∧ w' () = w.atDepth p.2
  Keeps _ := Heap.Evolves
  Bakes _ baked := ∃ bindings, baked = Evaluation.bakedFrom bindings

/-- Every change there is, is one of a heap that evolves. -/
theorem change_of_alters {p : Frame × Nat} {h h' : Heap} (ha : changing.Alters p h h') :
    h.Change h' := by
  cases ha with
  | declared hs => exact .declared _ hs
  | assigned hs => exact .assigned _ hs
  | list => exact .list _
  | items id => exact .items id _
  | fields => exact .fields _
  | made hc hb =>
    obtain ⟨bindings, rfl⟩ := hb
    exact .made _ bindings
  | field hn => exact .field _ hn
  | function => exact .function _
  | getter name => exact .native _
  | scriptClass => exact .scriptClass _
  | extension script base => exact .extension script base
  | hostObject => exact .hostObject _
  | slot id name data => exact .slot id name data

/-- **The law of evolution**: the heap evolves, and the depth makes no difference. -/
def evolution : Law where
  toTerms := changing
  near := by
    rintro p w w' ⟨hf, ha, hw⟩ ⟨⟩
    exact ⟨w.queues, p.2, hw, hf ▸ ha⟩
  keeps_refl _ := .refl
  keeps_trans := .trans
  alters hw ha := ⟨⟨hw.1, hw.2.1, congrArg (World.withHeap · _) hw.2.2⟩,
    (change_of_alters ha).evolves⟩
  aside hw output clock seed :=
    ⟨hw.1, hw.2.1, congrArg (fun v : World => { v with output, clock, seed }) hw.2.2⟩
  enter shift p := (shift.apply p.1, (shift.apply (p.1.atDepth p.2)).functionDepth)
  holds_enter := by
    rintro ⟨f, n⟩ w w' shift ⟨rfl, ha, hw⟩ -
    obtain ⟨hin, heq⟩ := shift.apply_atDepth ha
    exact ⟨rfl, hin, (congrArg (fun v : World => { v with frame := shift.apply v.frame }) hw).trans
      (congrArg (fun f => { w with frame := f }) heq)⟩
  holds_leave := by
    rintro ⟨f, n⟩ w w' v v' shift ⟨rfl, ha, hw⟩ ⟨-, -, hv⟩ -
    exact ⟨rfl, ha, congrArg₂ (fun v u : World => { v with frame := u.frame }) hv hw⟩
  child p _ := p
  holds_child hw _ := ⟨hw.1, hw.2.1, congrArg (World.withHeap · _) hw.2.2⟩
  keeps_of_child hk := (Heap.Change.scope _).evolves.trans hk
  Inside p q := q = p
  holds_call := by
    rintro p q w w' rfl hw -
    exact ⟨hw.1, hw.2.1, congrArg (fun v : World => { v with callDepth := v.callDepth + 1 }) hw.2.2⟩
  holds_return := by
    rintro p q w w' rfl hw
    exact ⟨hw.1, hw.2.1, congrArg (fun v : World => { v with callDepth := v.callDepth - 1 }) hw.2.2⟩
  keeps_call := by
    rintro p q h h' rfl hk
    exact hk
  Beside p q := q = p
  holds_thread := by
    rintro p q w w' rfl hw
    exact ⟨hw.1, hw.2.1, congrArg (fun v : World => { v with callDepth := 0 }) hw.2.2⟩
  holds_join := by
    rintro p q w w' v v' rfl hw hv -
    exact ⟨hv.1, hv.2.1, congrArg₂ (fun v u : World => { v with callDepth := u.callDepth }) hv.2.2
      hw.2.2⟩
  keeps_thread := by
    rintro p q h h' rfl hk
    exact hk
  function_at _ _ _ := trivial
  staticBlock_at _ _ _ _ _ := trivial
  native_at _ _ _ _ _ := trivial
  hostClass_at _ _ _ := trivial
  bakes_bakedFrom _ := ⟨_, rfl⟩
  bakes_later _ := id

/-- The law is about all trees. -/
def evolutionGrammar : Grammar evolution :=
  .every (fun _ => ⟨fun _ => trivial, id⟩) (fun _ => trivial) (fun _ => trivial) (fun _ => trivial)
    (fun _ _ _ _ _ => trivial) trivial

theorem closed_evolution : evolutionGrammar.Closed where
  uncarried _ := id
  inside p := ⟨p, rfl⟩
  beside p := ⟨p, rfl⟩
  queued _ _ _ _ name job hw _ _ :=
    ⟨hw.1, hw.2.1, congrArg (fun v : World =>
      { v with queues := Evaluation.enqueue name job v.queues }) hw.2.2⟩
  sources _ _ _ _ _ _ := trivial
  declares_top _ _ _ _ _ _ _ := trivial

end Law

open Law

namespace Run

variable [Faulty ε]

/-- Regular runs are those that obey the law, whatever is known of their results. -/
theorem regular_iff {r : Run ε α} : r.Regular ↔ ∀ p h, r.Tame evolution p h := by
  constructor
  · rintro hr ⟨f, n⟩ h w w' ⟨rfl, ha, hw⟩ -
    obtain ⟨hends, halike⟩ := hr w
    have hsame : (fun i => r (w' i)) = fun _ => (r w).mapWorld (World.atDepth n) :=
      funext fun ⟨⟩ => (congrArg r hw).trans (halike n ha)
    unfold ObeysAt
    simp only [hsame]
    cases hrw : r w with
    | ok a v =>
      rw [hrw] at hends
      exact .ok ⟨hends.1, ha, rfl⟩ hends.2 trivial
    | error e v =>
      rw [hrw] at hends
      exact .error ⟨hends.1, ha, rfl⟩ hends.2 trivial
    | stopped s => exact .stopped trivial
  · intro hr w
    have hat n (ha : w.frame.Alike n) : (r w).Obeys evolution (w.frame, n) w.heap (fun _ _ => True)
        fun _ => r (w.atDepth n) := hr (w.frame, n) w.heap w _ ⟨rfl, ha, rfl⟩ trivial
    constructor
    · have hends := hat w.frame.functionDepth Iff.rfl
      generalize r w = o, (fun _ => r (w.atDepth w.frame.functionDepth)) = o' at hends
      cases hends with
      | ok hv hk => exact ⟨hv.1, hk⟩
      | error hv hk => exact ⟨hv.1, hk⟩
      | stopped => trivial
      | exhausted => trivial
      | carried _ he => exact he.elim
    · intro n ha
      have hends := hat n ha
      generalize r w = o, hn : (fun _ => r (w.atDepth n)) = o' at hends
      have hn : r (w.atDepth n) = o' () := congrFun hn ()
      rw [hn]
      cases hends with
      | ok hv => exact congrArg (Outcome.ok _) hv.2.2
      | error hv => exact congrArg (Outcome.error _) hv.2.2
      | stopped => rfl
      | exhausted hlax => exact hlax.elim
      | carried _ he => exact he.elim

end Run

theorem Calls.regular_iff {again : Calls} :
    again.Regular ↔ Calls.Obey evolutionGrammar (.all evolution) (.all evolution) again fun _ =>
      again := by
  constructor
  · intro h
    exact {
      evaluate := fun _ _ => Run.regular_iff.mp (h.evaluate _) _ _
      execute := fun _ _ _ => (Run.regular_iff.mp (h.execute _) _ _).mono fun _ _ _ _ =>
        ⟨trivial, fun _ _ => trivial⟩
      call := fun _ _ _ => Run.regular_iff.mp (h.call _ _) _ _
      callVirtual := fun this name args _ => Run.regular_iff.mp (h.callVirtual this name args) _ _
      readHost := fun this name _ => Run.regular_iff.mp (h.readHost this name) _ _ }
  · intro h
    exact {
      evaluate := fun e => Run.regular_iff.mpr fun _ _ => h.evaluate trivial trivial
      execute := fun s => Run.regular_iff.mpr fun _ _ => (h.execute trivial trivial fun _ _ _ _ _ =>
        trivial).tame
      call := fun callee args => Run.regular_iff.mpr fun _ _ => h.call trivial trivial fun _ _ =>
        trivial
      callVirtual := fun this name args => Run.regular_iff.mpr fun _ _ =>
        h.callVirtual this name args trivial
      readHost := fun this name => Run.regular_iff.mpr fun _ _ => h.readHost this name trivial }

/-! ## What is regular -/

theorem Host.extend_regular (script : ClassId) (base : HostClassId) (object : ObjectId)
    (args : List Value) :
    (Host.extend script base object args).Regular :=
  Run.regular_iff.mpr fun _ _ => Host.extend_tame script base trivial args

/-- **Another frame is put back**, however the run inside it ends. -/
theorem Run.Regular.inFrame {ε α : Type} [Faulty ε] {r : Run ε α} (shift : Shift) (hr : r.Regular) :
    (Run.inFrame shift.apply r).Regular :=
  Run.regular_iff.mpr fun p h => .inFrame shift (fun _ _ => trivial)
    (Run.regular_iff.mp hr (evolution.enter shift p) h)

namespace Evaluation

theorem executeAll_regular {again : Calls} (h : again.Regular) (body : List Stmt) :
    (executeAll again body).Regular :=
  Run.regular_iff.mpr fun _ _ => (executeAll_obeys fun s _ =>
    (Calls.regular_iff.mp h).execute (s := s) trivial trivial fun _ _ _ _ _ => trivial).tame

theorem callFunction_regular {again : Calls} (h : again.Regular) (id : FunctionId)
    (this : Option Value) (args : List Value) : (callFunction again id this args).Regular :=
  Run.regular_iff.mpr fun _ _ => (Calls.regular_iff.mp h).callFunction closed_evolution.opens
    trivial id
    (fun _ _ => trivial) fun _ _ => trivial

/-- **Whatever runs is regular**, within every budget. -/
theorem machine_regular (n : Nat) : (machine n).Regular :=
  Calls.regular_iff.mpr (machine_obeys closed_evolution n)

end Evaluation

end ScriptEngine
