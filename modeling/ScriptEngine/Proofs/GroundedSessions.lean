import ScriptEngine.Proofs.ErrorPlaces
import ScriptEngine.Proofs.GroundedRuns
/-!
# Engines in grounded states

A new engine is in a grounded state, and whatever it is asked for leads from such a state to
another. What is asked for is compared with what is asked for when an activity in the course of it
is cut off: if the activity was started in another kind of state, the cut would not be met. So the
states in the course of it are grounded too.

* `World.grounded_initial`, `Engine.grounded_create` : new engines.
* `Calls.Obey.cutAt`, `Calls.Awaits.known` : a run waits for nothing but what is started in grounded
  states.
* `Engine.Asks`, `Engine.Beside` : what may be asked for, and what else the host does.
* `World.Reachable` : the states that all of this leads to, those in the course of it among them.
* **`World.Reachable.grounded`** : all of them are grounded.
-/

namespace ScriptEngine

open Run Evaluation
open Faulty (fault)

variable {ε α : Type} {h : Heap} {again again' : Calls} {w w' v u : World}

/-! ## New engines -/

/-- Before anything ran there is the scope of the globals, which binds nothing. -/
theorem World.grounded_initial (settings : Settings) (clock : Float) (seed : UInt64) :
    (World.initial settings clock seed).Grounded where
  heap := {
    root := Nat.zero_lt_one
    rooted := ScopeOperation.rooted_initial settings clock seed
    bindings := by
      rintro ⟨_ | n⟩ e he
      · cases he
      · cases he
    stocked := {
      lists := fun items hitems => by simp [World.initial, Heap.initial] at hitems
      fields := fun o ho => by simp [World.initial, Heap.initial] at ho
      baked := fun o ho => by simp [World.initial, Heap.initial] at ho
      instances := fun o ho => by simp [World.initial, Heap.initial] at ho }
    constants := fun n hn => by simp [World.initial, Heap.initial] at hn
    closures := fun g hg => by simp [World.initial, Heap.initial] at hg
    superclasses :=
      fun id k super hk => by simp [Heap.scriptClass?, World.initial, Heap.initial] at hk
    methods := fun k hk => by simp [World.initial, Heap.initial] at hk
    extensions := fun k hk => by simp [World.initial, Heap.initial] at hk
    extended := fun cls base object hmem => by simp [World.initial, Heap.initial] at hmem }
  frame := Nat.zero_lt_one
  enclosing := nofun
  queues := nofun

namespace Library

theorem declare_lasts (s : ScopeId) (name : String) {v : Value} (hv : v.Known h) (constant : Bool) :
    (Script.declare s name v constant).Lasts h (Script.declare s name v constant) :=
  Script.declare_obeys trivial hv constant

theorem defineNative_lasts {n : Native} (hn : ∀ v, n.body = .constant v → v.Known h) :
    (defineNative n).Lasts h (defineNative n) := by
  have added : (Run.change fun w =>
    ((w.heap.addNative n).1, { w with heap := (w.heap.addNative n).2 }) :
      Script NativeId).Tame Law.grounding () h := by
    refine .putHeap (g := fun w => w.heap.addNative n) rfl ?_
    rintro w _ ⟨rfl, hw⟩ hg
    have hkept : w.heap.Persists (w.heap.addNative n).2 := .addNative _ n
    exact ⟨⟨⟨rfl, hw.withHeap (hw.heap.addNative fun v hv => (hn v hv).mono hg) hkept⟩, hkept⟩,
      trivial⟩
  exact .bind added fun id => declare_lasts (v := .native id) globalScope n.name
    (Value.known_of_ne nofun) false

theorem install_lasts : install.Lasts h install := by
  have functions : (Run.collect (fun b => defineNative (Builtin.native b)) Builtin.all).Lasts h
      (Run.collect (fun b => defineNative (Builtin.native b)) Builtin.all) :=
    (Run.Obeys.collect (Q := fun _ _ => True) (fun _ _ => trivial) _ fun b _ =>
      defineNative_lasts (by rintro _ ⟨⟩)).tame
  have number (name : String) (x : Float) : (Script.define globalScope name (.number x)).Lasts h
      (Script.define globalScope name (.number x)) :=
    declare_lasts (v := .number x) globalScope name (Value.known_of_ne nofun) false
  exact .bind functions fun _ => .bind (number "PI" pi) fun _ => number "E" euler

end Library

/-- Both ends are the same, and grounded if there is a state in which the run ended. -/
theorem Outcome.grounded_of_obeys [Faulty ε] {Q : Heap → α → Prop} {o : Outcome ε α}
    {o' : Law.grounding.Case → Outcome ε α} (ho : o.Obeys Law.grounding () h Q o') :
    o' () = o ∧ ∀ w, o.EndsIn w → w.Grounded := by
  cases ho with
  | @ok a v _ hv =>
    obtain ⟨rfl, hv⟩ := hv
    refine ⟨rfl, ?_⟩
    rintro _ (⟨_, ⟨⟩⟩ | ⟨_, ⟨⟩⟩)
    exact hv
  | @error e v _ hv =>
    obtain ⟨rfl, hv⟩ := hv
    refine ⟨rfl, ?_⟩
    rintro _ (⟨_, ⟨⟩⟩ | ⟨_, ⟨⟩⟩)
    exact hv
  | stopped =>
    refine ⟨rfl, ?_⟩
    rintro _ (⟨_, ⟨⟩⟩ | ⟨_, ⟨⟩⟩)
  | exhausted hlax => exact hlax.elim
  | carried _ he => exact he.elim

namespace Run.Grounds

variable [Faulty ε] {Q : Heap → α → Prop} {r r' : Run ε α} (hr : r.Grounds h Q r')
include hr

/-- Started in a grounded state, both runs do the same. -/
theorem same (hw : w.Grounded) (hg : h.Persists w.heap) : r' w = r w :=
  (Outcome.grounded_of_obeys (hr w (fun _ => w) ⟨rfl, hw⟩ hg)).1

/-- A run that is started in a grounded state ends in one. -/
theorem endsIn (hw : w.Grounded) (hg : h.Persists w.heap) (hend : (r w).EndsIn w') : w'.Grounded :=
  (Outcome.grounded_of_obeys (hr w (fun _ => w) ⟨rfl, hw⟩ hg)).2 w' hend

theorem ending : r.ending.Lasts h r'.ending := by
  have crossed : (r.mapError fault).Grounds h Q (r'.mapError fault) := .cross (fun _ => rfl) hr
  exact .bind crossed.tame fun _ => .done ()

end Run.Grounds

/-- **A new engine is in a grounded state**, with the library or without it. -/
theorem Engine.grounded_create (settings : Settings) (clock : Float) (seed : UInt64) :
    (Engine.create settings clock seed).Grounded := by
  have hinitial := World.grounded_initial settings clock seed
  have hinstall {w} (hend : (Library.install (World.initial settings clock seed)).EndsIn w) :
      w.Grounded :=
    Run.Grounds.endsIn Library.install_lasts hinitial (.refl _) hend
  unfold Engine.create
  -- the library is not to be installed while the terms are compared
  generalize Library.install = r at hinstall ⊢
  simp only
  split
  · cases hr : r (World.initial settings clock seed) with
    | ok a w => exact hinstall (.inl ⟨a, hr⟩)
    | error e w => exact hinstall (.inr ⟨e, hr⟩)
    | stopped s => exact hinitial
  · exact hinitial

/-! ## Cuts -/

/-- The activity is given no class that was not made. -/
def Activity.Known (h : Heap) : Activity → Prop
  | call callee args => callee.Known h ∧ ∀ v ∈ args, v.Known h
  | _ => True

theorem Activity.run_lasts (hc : again.Grounds again') {a : Activity} (ha : a.Known h) :
    (a.run again).Lasts h (a.run again') := by
  cases a with
  | evaluate e => exact Grounds.ending (hc.evaluate trivial trivial)
  | execute stmt => exact Grounds.ending (hc.execute trivial trivial fun _ _ _ _ _ => trivial)
  | call callee args => exact Grounds.ending (hc.call trivial ha.1 ha.2)
  | callVirtual this name args => exact Grounds.ending (hc.callVirtual this name args trivial)
  | readHost this name => exact Grounds.ending (hc.readHost this name trivial)

theorem Activity.step_lasts (hc : again.Grounds again') {a : Activity} (ha : a.Known h)
    (rounds : Nat) :
    (a.step rounds again).Lasts h (a.step rounds again') := by
  have hopens := Law.closed_grounding.opens
  have hserves := hc.serves (p := ()) hopens trivial
  have placed {β : Type} {Q : Heap → β → Prop} {span : Span} {r r' : Script β}
      (hr : r.Grounds h Q r') :
      (Script.placedAt span r).ending.Lasts h (Script.placedAt span r').ending :=
    Grounds.ending (Obeys.mapError hr (fun _ => id) fun _ => id)
  cases a with
  | evaluate e => exact placed (hc.valueOf hopens trivial trivial)
  | execute stmt =>
    exact placed (hc.step (fun _ => id) trivial (fun _ => .inl rfl) trivial fun _ _ _ _ _ =>
      trivial)
  | call callee args => exact Grounds.ending (Law.closed_grounding.callValue hc ha.1 ha.2)
  | callVirtual this name args =>
    exact Grounds.ending (Host.callVirtual_tame hserves this name args)
  | readHost this name => exact Grounds.ending (Host.readHost_tame hserves this name)

/-- A cut that is not met changes nothing. -/
theorem Run.Grounds.stopAt [Faulty ε] {Q : Heap → α → Prop} {r : Run ε α} (hr : r.Grounds h Q r)
    {meant : Prop} {s : Stop} (hnot : meant → v.Grounded → ¬h.Persists v.heap) :
    r.Grounds h Q (r.stopAt meant v s) := by
  rintro w _ ⟨rfl, hw⟩ hg
  have hsame : r.stopAt meant v s w = r w := by
    refine if_neg ?_
    rintro ⟨hmeant, rfl⟩
    exact hnot hmeant hw hg
  unfold ObeysAt
  simp only [hsame]
  exact hr w (fun _ => w) ⟨rfl, hw⟩ hg

/-- In grounded states no activity is met that is started in another kind of state, or with classes
that were not made. -/
theorem Calls.Obey.cutAt {b : Activity} (hc : again.Grounds again)
    (hnot : ¬(v.Grounded ∧ b.Known v.heap)) (s : Stop) : again.Grounds (again.cutAt b v s) where
  evaluate hp he := Grounds.stopAt (hc.evaluate hp he) fun hmeant hv _ =>
    hnot ⟨hv, hmeant ▸ trivial⟩
  execute hq hs hd := Grounds.stopAt (hc.execute hq hs hd) fun hmeant hv _ =>
    hnot ⟨hv, hmeant ▸ trivial⟩
  call hp hcallee ha := Grounds.stopAt (hc.call hp hcallee ha) fun hmeant hv hg =>
    hnot ⟨hv, hmeant ▸ ⟨Value.Known.mono hcallee hg, Value.known_all_mono ha hg⟩⟩
  callVirtual this name args hp :=
    Grounds.stopAt (hc.callVirtual this name args hp) fun hmeant hv _ =>
      hnot ⟨hv, hmeant ▸ trivial⟩
  readHost this name hp := Grounds.stopAt (hc.readHost this name hp) fun hmeant hv _ =>
    hnot ⟨hv, hmeant ▸ trivial⟩

/-- **Runs that are started in grounded states wait for nothing else.** -/
theorem Calls.Awaits.known {start : Calls → Run ε α} {b : Activity}
    (hawaits : again.Awaits start w b v) (hagain : again.Grounds again)
    (hstart : ∀ again', again.Grounds again' → start again' w = start again w) :
    v.Grounded ∧ b.Known v.heap := by
  by_contra hnot
  have hstops (s : Stop) : start again w = .stopped s := by
    rw [← hstart _ (Calls.Obey.cutAt hagain hnot s)]
    exact hawaits s
  -- no run stops for both reasons
  exact absurd ((hstops .exhausted).symm.trans (hstops .stuck)) nofun

/-! ## What an engine is asked for -/

namespace Engine

theorem runTask_grounds (hc : again.Grounds again') {job : Job} (hj : job.Known h) :
    (runTask again job).Grounds h Law.grounding.Known (runTask again' job) :=
  Law.closed_grounding.runTask hc trivial hj.scope (Law.knownTask_iff.mpr hj.task)

/-- **A job** runs in the scope that it was left with, whatever becomes of it. -/
theorem runJob_lasts (hc : again.Grounds again') {job : Job} (hj : job.Known h) :
    (runJob again job).Lasts h (runJob again' job) :=
  fun w w' hw hg => runJob_obeysAt (runTask_grounds hc hj w w' hw hg) fun _ _ _ _ => id

/-- Nothing is handed in with the request but what is there. -/
def Request.Known (h : Heap) : Request → Prop
  | .call callee args => callee.Known h ∧ ∀ v ∈ args, v.Known h
  | .handOff task => task.Known h
  | _ => True

/-- The run of the request, but for its value, where given calls are started. -/
def Request.start (again : Calls) : Request → Script Unit
  | .execute source => (sourceBy again source).ending
  | .runProgram program => (programIn again globalScope program).ending
  | .call callee args => (Run.inFrame (fun _ => .top globalScope) (again.call callee args)).ending
  | .handOff task => (runTask again ⟨globalScope, task⟩).ending
  | .callVirtual this name args => (again.callVirtual this name args).ending
  | .readHost this name => (again.readHost this name).ending

theorem Request.endsIn_start {c : Request} (hleads : c.Leads again w w') :
    (c.start again w).EndsIn w' := by
  cases c <;> exact endsIn_ending hleads

/-- What may be asked for where `h` is the heap: requests, and jobs that waited. -/
inductive Asks (h : Heap) : (Calls → Script Unit) → Prop
  | request (c : Request) (hc : c.Known h) : Asks h fun again => c.start again
  | job {job : Job} (hj : job.Known h) : Asks h fun again => (runTask again job).ending

theorem Request.start_lasts (hc : again.Grounds again') {c : Request} (hknown : c.Known h)
    (hroot : 0 < h.scopes.size) : (c.start again).Lasts h (c.start again') := by
  have atGlobal {β : Type} {Q : Heap → β → Prop} {r r' : Script β} (hr : r.Grounds h Q r') :
      (Run.inFrame (fun _ => .top globalScope) r).Grounds h Q
        (Run.inFrame (fun _ => .top globalScope) r') := by
    refine .inFrame (.top globalScope) ?_ hr
    rintro _ ⟨⟩
    exact hroot
  have program (program : List Stmt) :
      (programIn again globalScope program).Grounds h Law.grounding.Known
        (programIn again' globalScope program) :=
    atGlobal (hc.interpretAfter trivial (fun _ _ => trivial) (fun _ _ _ _ => trivial)
      Value.known_null)
  cases c with
  | execute source =>
    have text : (sourceBy again source).Grounds h Law.grounding.Known (sourceBy again' source) := by
      unfold sourceBy
      cases Parser.programOf? source with
      | error f => exact fun w w' hw _ => .error hw (.refl _) trivial
      | ok parsed => exact .mapError (program parsed) (fun _ => id) fun _ => id
    exact Grounds.ending text
  | runProgram parsed => exact Grounds.ending (program parsed)
  | call callee args => exact Grounds.ending (atGlobal (hc.call trivial hknown.1 hknown.2))
  | handOff task =>
    exact Grounds.ending (runTask_grounds hc ⟨hroot, hknown⟩)
  | callVirtual this name args => exact Grounds.ending (hc.callVirtual this name args trivial)
  | readHost this name => exact Grounds.ending (hc.readHost this name trivial)

theorem Asks.lasts {start : Calls → Script Unit} (hstart : Asks h start) (hc : again.Grounds again')
    (hroot : 0 < h.scopes.size) : (start again).Lasts h (start again') := by
  cases hstart with
  | request c hknown => exact c.start_lasts hc hknown hroot
  | job hj => exact Grounds.ending (runTask_grounds hc hj)

/-! ### Queues -/

theorem takeJob_cases (queue : String) (w : World) :
    takeJob queue w = (none, w) ∨ ∃ job queues, takeJob queue w = (some job, { w with queues }) ∧
      (∃ e ∈ w.queues, job ∈ e.2) ∧ ∀ e ∈ queues, ∀ j ∈ e.2, ∃ e' ∈ w.queues, j ∈ e'.2 := by
  unfold takeJob
  cases hpending : pending w queue with
  | nil => exact .inl rfl
  | cons job jobs =>
    obtain ⟨old, hold, hjobs⟩ : ∃ e ∈ w.queues, e.2 = job :: jobs := by
      unfold pending at hpending
      cases hlookup : w.queues.lookup queue with
      | none => rw [hlookup] at hpending; cases hpending
      | some found =>
        rw [hlookup] at hpending
        obtain ⟨before, rest, hsplit, -⟩ := List.lookup_eq_some_iff.mp hlookup
        exact ⟨(queue, found), by simp [hsplit], hpending⟩
    refine .inr ⟨job, _, rfl, ⟨old, hold, hjobs ▸ List.mem_cons_self⟩, fun e he j hj => ?_⟩
    obtain ⟨e', he', rfl⟩ := List.mem_map.mp he
    simp only at hj
    split at hj
    · exact ⟨old, hold, hjobs ▸ List.mem_cons_of_mem _ hj⟩
    · exact ⟨e', he', hj⟩

/-- A job that is taken off a queue waited with a scope that is there. -/
theorem takeJob_grounds (queue : String) (hw : w.Grounded) :
    (∀ job ∈ (takeJob queue w).1, job.Known w.heap) ∧ (takeJob queue w).2.Grounded ∧
      (takeJob queue w).2.heap = w.heap := by
  rcases takeJob_cases queue w with hnone | ⟨job, queues, hsome, ⟨old, hold, hjob⟩, hqueues⟩
  · rw [hnone]
    exact ⟨nofun, hw, rfl⟩
  · rw [hsome]
    refine ⟨?_, { hw with queues := fun e he j hj => ?_ }, rfl⟩
    · rintro _ ⟨⟩
      exact hw.queues old hold job hjob
    · obtain ⟨e', he', hj'⟩ := hqueues e he j hj
      exact hw.queues e' he' j hj'

/-- Jobs are taken off and run, one after another. -/
theorem drain_lasts (hc : calls.Grounds calls) (queue : String) : ∀ (rounds ran : Nat) {h : Heap},
    (drain queue rounds ran).Lasts h (drain queue rounds ran)
  | 0, _, _ => fun _ _ _ _ => .stopped trivial
  | rounds + 1, ran, h => by
    have taken : (Run.change (takeJob queue) : Script (Option Job)).Grounds h
        (fun h' o => ∀ job ∈ o, job.Known h') (Run.change (takeJob queue)) := by
      rintro w _ ⟨rfl, hw⟩ _
      obtain ⟨hjob, htaken, hheap⟩ := takeJob_grounds queue hw
      have hkept : w.heap.Persists (takeJob queue w).2.heap := by
        rw [hheap]
        exact .refl _
      exact .ok ⟨rfl, htaken⟩ hkept fun job hmem => (hjob job hmem).mono hkept
    refine .andThen taken fun h₁ job _ hjob => ?_
    cases job with
    | none => exact .done _
    | some job =>
      exact .bind (runJob_lasts hc (hjob job rfl)) fun _ => drain_lasts hc queue rounds (ran + 1)

/-! ### The host -/

/-- What the host does with an engine beside asking for something. Whatever it hands in is made of
things that are there. -/
inductive Beside : World → World → Prop
  | register (path : String) (cls : HostClassId) (w : World) : Beside w (register path cls w)
  | setScheduler (name : String) (scheduler : Scheduler) (w : World) :
      Beside w (setScheduler name scheduler w)
  | takeOutput (w : World) : Beside w (takeOutput w).2
  | takeJob (queue : String) (w : World) : Beside w (takeJob queue w).2
  | time (clock : Float) (seed : UInt64) (w : World) : Beside w { w with clock, seed }
  /-- It supplies a text and a value. -/
  | supply (context : Option String) {enclosing : Option Value} {w : World}
      (hknown : ∀ v ∈ enclosing, v.Known w.heap) :
    Beside w { w with environment := { w.environment with context, enclosing } }
  /-- It binds a global, as a constant or not. -/
  | declare {name : String} {v : Value} {constant : Bool} {w w' : World} (hknown : v.Known w.heap)
    (hend : (Script.declare globalScope name v constant w).EndsIn w') : Beside w w'
  /-- It binds a global to a native function. -/
  | native {n : Native} {w w' : World} (hknown : ∀ v, n.body = .constant v → v.Known w.heap)
    (hend : (Library.defineNative n w).EndsIn w') : Beside w w'
  /-- It makes a list. -/
  | list {items : Array Value} {w : World} (hknown : ∀ v ∈ items, v.Known w.heap) :
    Beside w { w with heap := (w.heap.addList items).2 }
  /-- It makes a plain object. -/
  | fields {fields : Fields} {w : World} (hknown : ∀ e ∈ fields, e.2.Known w.heap) :
    Beside w { w with heap := (w.heap.addFields fields).2 }
  /-- It makes a class. -/
  | hostClass (k : HostClass) (w : World) : Beside w { w with heap := (w.heap.addHostClass k).2 }
  /-- It makes an object of one of its classes. -/
  | hostObject {o : HostObject} {w : World}
      (hplain : ∀ cls base object, o ≠ .extended cls base object) :
    Beside w { w with heap := (w.heap.addHostObject o).2 }

theorem Beside.grounded (hb : Beside w w') (hw : w.Grounded) : w'.Grounded := by
  have moved {h' : Heap} (hm : w.heap.Moves h') (hs : h'.Stocked w.heap.stock) :
      (w.withHeap h').Grounded :=
    hw.withHeap (hw.heap.of_moves hm hs) (.of_moves hm)
  have hstocked := hw.heap.stocked
  cases hb with
  | register | takeOutput | time => exact { hw with }
  | setScheduler name scheduler =>
    refine { hw with queues := fun e he => ?_ }
    simp only [Engine.setScheduler] at he
    split at he
    · exact hw.queues e (List.mem_of_mem_filter he)
    · exact hw.queues e he
  | takeJob queue =>
    rcases takeJob_cases queue w with hnone | ⟨job, queues, hsome, -, hqueues⟩
    · rw [hnone]
      exact hw
    · rw [hsome]
      refine { hw with queues := fun e he j hj => ?_ }
      obtain ⟨e', he', hj'⟩ := hqueues e he j hj
      exact hw.queues e' he' j hj'
  | supply context hknown => exact { hw with enclosing := hknown }
  | declare hknown hend =>
    exact Grounds.endsIn (Library.declare_lasts _ _ hknown _) hw (.refl _) hend
  | native hknown hend => exact Grounds.endsIn (Library.defineNative_lasts hknown) hw (.refl _) hend
  | list hknown => exact moved (Heap.moves_addList _ _) (hstocked.addList hknown)
  | fields hknown => exact moved (Heap.moves_addObject _ _) (hstocked.addFields hknown)
  | hostClass k => exact hw.withHeap (hw.heap.addHostClass k) (.addHostClass _ k)
  | hostObject hplain => exact moved (Heap.moves_addHostObject _ hplain) { hstocked with }

end Engine

/-! ## States that are reached -/

namespace World

/-- The states of an engine whose host asks for one thing after another, drains queues in between
and does what it does beside. In the course of what is asked for every state counts in which an
expression, a statement or a call is started, and the one in which it ends. -/
inductive Reachable : World → Prop
  | created (settings : Settings) (clock : Float) (seed : UInt64) :
      Reachable (Engine.create settings clock seed)
  | asked {w w' : World} (c : Engine.Request) (hw : Reachable w) (hc : c.Known w.heap)
      (hleads : c.Leads calls w w') :
    Reachable w'
  | drained {w w' : World} (queue : String) (hw : Reachable w)
      (hend : (Engine.runPending queue w).EndsIn w') :
    Reachable w'
  | beside {w w' : World} (hw : Reachable w) (hbeside : Engine.Beside w w') : Reachable w'
  | started {start : Calls → Script Unit} {w v : World} {n : Nat} {b : Activity} (hw : Reachable w)
    (hstart : Engine.Asks w.heap start) (hstarts : Starts start w n b v) : Reachable v
  | ended {start : Calls → Script Unit} {w v u : World} {n : Nat} {b : Activity} (hw : Reachable w)
      (hstart : Engine.Asks w.heap start) (hstarts : Starts start w n b v)
      (hend : (b.run (machine n) v).EndsIn u) :
    Reachable u

/-- Whatever is started in the course of what is asked for in a grounded state is started in one,
with nothing but what is there. -/
theorem Grounded.starts {start : Calls → Script Unit} {n : Nat} {b : Activity} (hw : w.Grounded)
    (hstart : Engine.Asks w.heap start) (hstarts : Starts start w n b v) :
    v.Grounded ∧ b.Known v.heap := by
  induction hstarts with
  | first hawaits =>
    refine hawaits.known (machine_grounds budget) fun again' hc => ?_
    exact Grounds.same (hstart.lasts hc hw.heap.root) hw (.refl _)
  | @next n a b v u _ hawaits ih =>
    obtain ⟨hv, ha⟩ := ih
    refine hawaits.known (machine_grounds n) fun again' hc => ?_
    exact Grounds.same (a.step_lasts hc ha n) hv (.refl _)

/-- **All states that are reached are grounded.** -/
theorem Reachable.grounded (hw : w.Reachable) : w.Grounded := by
  induction hw with
  | created settings clock seed => exact Engine.grounded_create settings clock seed
  | asked c _ hc hleads ih =>
    exact Grounds.endsIn (c.start_lasts (machine_grounds budget) hc ih.heap.root) ih (.refl _)
      (c.endsIn_start hleads)
  | drained queue _ hend ih =>
    exact Grounds.endsIn (Engine.drain_lasts (machine_grounds budget) queue budget 0) ih (.refl _)
      hend
  | beside _ hbeside ih => exact hbeside.grounded ih
  | started _ hstart hstarts ih => exact (ih.starts hstart hstarts).1
  | ended _ hstart hstarts hend ih =>
    obtain ⟨hv, hb⟩ := ih.starts hstart hstarts
    exact Grounds.endsIn (Activity.run_lasts (machine_grounds _) hb) hv (.refl _) hend

end World

end ScriptEngine
