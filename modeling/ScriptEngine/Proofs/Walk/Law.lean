import ScriptEngine.Evaluation.Machine
import ScriptEngine.Proofs.Instances
/-!
# Laws of running code

Evaluation is one recursion, so whatever is to be said of all that runs is said along one walk over
it. What differs from one such statement to the next is put into a law: the states that it is about,
what a run may do to the heap, which values and which code may be about, and what errors may look
like. The walk over the machine is gone once, for all laws.

A law compares a run with others, one for each `Case`, which may be none. The states of the other
runs are those of the run but for what waits in the queues and for how deep in functions the code
stands, as long as it stands inside of one or outside of all of them: nothing else in a state can
tell two runs apart that do the same.

* `World.aside`, `World.Near` : the states that runs are compared in.
* `Shift` : the ways in which the frame is changed (`loopFrame`, `switchFrame`, `functionFrame`,
  another scope, the top), with the frames they lead to.
* `Ref` : what code refers to besides values.
* `Terms` : what a law is about. `Terms.Alters` has one constructor for each change of the heap.
* `Law` : the terms with the facts that the walk needs. All fields that say nothing where the terms
  are trivial are filled in by default, so a law that is about little is short.
* `Law.unhandled` : the same law with no errors carried, which handlers take.
-/

namespace ScriptEngine

/-! ## States beside each other -/

/-- The frame as many functions deep. -/
def Frame.atDepth (n : Nat) (f : Frame) : Frame := { f with functionDepth := n }

/-- Both numbers of functions are outside of all of them, or neither is. -/
def Frame.Alike (n : Nat) (f : Frame) : Prop := n = 0 ↔ f.functionDepth = 0

/-- Queues, and the jobs in each, the oldest first. -/
abbrev Queues := List (String × List Job)

namespace World

/-- The same state as many functions deep. -/
def atDepth (n : Nat) (w : World) : World := { w with frame := w.frame.atDepth n }

/-- The same state with other queues. -/
def withQueues (queues : Queues) (w : World) : World := { w with queues }

/-- The same state with other queues, as many functions deep. -/
def aside (w : World) (queues : Queues) (n : Nat) : World :=
  { w with queues, frame := w.frame.atDepth n }

/-- But for queues and depth the second state is the first one. -/
def Near (w w' : World) : Prop := ∃ queues n, w' = w.aside queues n ∧ w.frame.Alike n

/-- The same state with another heap. -/
def withHeap (w : World) (heap : Heap) : World := { w with heap }

end World

/-- The heap in which a slot of the host instance that an object is or holds has been set. -/
def Heap.withSlot (h : Heap) (id : HostId) (name : String) (data : HostData) : Heap :=
  { h with hostObjects := h.hostObjects.modify (h.concrete id).index fun o =>
      match o with
      | .plain cls slots => .plain cls (Host.putSlot name data slots)
      | o => o }

/-! ## Frames -/

/-- A way to another frame. -/
inductive Shift
  | scope (s : ScopeId)
  | loop
  | switch (s : ScopeId)
  | function (s : ScopeId)
  | top (s : ScopeId)

namespace Shift

/-- The frame that the way leads to. -/
def apply : Shift → Frame → Frame
  | scope s => fun f => { f with scope := s }
  | loop => Evaluation.loopFrame
  | switch s => Evaluation.switchFrame s
  | function s => Evaluation.functionFrame s
  | top s => fun _ => .top s

/-- The scope of that frame, if it is another one. -/
def scope? : Shift → Option ScopeId
  | scope s | switch s | function s | top s => some s
  | loop => none

/-- The frame is in that scope. -/
theorem scope_apply (shift : Shift) (f : Frame) :
    (shift.apply f).scope = shift.scope?.getD f.scope := by
  cases shift <;> rfl

/-- Frames of different depths become frames of different depths, or the same frame. -/
theorem apply_atDepth (shift : Shift) {f : Frame} {n : Nat} (hn : f.Alike n) :
    (shift.apply f).Alike (shift.apply (f.atDepth n)).functionDepth ∧
      shift.apply (f.atDepth n) = (shift.apply f).atDepth
        (shift.apply (f.atDepth n)).functionDepth := by
  cases shift with
  | scope | loop | switch => exact ⟨hn, rfl⟩
  | function => exact ⟨iff_of_false (Nat.succ_ne_zero _) (Nat.succ_ne_zero _), rfl⟩
  | top => exact ⟨Iff.rfl, rfl⟩

end Shift

/-! ## Terms -/

/-- Something in a heap that code refers to, besides values. -/
inductive Ref
  | scope (s : ScopeId)
  /-- A scope that was made inside another one. -/
  | inner (s : ScopeId)
  | function (id : FunctionId)
  | object (id : ObjectId)
  | hostClass (id : HostClassId)

/-- Neither a native function nor a class of a script. -/
def Value.Common : Value → Prop
  | .native _ | .scriptClass _ => False
  | _ => True

/-- What a law says of states and of how their heaps change. -/
structure Terms where
  /-- The other runs that a run is compared with. -/
  Case : Type
  /-- What is known of the states a run is in, apart from the state itself. -/
  Place : Type
  /-- The state of the run, with the states of the others. -/
  Holds : Place → World → (Case → World) → Prop
  /-- What a run at the place may do to a heap. -/
  Keeps : Place → Heap → Heap → Prop
  /-- The value may be about. -/
  Known : Heap → Value → Prop := fun _ _ => True
  There : Heap → Ref → Prop := fun _ _ => True
  /-- The values may be baked into an instance. -/
  Bakes : Heap → Fields → Prop := fun _ _ => True
  /-- The name may be bound in the scope. -/
  Binds : Place → ScopeId → String → Prop := fun _ _ _ => True
  function : FunctionDecl → Prop := fun _ => True
  staticBlock : List Stmt → Prop := fun _ => True

namespace Terms

variable (T : Terms)

/-- One change of the heap by code at the place, but for new scopes. -/
inductive Alters (p : T.Place) (h : Heap) : Heap → Prop
  | declared {s : ScopeId} {name : String} {b : Binding} (hs : h.declareError? s name = none)
      (hp : T.Binds p s name) (hb : T.Known h b.value) : Alters p h (h.bind s name b)
  | assigned {s owner : ScopeId} {name : String} {v : Value}
      (hs : h.assignTarget s name = .ok owner) (hv : T.Known h v) :
      Alters p h (h.bind owner name ⟨v, false⟩)
  | list {items : Array Value} (hi : ∀ v ∈ items, T.Known h v) : Alters p h (h.addList items).2
  | items (id : ListId) {f : Array Value → Array Value}
      (hf : ∀ items : Array Value, (∀ v ∈ items, T.Known h v) → ∀ v ∈ f items, T.Known h v) :
      Alters p h (h.changeList id f)
  | fields {fields : Fields} (hf : ∀ e ∈ fields, T.Known h e.2) : Alters p h (h.addFields fields).2
  /-- A new instance of a class has no fields yet. -/
  | made {cls : ClassId} {baked : Fields} (hc : T.Known h (.scriptClass cls))
      (hb : T.Bakes h baked) :
      Alters p h (h.addObject ⟨some cls, [], baked⟩).2
  /-- A field is set where nothing is baked in for it. -/
  | field {id : ObjectId} {name : String} {v : Value} (hn : Evaluation.isBaked h id name = false)
      (hv : T.Known h v) : Alters p h (h.putField id name v)
  | function {decl : FunctionDecl} {s : ScopeId} (hd : T.function decl)
      (hs : T.There h (.scope s)) :
      Alters p h (h.addFunction ⟨decl, s⟩).2
  /-- The only native functions that are made by running code. -/
  | getter (name : String) {v : Value} (hv : T.Known h v) :
      Alters p h (h.addNative ⟨name, 0, some 0, .constant v⟩).2
  | scriptClass {k : ScriptClass} (hk : ∀ block ∈ k.staticBlock, T.staticBlock block)
      (hsuper : ∀ super ∈ k.superclass, T.Known h (.scriptClass super))
      (hmethods : ∀ m ∈ k.methods, T.There h (.function m.2)) (hextension : k.extension = none) :
      Alters p h (h.addClass k).2
  | extension (script : ClassId) (base : HostClassId) : Alters p h (h.withExtension script base)
  | hostObject {o : HostObject} (ho : ∀ cls base object, o = .extended cls base object →
      T.There h (.hostClass cls) ∧ T.There h (.object object)) : Alters p h (h.addHostObject o).2
  | slot (id : HostId) (name : String) (data : HostData) : Alters p h (h.withSlot id name data)

/-- The place is one where the name may be bound in the scope that is running. -/
def Declares (p : T.Place) (name : String) : Prop :=
  ∀ w w', T.Holds p w w' → T.Binds p w.frame.scope name

/-- The heap may take the place of that of the state. -/
structure Admits (p : T.Place) (w : World) (w' : T.Case → World) (h : Heap) : Prop where
  holds : T.Holds p (w.withHeap h) fun i => (w' i).withHeap h
  keeps : T.Keeps p w.heap h

end Terms

/-! ## Laws -/

/-- Terms with all that a walk over the machine needs to know of them. -/
structure Law extends Terms where
  /-- The second heap is one that the first may have become. -/
  Later : Heap → Heap → Prop := fun _ _ => True
  native : NativeBody → Prop := fun _ => True
  hostClass : HostClass → Prop := fun _ => True
  /-- Code may read what the name is bound to, whatever it is. -/
  readable : String → Prop := fun _ => True
  /-- The signal may leave a statement at the place. -/
  Allowed : Place → Flow → Prop := fun _ _ => True
  /-- There may be room for one more call. -/
  Room : Place → Prop := fun _ => True
  /-- The error may be that of all runs. -/
  fits : Fault → Prop := fun _ => True
  /-- The error may be that of the run where the others stop, each for its reason. -/
  carries : Fault → Prop := fun _ => False
  cut : Case → Stop := fun _ => .exhausted
  /-- The reason for which all runs may stop. -/
  stops : Stop → Prop := fun _ => True
  /-- The run may be exhausted where the others are not. -/
  lax : Prop := False
  near : ∀ {p w w'}, Holds p w w' → ∀ i, w.Near (w' i)
  later_refl : ∀ h, Later h h := by intros; trivial
  later_trans : ∀ {h h' h''}, Later h h' → Later h' h'' → Later h h'' := by intros; trivial
  keeps_refl : ∀ p h, Keeps p h h := by intros; trivial
  keeps_trans : ∀ {p h h' h''}, Keeps p h h' → Keeps p h' h'' → Keeps p h h'' := by intros; trivial
  later_of_keeps : ∀ {p h h'}, Keeps p h h' → Later h h' := by intros; trivial
  -- changes
  alters : ∀ {p w w' h}, Holds p w w' → toTerms.Alters p w.heap h → toTerms.Admits p w w' h
  /-- What was written, the clock and the generator of random numbers are no part of any law. -/
  aside : ∀ {p w w'}, Holds p w w' → ∀ output clock seed,
    Holds p { w with output, clock, seed } fun i => { w' i with output, clock, seed }
  -- frames
  enter : Shift → Place → Place
  holds_enter : ∀ {p w w'} (shift : Shift), Holds p w w' →
    (∀ s ∈ shift.scope?, There w.heap (.scope s)) →
    Holds (enter shift p) { w with frame := shift.apply w.frame }
      fun i => { w' i with frame := shift.apply (w' i).frame }
  holds_leave : ∀ {p w w' v v'} (shift : Shift), Holds p w w' → Holds (enter shift p) v v' →
    Keeps (enter shift p) w.heap v.heap →
    Holds p { v with frame := w.frame } fun i => { v' i with frame := (w' i).frame }
  keeps_enter : ∀ {p h h'} (shift : Shift), Keeps (enter shift p) h h' → Keeps p h h' := by
    intros; assumption
  declares_enter : ∀ {p shift s name}, Shift.scope? shift = some s → Binds p s name →
    toTerms.Declares (enter shift p) name := by intros; exact fun _ _ _ => trivial
  declares_loop : ∀ {p name}, toTerms.Declares p name → toTerms.Declares (enter .loop p) name := by
    intros; exact fun _ _ _ => trivial
  -- new scopes
  child : Place → ScopeId → Place := fun p _ => p
  holds_child : ∀ {p w w' parent}, Holds p w w' → There w.heap (.scope parent) →
    Holds (child p (w.heap.addChild parent).1) (w.withHeap (w.heap.addChild parent).2)
      fun i => (w' i).withHeap (w.heap.addChild parent).2
  holds_of_child : ∀ {p s w w'}, Holds (child p s) w w' → Holds p w w' := by intros; assumption
  later_child : ∀ h parent, Later h (h.addChild parent).2 := by intros; trivial
  keeps_of_child : ∀ {p h h' parent},
    Keeps (child p (h.addChild parent).1) (h.addChild parent).2 h' → Keeps p h h' := by
    intros; trivial
  binds_child : ∀ p s name, Binds (child p s) s name := by intros; trivial
  there_child : ∀ {p w w'} (parent : ScopeId), Holds p w w' →
    There (w.heap.addChild parent).2 (.scope (w.heap.addChild parent).1) ∧
      There (w.heap.addChild parent).2 (.inner (w.heap.addChild parent).1) := by
    intros; exact ⟨trivial, trivial⟩
  -- calls and threads
  /-- Inside a call that is made at the first place the run is at the second one. -/
  Inside : Place → Place → Prop
  room : ∀ {p w w'}, Holds p w w' → w.callDepth < w.environment.settings.maxCallDepth →
    Room p := by intros; trivial
  holds_call : ∀ {p q w w'}, Inside p q → Holds p w w' →
    w.callDepth < w.environment.settings.maxCallDepth →
    Holds q { w with callDepth := w.callDepth + 1 }
      fun i => { w' i with callDepth := (w' i).callDepth + 1 }
  holds_return : ∀ {p q w w'}, Inside p q → Holds q w w' →
    Holds p { w with callDepth := w.callDepth - 1 }
      fun i => { w' i with callDepth := (w' i).callDepth - 1 }
  keeps_call : ∀ {p q h h'}, Inside p q → Keeps q h h' → Keeps p h h' := by intros; trivial
  /-- On a thread that is started at the first place the run is at the second one. -/
  Beside : Place → Place → Prop
  holds_thread : ∀ {p q w w'}, Beside p q → Holds p w w' →
    Holds q { w with callDepth := 0 } fun i => { w' i with callDepth := 0 }
  holds_join : ∀ {p q w w' v v'}, Beside p q → Holds p w w' → Holds q v v' → Keeps q w.heap v.heap →
    Holds p { v with callDepth := w.callDepth } fun i => { v' i with callDepth := (w' i).callDepth }
  keeps_thread : ∀ {p q h h'}, Beside p q → Keeps q h h' → Keeps p h h' := by intros; trivial
  -- what is in a state
  scope_there : ∀ {p w w'}, Holds p w w' → There w.heap (.scope w.frame.scope) := by intros; trivial
  globals_there : ∀ {p w w'}, Holds p w w' → There w.heap (.scope globalScope) := by intros; trivial
  function_at : ∀ {p w w'}, Holds p w w' → ∀ g ∈ w.heap.functions, function g.decl
  closure_there : ∀ {p w w'}, Holds p w w' → ∀ g ∈ w.heap.functions,
    There w.heap (.scope g.closure) := by
    intros; trivial
  staticBlock_at : ∀ {p w w'}, Holds p w w' → ∀ k ∈ w.heap.classes, ∀ block ∈ k.staticBlock,
    staticBlock block
  native_at : ∀ {p w w'}, Holds p w w' → ∀ {id n}, Known w.heap (.native id) →
    w.heap.native? id = some n →
    native n.body
  constant_known : ∀ {p w w'}, Holds p w w' → ∀ {id n v}, Known w.heap (.native id) →
    w.heap.native? id = some n → n.body = .constant v → Known w.heap v := by intros; trivial
  hostClass_at : ∀ {p w w'}, Holds p w w' → ∀ k ∈ w.heap.hostClasses, hostClass k
  extension_there : ∀ {p w w'}, Holds p w w' →
    ∀ {script k cls}, w.heap.scriptClass? script = some k →
    k.extension = some cls → There w.heap (.hostClass cls) := by intros; trivial
  lookup_known : ∀ {p w w'}, Holds p w w' → ∀ {s name v}, w.heap.lookup s name = some v →
    (readable name ∨ ∀ id, v ≠ .native id) → Known w.heap v := by intros; trivial
  locals_known : ∀ {p w w'}, Holds p w w' → ∀ {s}, There w.heap (.inner s) →
    ∀ e ∈ w.heap.localBindings s,
    Known w.heap e.2 := by intros; trivial
  list_known : ∀ {p w w'}, Holds p w w' → ∀ id, ∀ v ∈ w.heap.list id,
    Known w.heap v := by intros; trivial
  fields_known : ∀ {p w w'}, Holds p w w' → ∀ id, ∀ e ∈ (w.heap.object id).fields,
    Known w.heap e.2 := by
    intros; trivial
  baked_known : ∀ {p w w'}, Holds p w w' → ∀ id, ∀ e ∈ (w.heap.object id).baked,
    Known w.heap e.2 := by
    intros; trivial
  enclosing_known : ∀ {p w w'}, Holds p w w' → native .enclosing → ∀ v ∈ w.environment.enclosing,
    Known w.heap v := by intros; trivial
  readable_of_native : native .lookupHere ∨ native .lookupGlobal → ∀ name, readable name := by
    intros; trivial
  -- what is known
  known_common : ∀ {h} {v : Value}, v.Common → Known h v := by intros; trivial
  known_later : ∀ {h h' v}, Later h h' → Known h v → Known h' v := by intros; trivial
  there_later : ∀ {h h' ref}, Later h h' → There h ref → There h' ref := by intros; trivial
  bakes_bakedFrom : ∀ {h} {bindings : List (String × Value)}, (∀ e ∈ bindings, Known h e.2) →
    Bakes h (Evaluation.bakedFrom bindings) := by intros; trivial
  bakes_later : ∀ {h h' fields}, Later h h' → Bakes h fields → Bakes h' fields := by intros; trivial
  -- what is new
  there_function : ∀ h g, There (Heap.addFunction g h).2 (.function (Heap.addFunction g h).1) := by
    intros; trivial
  there_object : ∀ h o, There (Heap.addObject o h).2 (.object (Heap.addObject o h).1) := by
    intros; trivial
  there_extension : ∀ h script base, There (Heap.withExtension h script base)
    (.hostClass ⟨h.hostClasses.size⟩) := by intros; trivial
  known_class : ∀ h k, Known (Heap.addClass k h).2 (.scriptClass (Heap.addClass k h).1) := by
    intros; trivial
  known_native : ∀ {p w w'}, Holds p w w' → ∀ n,
    Known (w.heap.addNative n).2 (.native (w.heap.addNative n).1) := by intros; trivial
  -- signals
  allowed_normal : ∀ p, Allowed p .normal := by intros; trivial
  allowed_ret : ∀ {p w w'}, Holds p w w' → w.frame.functionDepth ≠ 0 → ∀ v, Allowed p (.ret v) := by
    intros; trivial
  allowed_brk : ∀ {p w w'}, Holds p w w' → ¬(w.frame.loopDepth = 0 ∧ w.frame.switchDepth = 0) →
    Allowed p .brk := by intros; trivial
  allowed_cont : ∀ {p w w'}, Holds p w w' → w.frame.loopDepth ≠ 0 →
    Allowed p .cont := by intros; trivial
  allowed_scope : ∀ {p s flow}, Allowed (enter (.scope s) p) flow →
    Allowed p flow := by intros; trivial
  allowed_child : ∀ {p s flow}, Allowed (child p s) flow → Allowed p flow := by intros; trivial
  allowed_loop : ∀ {p flow}, Allowed (enter .loop p) flow → ∀ a ∈ Evaluation.afterBody flow,
    Allowed p a := by
    intros; trivial
  allowed_switch : ∀ {p s flow}, Allowed (enter (.switch s) p) flow →
    Allowed p (Evaluation.afterSwitch flow) := by intros; trivial
  -- errors and stops
  fits_fresh : ∀ {f : Fault}, f.span = none → fits f := by intros; trivial
  fits_static : ∀ {name f}, fits f → fits (Evaluation.staticFault name f) := by intros; trivial
  fits_source : ∀ {source f}, Parser.programOf? source = .error f → fits f := by intros; trivial
  stuck : stops .stuck := by trivial

namespace Law

variable {L : Law} {p q : L.Place} {w : World} {w' : L.Case → World} {h h' : Heap}

theorem heap_eq (hw : L.Holds p w w') (i : L.Case) : (w' i).heap = w.heap := by
  obtain ⟨queues, n, heq, -⟩ := L.near hw i
  rw [heq]
  rfl

/-- A place that code at another place comes to inside one activity. -/
inductive Within (L : Law) (p : L.Place) : L.Place → Prop
  | refl : Within L p p
  | enter {q : L.Place} (hq : Within L p q) (shift : Shift) : Within L p (L.enter shift q)
  | child {q : L.Place} (hq : Within L p q) (s : ScopeId) : Within L p (L.child q s)

/-- The span may be put where an error has none yet. -/
structure Places (L : Law) (span : Span) : Prop where
  fits : ∀ {f : Fault}, L.fits f → L.fits (f.orSpan span)
  carries : ∀ {f : Fault}, L.carries f → L.carries (f.orSpan span)

/-- How often a loop may go round: as often as the other one, or less often if it may be
exhausted. -/
def Rounds (L : Law) (n m : Nat) : Prop := n = m ∨ L.lax ∧ n ≤ m

/-- How a statement may end: with a signal that is allowed, and with a value that is known. -/
structure Ends (L : Law) (p : L.Place) (h : Heap) (flow : Flow) : Prop where
  allowed : L.Allowed p flow
  known : ∀ v, flow = .ret v → L.Known h v

/-- A task that calls what may be about. -/
def KnownTask (L : Law) (h : Heap) : Task → Prop
  | .call callee => L.Known h callee
  | .source _ => True

/-- The law with no errors carried: what handlers take is not meant by it. -/
def unhandled (L : Law) : Law := { L with carries := fun _ => False }

theorem known_null : L.Known h .null := L.known_common trivial

theorem Within.trans {r : L.Place} (hq : L.Within p q) (hr : L.Within q r) : L.Within p r := by
  induction hr with
  | refl => exact hq
  | enter _ shift ih => exact ih.enter shift
  | child _ s ih => exact ih.child s

end Law

end ScriptEngine
