import Mathlib
import ScriptEngine.Engine
import ScriptEngine.Proofs.Evolution
import ScriptEngine.Proofs.ParsedShapes
import ScriptEngine.Proofs.ScopedRuns
/-!
# Names are scoped by blocks

What a program binds it binds by its declarations, each of them in the scope it is executed in. No
other statement and no expression changes the names of a scope that there was before, whatever
functions, methods, static blocks, loops and handlers run inside it, and however it ends.

* `Heap.Tame` : a heap whose functions are plain and whose code cannot come by the function that
  schedules source text.
* `Engine.tame_create` : a new engine is tame, because the library binds that function to one name.
* `World.Reached` : the states that programs lead to which do not read that name, with whatever the
  host calls and binds in between; `World.Reached.tame` says that all of them are tame.
* **`Evaluation.block_structured_scoping`** : in tame states, and so in all that are reached,
  expressions and statements leave the names of all scopes alone; a declaration may change its own
  name in its scope.

Scopes are those of `execute_block`, `call_function`, `run_for`, `execute_try` and
`run_static_block`. Out of scope is what `run_on` executes: a source text that is handed over
declares in the scope it was handed over from, and this is what `NeverReads` excludes. What a host
declares between two programs is part of the states that are reached.
-/

namespace ScriptEngine

open Run

variable {ε α : Type}

/-! ## Tame heaps -/

/-- Some native functions are out of reach. All others belong to the library or were made for a
baked value and schedule no source text, and all functions and static blocks are plain. -/
def Heap.Tame (h : Heap) : Prop := ∃ hidden, h.Hides hidden

/-- Where the end of a run that is scoped leaves the names. -/
theorem Outcome.names_of_obeys [Faulty ε] {hidden : NativeId → Prop}
    {p : (Law.scoping hidden).Place} {h : Heap} {Q : Heap → α → Prop} {o : Outcome ε α}
    {o' : (Law.scoping hidden).Case → Outcome ε α} (ho : o.Obeys (Law.scoping hidden) p h Q o')
    {w : World} (hend : o.EndsIn w) :
    w.heap.Tame ∧ h.KeepsNames p.1 w.heap := by
  cases ho with
  | ok hv hk =>
    obtain ⟨_, ⟨⟩⟩ | ⟨_, ⟨⟩⟩ := hend
    exact ⟨⟨hidden, hv.hides⟩, hk⟩
  | error hv hk =>
    obtain ⟨_, ⟨⟩⟩ | ⟨_, ⟨⟩⟩ := hend
    exact ⟨⟨hidden, hv.hides⟩, hk⟩
  | stopped => obtain ⟨_, ⟨⟩⟩ | ⟨_, ⟨⟩⟩ := hend
  | exhausted hlax => exact hlax.elim
  | carried _ he => exact he.elim

/-- The same for a run that is started in whatever frame. -/
theorem Run.names_of_obeys [Faulty ε] {hidden : NativeId → Prop} {places : Set (ScopeId × String)}
    {Q : Heap → α → Prop} {r : Run ε α} {r' : Empty → Run ε α} {w w' : World}
    (hh : w.heap.Hides hidden) (hr : r.Obeys (Law.scoping hidden) (places, w.frame) w.heap Q r')
    (hend : (r w).EndsIn w') :
    w'.heap.Tame ∧ w.heap.KeepsNames places w'.heap :=
  Outcome.names_of_obeys (hr w Empty.elim ⟨rfl, hh⟩ trivial) hend

/-! ## New engines -/

/-- Nothing was added to a new heap but functions of the library, of which none is bound to another
name than its own, and other values of the library. -/
structure Heap.Furnished (builtins : List Builtin) (h : Heap) : Prop where
  natives : h.natives = (builtins.map Builtin.native).toArray
  scopes : h.scopes = #[⟨none, (h.scope globalScope).bindings⟩]
  names : ∀ e ∈ (h.scope globalScope).bindings, ∀ id, e.2.value = .native id →
    (builtins[id.index]?).map (·.signature.1) = some e.1
  lists : h.lists = #[]
  objects : h.objects = #[]
  functions : h.functions = #[]
  classes : h.classes = #[]

namespace Heap.Furnished

variable {builtins : List Builtin} {h : Heap}

theorem initial : Heap.initial.Furnished [] := ⟨rfl, rfl, nofun, rfl, rfl, rfl, rfl⟩

/-- A function of the library is added before it is bound to its name. -/
theorem add (hh : h.Furnished builtins) (b : Builtin) :
    (h.addNative b.native).2.Furnished (builtins ++ [b]) where
  natives := by simp [Heap.addNative, hh.natives]
  scopes := hh.scopes
  names e he id hid := by
    have hname := hh.names e he id hid
    obtain ⟨b', hb', -⟩ := Option.map_eq_some_iff.mp hname
    have hlt : id.index < builtins.length := (List.getElem?_eq_some_iff.mp hb').1
    rwa [List.getElem?_append_left hlt]
  lists := hh.lists
  objects := hh.objects
  functions := hh.functions
  classes := hh.classes

theorem bind (hh : h.Furnished builtins) {name : String} {b : Binding}
    (hb : ∀ id, b.value = .native id → (builtins[id.index]?).map (·.signature.1) = some name) :
    (h.bind globalScope name b).Furnished builtins := by
  have hsize : globalScope.index < h.scopes.size := by
    rw [hh.scopes]
    exact Nat.zero_lt_one
  have hbindings : ((h.bind globalScope name b).scope globalScope).bindings =
      putBinding name b (h.scope globalScope).bindings := by
    rw [scope_bind hsize, if_pos rfl]
  exact {
    natives := hh.natives
    scopes := by
      rw [hbindings]
      unfold Heap.bind
      simp only
      rw [hh.scopes]
      rfl
    names := fun e he id hid => by
      rw [hbindings] at he
      rcases mem_of_mem_putBinding he with rfl | he
      · exact hb id hid
      · exact hh.names e he id hid
    lists := hh.lists
    objects := hh.objects
    functions := hh.functions
    classes := hh.classes }

/-- What the library hides is the one function that schedules source text, wherever it stands. -/
theorem tame (hh : h.Furnished builtins) : h.Tame := by
  refine ⟨fun id => builtins[id.index]? = some .runOn, ?_⟩
  exact {
    natives := fun id n hn => by
      have hn : (builtins[id.index]?).map Builtin.native = some n := by
        rw [← hn, Heap.native?, hh.natives]
        simp
      obtain ⟨b, hb, rfl⟩ := Option.map_eq_some_iff.mp hn
      by_cases hrun : b = .runOn
      · exact .inl (hrun ▸ hb)
      · exact .inr hrun
    known := fun id hid => by
      rw [hh.natives]
      simpa using (List.getElem?_eq_some_iff.mp hid).1
    root := by
      rw [hh.scopes]
      exact Nat.zero_lt_one
    scopes := fun s e he => by
      by_cases hs : s = globalScope
      · subst hs
        by_cases hrun : e.1 = "runOn"
        · exact .inr ⟨rfl, hrun⟩
        · refine .inl fun id hid hidden => hrun ?_
          have hname := hh.names e he id hid
          rw [hidden] at hname
          exact (Option.some.inj hname).symm
      · have hout : ¬ s.index < h.scopes.size := by
          rw [hh.scopes]
          intro hlt
          exact hs (congrArg ScopeId.mk (Nat.lt_one_iff.mp hlt))
        simp [scope, Array.getD, hout] at he
    lists := by simp [hh.lists]
    objects := by simp [hh.objects]
    functions := by simp [hh.functions]
    staticBlocks := by simp [hh.classes] }

end Heap.Furnished

namespace Library

variable {builtins : List Builtin} {w w' : World}

theorem furnished_define {name : String} {v : Value} (hw : w.heap.Furnished builtins)
    (hv : ∀ id, v = .native id → (builtins[id.index]?).map (·.signature.1) = some name)
    (hend : (Script.define globalScope name v w).EndsIn w') : w'.heap.Furnished builtins := by
  unfold Script.define Script.declare at hend
  split at hend
  · rcases hend with ⟨_, hend⟩ | ⟨_, hend⟩ <;> cases hend
    exact hw
  · rcases hend with ⟨_, hend⟩ | ⟨_, hend⟩ <;> cases hend
    exact hw.bind hv

theorem furnished_defineNative (b : Builtin) (hw : w.heap.Furnished builtins)
    (hend : (defineNative b.native w).EndsIn w') : w'.heap.Furnished (builtins ++ [b]) := by
  refine furnished_define (hw.add b) ?_ hend
  rintro _ ⟨⟩
  have hsize : w.heap.natives.size = builtins.length := by simp [hw.natives]
  simp [hsize, Builtin.native]

/-- The functions are added one after another, until one of the names is taken. -/
theorem furnished_collect : ∀ (more : List Builtin) {builtins : List Builtin} {w w' : World},
    w.heap.Furnished builtins →
      (Run.collect (fun b => defineNative (Builtin.native b)) more w).EndsIn w' →
        ∃ all, w'.heap.Furnished all
  | [], _, _, _, hw, hend => by
    obtain rfl := endsIn_pure hend
    exact ⟨_, hw⟩
  | b :: more, _, _, _, hw, hend => by
    rcases endsIn_bind hend with hend | ⟨_, w₁, hdefined, hend⟩
    · exact ⟨_, furnished_defineNative b hw hend⟩
    · have hw₁ := furnished_defineNative b hw (.inl ⟨_, hdefined⟩)
      rcases endsIn_bind hend with hend | ⟨_, w₂, hrest, hend⟩
      · exact furnished_collect more hw₁ hend
      · obtain rfl := endsIn_pure hend
        exact furnished_collect more hw₁ (.inl ⟨_, hrest⟩)

theorem furnished_install (hw : w.heap.Furnished []) (hend : (install w).EndsIn w') :
    ∃ all, w'.heap.Furnished all := by
  have number (x : Float) (id : NativeId) : Value.number x ≠ .native id := nofun
  rcases endsIn_bind hend with hend | ⟨_, w₁, hall, hend⟩
  · exact furnished_collect Builtin.all hw hend
  · obtain ⟨all, hw₁⟩ := furnished_collect Builtin.all hw (.inl ⟨_, hall⟩)
    rcases endsIn_bind hend with hend | ⟨_, w₂, hpi, hend⟩
    · exact ⟨all, furnished_define hw₁ (fun id hv => absurd hv (number _ id)) hend⟩
    · have hw₂ := furnished_define hw₁ (fun id hv => absurd hv (number _ id)) (.inl ⟨_, hpi⟩)
      exact ⟨all, furnished_define hw₂ (fun id hv => absurd hv (number _ id)) hend⟩

end Library

/-- **A new engine is tame**, with the library or without it. -/
theorem Engine.tame_create (settings : Settings) (clock : Float) (seed : UInt64) :
    (Engine.create settings clock seed).heap.Tame := by
  have hinitial : (World.initial settings clock seed).heap.Furnished [] := .initial
  have hinstall {w : World}
      (hend : (Library.install (World.initial settings clock seed)).EndsIn w) : w.heap.Tame := by
    obtain ⟨all, hw⟩ := Library.furnished_install hinitial hend
    exact hw.tame
  unfold Engine.create
  -- the library is not to be installed while the terms are compared
  generalize Library.install = r at hinstall ⊢
  simp only
  split
  · cases hr : r (World.initial settings clock seed) with
    | ok a w => exact hinstall (.inl ⟨a, hr⟩)
    | error e w => exact hinstall (.inr ⟨e, hr⟩)
    | stopped s => exact hinitial.tame
  · exact hinitial.tame

/-! ## Plain code in tame states -/

/-- A value that a script may come by without the name `runOn`: it is no native function, or another
name is bound to it. -/
def Heap.Offers (h : Heap) (v : Value) : Prop :=
  (∀ id, v ≠ .native id) ∨ ∃ s name, name ≠ "runOn" ∧ h.lookup s name = some v

theorem Heap.Hides.shown_of_offers {hidden : NativeId → Prop} {h : Heap} {v : Value}
    (hh : h.Hides hidden) (hv : h.Offers v) : v.Shown hidden := by
  rcases hv with hv | ⟨s, name, hname, hv⟩
  · exact fun id hid => absurd hid (hv id)
  · exact hh.shown_lookup hv hname

namespace Evaluation

variable {w w' : World} {n : Nat}

/-- No expression changes a name. -/
theorem evaluate_keepsNames {e : Expr} (hw : w.heap.Tame) (he : e.Plain)
    (hend : ((machine n).evaluate e w).EndsIn w') :
    w'.heap.Tame ∧ w.heap.KeepsNames ∅ w'.heap := by
  obtain ⟨hidden, hh⟩ := hw
  exact Run.names_of_obeys hh ((machine_scoped n).evaluate trivial he) hend

/-- The places that a statement may change: the name it declares, in the scope it is executed in. -/
def declaredAt (s : Stmt) (w : World) : Set (ScopeId × String) :=
  { p | p.1 = w.frame.scope ∧ s.declares? = some p.2 }

theorem execute_keepsNames {s : Stmt} (hw : w.heap.Tame) (hs : s.Plain)
    (hend : ((machine n).execute s w).EndsIn w') :
    w'.heap.Tame ∧ w.heap.KeepsNames (declaredAt s w) w'.heap := by
  obtain ⟨hidden, hh⟩ := hw
  refine Run.names_of_obeys hh ((machine_scoped n).execute trivial hs
    fun name hbinds v _ hv => ?_) hend
  exact ⟨congrArg Frame.scope hv.frame, Stmt.declares?_of_binds (Stmt.throughout_iff.mp hs).1
    hbinds⟩

/-- A program leaves a tame state behind. -/
theorem tame_runProgram {program : List Stmt} (hw : w.heap.Tame) (hs : ∀ s ∈ program, s.Plain)
    (hend : (Engine.runProgram program w).EndsIn w') : w'.heap.Tame := by
  obtain ⟨hidden, hh⟩ := hw
  have run : (Engine.runProgram program).Lawful (Law.scoping hidden) (Set.univ, w.frame) w.heap
      (Law.scoping hidden).Known :=
    .inFrame (.top globalScope) (fun _ _ => nofun) ((machine_scoped budget).interpretAfter trivial
      hs
      (fun name _ _ _ => Set.mem_univ _) nofun)
  exact (Run.names_of_obeys hh run hend).1

/-- And so does a call. -/
theorem tame_call {callee : Value} {args : List Value} (hw : w.heap.Tame)
    (hc : w.heap.Offers callee) (ha : ∀ v ∈ args, w.heap.Offers v)
    (hend : ((machine n).call callee args w).EndsIn w') :
    w'.heap.Tame := by
  obtain ⟨hidden, hh⟩ := hw
  have call : ((machine n).call callee args).Lawful (Law.scoping hidden) (∅, w.frame) w.heap
      (Law.scoping hidden).Known :=
    (machine_scoped n).call trivial (hh.shown_of_offers hc) fun v hv => hh.shown_of_offers (ha v hv)
  exact (Run.names_of_obeys hh call hend).1

end Evaluation

/-- A program that was read and does not use the name is plain. -/
theorem Parser.plain_of_programOf {source : String} {program : List Stmt}
    (hp : programOf source = .ok program) (hr : ∀ s ∈ program, s.NeverReads "runOn") :
    ∀ s ∈ program, s.Plain :=
  fun s hs => s.plain_of_shaped (hr s hs) (shaped_of_programOf hp s hs)

/-! ## States that are reached -/

/-- The states that programs lead to which do not read the name of the function that schedules
source text. They are run one after another on a new engine, and in between the host may call and
bind what is offered to it and make lists and plain objects of it. In the middle of them plain code
is evaluated at any place, in scopes that were opened for it, and the classes and objects of the
host may change, with everything beside the heap. -/
inductive World.Reached : World → Prop
  | created (settings : Settings) (clock : Float) (seed : UInt64) :
      Reached (Engine.create settings clock seed)
  | ran {source : String} {program : List Stmt} {w w' : World}
      (hp : Parser.programOf source = .ok program) (hr : ∀ s ∈ program, s.NeverReads "runOn")
      (hw : Reached w) (hend : (Engine.runProgram program w).EndsIn w') : Reached w'
  | evaluated {n : Nat} {e : Expr} {w w' : World} (he : e.Plain) (hw : Reached w)
      (hend : ((Evaluation.machine n).evaluate e w).EndsIn w') : Reached w'
  | executed {n : Nat} {s : Stmt} {w w' : World} (hs : s.Plain) (hw : Reached w)
      (hend : ((Evaluation.machine n).execute s w).EndsIn w') : Reached w'
  | called {n : Nat} {callee : Value} {args : List Value} {w w' : World} (hc : w.heap.Offers callee)
      (ha : ∀ v ∈ args, w.heap.Offers v) (hw : Reached w)
      (hend : ((Evaluation.machine n).call callee args w).EndsIn w') : Reached w'
  | bound {w : World} (s : ScopeId) (name : String) {b : Binding} (hb : w.heap.Offers b.value)
      (hw : Reached w) : Reached { w with heap := w.heap.bind s name b }
  | opened {w : World} (parent : ScopeId) (hw : Reached w) :
      Reached { w with heap := (w.heap.addChild parent).2 }
  | list {items : Array Value} {w : World} (hitems : ∀ v ∈ items, w.heap.Offers v)
      (hw : Reached w) :
      Reached { w with heap := (w.heap.addList items).2 }
  | fields {fields : Fields} {w : World} (hfields : ∀ e ∈ fields, w.heap.Offers e.2)
      (hw : Reached w) :
      Reached { w with heap := (w.heap.addFields fields).2 }
  | beside {w w' : World} (hw : Reached w)
      (hheap : w'.heap =
        { w.heap with hostClasses := w'.heap.hostClasses, hostObjects := w'.heap.hostObjects }) :
      Reached w'

/-- **All states that are reached are tame.** -/
theorem World.Reached.tame {w : World} (hw : w.Reached) : w.heap.Tame := by
  induction hw with
  | created => exact Engine.tame_create _ _ _
  | ran hp hr _ hend ih =>
    exact Evaluation.tame_runProgram ih (Parser.plain_of_programOf hp hr) hend
  | evaluated he _ hend ih => exact (Evaluation.evaluate_keepsNames ih he hend).1
  | executed hs _ hend ih => exact (Evaluation.execute_keepsNames ih hs hend).1
  | called hc ha _ hend ih => exact Evaluation.tame_call ih hc ha hend
  | bound s name hb _ ih =>
    obtain ⟨hidden, hh⟩ := ih
    exact ⟨hidden, hh.bind s name (hh.shown_of_offers hb)⟩
  | opened parent _ ih =>
    obtain ⟨hidden, hh⟩ := ih
    exact ⟨hidden, hh.addChild parent⟩
  | list hitems _ ih =>
    obtain ⟨hidden, hh⟩ := ih
    exact ⟨hidden, hh.addList fun v hv => hh.shown_of_offers (hitems v hv)⟩
  | fields hfields _ ih =>
    obtain ⟨hidden, hh⟩ := ih
    exact ⟨hidden, hh.addObject (fun e he => hh.shown_of_offers (hfields e he)) nofun⟩
  | beside _ hheap ih =>
    obtain ⟨hidden, hh⟩ := ih
    exact ⟨hidden, hheap ▸ { hh with }⟩

namespace Evaluation

/-- **Names are scoped by blocks.** All states that are reached are tame, and all programs that are
read and do not use the function that schedules source text are plain. In a tame state, wherever it
is executed and however it ends, a plain statement that is no declaration leaves the names of every
scope that there was as they were, with those of them that are constant; and so does every plain
expression. A declaration leaves them as they were but for the name that it declares, in the scope
it is executed in. -/
theorem block_structured_scoping :
    (∀ w : World, w.Reached → w.heap.Tame) ∧
    (∀ source program, Parser.programOf source = .ok program →
      (∀ s ∈ program, s.NeverReads "runOn") → ∀ s ∈ program, s.Plain) ∧
    ∀ (w w' : World) (n : Nat), w.heap.Tame →
      (∀ e : Expr, e.Plain → ((machine n).evaluate e w).EndsIn w' → w.heap.KeepsNames ∅ w'.heap) ∧
      ∀ s : Stmt, s.Plain → ((machine n).execute s w).EndsIn w' →
        (s.declares? = none → w.heap.KeepsNames ∅ w'.heap) ∧
        ∀ name, s.declares? = some name → w.heap.KeepsNames {(w.frame.scope, name)} w'.heap := by
  refine ⟨fun w hw => hw.tame, fun _ _ => Parser.plain_of_programOf, fun w w' n hw =>
    ⟨fun e he hend => (evaluate_keepsNames hw he hend).2, fun s hs hend => ?_⟩⟩
  have hkeeps := (execute_keepsNames hw hs hend).2
  refine ⟨fun hnone => hkeeps.mono fun p hp => ?_, fun name hname => hkeeps.mono fun p hp => ?_⟩
  · exact nomatch hnone.symm.trans hp.2
  · have heq : name = p.2 := Option.some.inj (hname.symm.trans hp.2)
    exact Prod.ext hp.1 heq.symm

/-- A constant, and a loop whose body has one of the same name. -/
def shadowText : String := "val limit = true\nwhile (true) { val limit = false; break }"

/-- The declaration of the text. -/
def declareLimit : Stmt := .binding "limit" (some (.bool true ⟨12, 16, 1, 13⟩)) true ⟨0, 3, 1, 1⟩

/-- The loop of the text. -/
def shadowLoop : Stmt :=
  .loop (.bool true ⟨24, 28, 2, 8⟩) (.block [
    .binding "limit" (some (.bool false ⟨44, 49, 2, 28⟩)) true ⟨32, 35, 2, 16⟩,
    .brk ⟨51, 56, 2, 35⟩] ⟨30, 31, 2, 14⟩) ⟨17, 22, 2, 1⟩

theorem neverReads_shadowText : ∀ s ∈ [declareLimit, shadowLoop], s.NeverReads "runOn" := by
  have constant (b : Bool) (span : Span) : (Expr.bool b span).NeverReads "runOn" :=
    .intro nofun nofun nofun
  have declared (b : Bool) (span span' : Span) :
      (Stmt.binding "limit" (some (.bool b span)) true span').NeverReads "runOn" :=
    .intro trivial (List.forall_mem_singleton.mpr (constant b span)) nofun nofun nofun
  have body : ∀ s ∈ [Stmt.binding "limit" (some (.bool false ⟨44, 49, 2, 28⟩)) true ⟨32, 35, 2, 16⟩,
      .brk ⟨51, 56, 2, 35⟩], s.NeverReads "runOn" :=
    List.forall_mem_cons.mpr ⟨declared _ _ _,
      List.forall_mem_singleton.mpr (.intro trivial nofun nofun nofun nofun)⟩
  have loop : shadowLoop.NeverReads "runOn" :=
    .intro trivial (List.forall_mem_singleton.mpr (constant _ _))
      (List.forall_mem_singleton.mpr (.intro trivial nofun body nofun nofun)) nofun nofun
  exact List.forall_mem_cons.mpr ⟨declared _ _ _, List.forall_mem_singleton.mpr loop⟩

/-- Where a statement ends, if it does. -/
def end? (s : Stmt) (w : World) : Option World :=
  match (machine 9).execute s w with
  | .ok _ w' | .error _ w' => some w'
  | .stopped _ => none

theorem endsIn_of_end? {s : Stmt} {w w' : World} (hend : end? s w = some w') :
    ((machine 9).execute s w).EndsIn w' := by
  unfold end? at hend
  split at hend
  · next v _ hrun =>
    cases hend
    exact .inl ⟨v, hrun⟩
  · next e _ hrun =>
    cases hend
    exact .inr ⟨e, hrun⟩
  · cases hend

/-- On a new engine the declaration changes a name of the globals. The loop after it changes none,
though its body declares the same name. -/
theorem block_structured_scoping_shadow :
    Parser.programOf shadowText = .ok [declareLimit, shadowLoop] ∧
    (∀ s ∈ [declareLimit, shadowLoop], s.NeverReads "runOn") ∧
    ∃ w w' : World,
      ((machine 9).execute declareLimit (Engine.create .default 0 0)).EndsIn w ∧
      (Engine.create .default 0 0).heap.constant? globalScope "limit" = none ∧
      w.heap.constant? globalScope "limit" = some true ∧
      (Engine.create .default 0 0).heap.KeepsNames {(globalScope, "limit")} w.heap ∧
      ((machine 9).execute shadowLoop w).EndsIn w' ∧ w.heap.KeepsNames ∅ w'.heap := by
  have hread : Parser.programOf shadowText = .ok [declareLimit, shadowLoop] := by cbv
  have hcreated : World.Reached (Engine.create .default 0 0) := .created _ _ _
  obtain ⟨htame, hplain, hkeeps⟩ := block_structured_scoping
  have hp := hplain _ _ hread neverReads_shadowText
  have hdeclare : declareLimit.Plain := hp declareLimit List.mem_cons_self
  have hloop : shadowLoop.Plain := hp shadowLoop (List.mem_cons_of_mem _ List.mem_cons_self)
  -- the ends of the two runs are computed together, because the second one starts where the first
  -- one ends
  have hends : ((end? declareLimit (Engine.create .default 0 0)).bind fun w =>
      (end? shadowLoop w).map fun _ => w.heap.constant? globalScope "limit") =
        some (some true) := by
    decide +kernel
  obtain ⟨w, hw, hends⟩ := Option.bind_eq_some_iff.mp hends
  obtain ⟨w', hw', hlimit⟩ := Option.map_eq_some_iff.mp hends
  have hend := endsIn_of_end? hw
  have hend' := endsIn_of_end? hw'
  have hreached : w.Reached := .executed hdeclare hcreated hend
  have hscope : (Engine.create .default 0 0).frame.scope = globalScope := by decide +kernel
  have hdeclared := ((hkeeps _ w 9 (htame _ hcreated)).2 _ hdeclare hend).2 "limit" rfl
  rw [hscope] at hdeclared
  have hshadowed := ((hkeeps w w' 9 (htame _ hreached)).2 _ hloop hend').1 rfl
  exact ⟨hread, neverReads_shadowText, w, w',
    hend, by decide +kernel, hlimit, hdeclared, hend', hshadowed⟩

end Evaluation

end ScriptEngine
