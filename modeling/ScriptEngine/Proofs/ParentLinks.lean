import ScriptEngine.Proofs.GroundedSessions
/-!
# Parent links

Scopes are made inside scopes and classes extend classes, so both hang together by links. In no
state of an engine is there a way back: from every scope the links lead to a root, and from every
class to one that extends no class of a script. So a name is looked up and assigned to, and a method
and the class of the host are found, however far the search has to go; the limits that the
definitions put to a search cut nothing off.

* `Leads`, `Walks` : the places that links lead to, and a search along them without a limit.
* `Leads.exists_of_rank`, `Walks.unique` : where every link leads down, there is an end to them; a
  search has one end.
* `Heap.Rooted.find?_walks`, `Heap.Grounded.searchClasses_walks` : the searches with a limit are
  such searches.
* `World.Founded` : links come to an end, and what is referred to is there.
* **`World.parent_links_end`** : this holds of all states that are reached.

The searches are `lookup`, `assign`, `is_constant`, `find_method` and `host_base`. States in the
middle of a run are among those that are reached, as are those that a host makes between runs.
-/

namespace ScriptEngine

/-! ## Links -/

section Links

variable {α β γ : Type} {next : α → Option α} {answer : α → Option β} {a : α}

/-- The places from one to the last that the links lead to. -/
inductive Leads (next : α → Option α) : α → List α → Prop
  | last {a : α} (hnext : next a = none) : Leads next a [a]
  | more {a a' : α} {chain : List α} (hnext : next a = some a') (hrest : Leads next a' chain) :
    Leads next a (a :: chain)

/-- Going from one place to the next, up to one that has an answer or has no next place, however
many there are. -/
inductive Walks (answer : α → Option β) (next : α → Option α) : α → Option β → Prop
  | found {a : α} {b : β} (ha : answer a = some b) : Walks answer next a (some b)
  | ended {a : α} (ha : answer a = none) (hnext : next a = none) : Walks answer next a none
  | onward {a a' : α} {o : Option β} (ha : answer a = none) (hnext : next a = some a')
    (hrest : Walks answer next a' o) : Walks answer next a o

/-- If every link leads to a lower place, there is an end to them, and no place comes twice. -/
theorem Leads.exists_of_rank (rank : α → Nat) (hrank : ∀ a a', next a = some a' → rank a' < rank a)
    (a : α) :
    ∃ chain, Leads next a chain ∧ chain.Nodup ∧ ∀ b ∈ chain, rank b ≤ rank a := by
  induction hn : rank a using Nat.strong_induction_on generalizing a with
  | _ n ih =>
    cases hnext : next a with
    | none => exact ⟨[a], .last hnext, List.nodup_singleton a, by simp [hn]⟩
    | some a' =>
      have hlt : rank a' < n := hn ▸ hrank a a' hnext
      obtain ⟨chain, hchain, hnodup, hle⟩ := ih (rank a') hlt a' rfl
      have hfresh : a ∉ chain := fun hmem => absurd (hle a hmem) (by omega)
      refine ⟨a :: chain, .more hnext hchain, List.nodup_cons.mpr ⟨hfresh, hnodup⟩, fun b hb => ?_⟩
      rcases List.mem_cons.mp hb with rfl | hb
      · exact Nat.le_of_eq hn
      · exact (hle b hb).trans (Nat.le_of_lt hlt)

/-- A search has one end. -/
theorem Walks.unique {o o' : Option β} (hw : Walks answer next a o) (hw' : Walks answer next a o') :
    o = o' := by
  induction hw with
  | found ha =>
    cases hw' with
    | found ha' => exact ha.symm.trans ha'
    | ended ha' | onward ha' => rw [ha] at ha'; cases ha'
  | ended ha hnext =>
    cases hw' with
    | found ha' => rw [ha] at ha'; cases ha'
    | ended => rfl
    | onward _ hnext' => rw [hnext] at hnext'; cases hnext'
  | onward ha hnext _ ih =>
    cases hw' with
    | found ha' => rw [ha] at ha'; cases ha'
    | ended _ hnext' => rw [hnext] at hnext'; cases hnext'
    | onward _ hnext' hrest =>
      rw [hnext] at hnext'
      cases hnext'
      exact ih hrest

theorem Walks.iff_eq {o o' : Option β} (hw : Walks answer next a o) :
    Walks answer next a o' ↔ o' = o := by
  constructor
  · intro hw'
    exact hw'.unique hw
  · rintro rfl
    exact hw

/-- What is made of the answers is made of the answer of the search. -/
theorem Walks.map {o : Option β} (hw : Walks answer next a o) (f : β → γ) :
    Walks (fun a => (answer a).map f) next a (o.map f) := by
  induction hw with
  | found ha => exact .found (by rw [ha]; rfl)
  | ended ha hnext => exact .ended (by rw [ha]; rfl) hnext
  | onward ha hnext _ ih => exact .onward (by rw [ha]; rfl) hnext ih

end Links

/-! ## Searches in the heap -/

namespace Heap

variable {h : Heap}

/-- The class that a class extends. -/
def superclass? (h : Heap) (id : ClassId) : Option ClassId :=
  (h.scriptClass? id).bind (·.superclass)

/-- What an assignment to a name comes to in a scope that binds it. -/
def assignAt (h : Heap) (name : String) (s : ScopeId) : Option (Except RuntimeError ScopeId) :=
  ((h.scope s).binding? name).map fun b => if b.constant then
    .error (.constantReassignment name) else .ok s

/-- A look outwards that may go far enough goes on until it finds the name or there is no scope
left. -/
theorem Rooted.findFrom_walks (hr : h.Rooted) (name : String) :
    ∀ {levels : Nat} {s : ScopeId}, s.index < levels →
    Walks (fun t => ((h.scope t).binding? name).map fun b => (t, b)) h.parent? s
      (h.findFrom name levels s)
  | levels + 1, s, hlt => by
    unfold findFrom
    cases hb : (h.scope s).binding? name with
    | some b =>
      simp only [hb]
      exact .found (by rw [hb]; rfl)
    | none =>
      simp only [hb]
      cases hp : (h.scope s).parent with
      | none => exact .ended (by rw [hb]; rfl) hp
      | some p =>
        have hlower : p.index < levels := Nat.lt_of_lt_of_le (hr s p hp) (Nat.le_of_lt_succ hlt)
        exact .onward (by rw [hb]; rfl) hp (findFrom_walks hr name hlower)

theorem Rooted.find?_walks (hr : h.Rooted) (s : ScopeId) (name : String) :
    Walks (fun t => ((h.scope t).binding? name).map fun b => (t, b)) h.parent? s (h.find? s name) :=
  hr.findFrom_walks name (Nat.lt_succ_self _)

/-- **A name is looked up** in one scope after another. -/
theorem Rooted.lookup_walks (hr : h.Rooted) (s : ScopeId) (name : String) :
    Walks (fun t => ((h.scope t).binding? name).map (·.value)) h.parent? s (h.lookup s name) := by
  simpa only [Option.map_map, Function.comp_def, lookup] using (hr.find?_walks s name).map
    (·.2.value)

theorem Rooted.isConstant_walks (hr : h.Rooted) (s : ScopeId) (name : String) :
    Walks (fun t => ((h.scope t).binding? name).map (·.constant)) h.parent? s
      (h.isConstant? s name) := by
  simpa only [Option.map_map, Function.comp_def, isConstant?] using (hr.find?_walks s name).map
    (·.2.constant)

/-- **A name is assigned to** in the nearest scope that binds it, and not at all if none does. -/
theorem Rooted.assignTarget_walks (hr : h.Rooted) (s : ScopeId) (name : String) :
    ∃ o, Walks (h.assignAt name) h.parent? s o ∧
      h.assignTarget s name = o.getD (.error (.undefinedVariable name)) := by
  have hwalks := (hr.find?_walks s name).map fun found =>
    if found.2.constant then Except.error (RuntimeError.constantReassignment name) else .ok found.1
  simp only [Option.map_map, Function.comp_def] at hwalks
  refine ⟨_, hwalks, ?_⟩
  unfold assignTarget
  cases h.find? s name <;> rfl

/-- A search in classes that may go far enough goes on until a class has what is looked for or there
is none left. -/
theorem Grounded.searchClasses_walks {α : Type} (hh : h.Grounded) (f : ScriptClass → Option α) :
    ∀ {levels : Nat} {id : ClassId}, id.index < levels →
      Walks (fun c => (h.scriptClass? c).bind f) h.superclass? id (h.searchClasses f levels id)
  | levels + 1, id, hlt => by
    unfold searchClasses
    cases hk : h.scriptClass? id with
    | none => exact .ended (by rw [hk]; rfl) (by rw [superclass?, hk]; rfl)
    | some k =>
      have hnext : h.superclass? id = k.superclass := by rw [superclass?, hk]; rfl
      simp only [Option.bind_eq_bind, Option.bind_some]
      cases hf : f k with
      | some a => exact .found (by rw [hk]; exact hf)
      | none =>
        have hnone : (h.scriptClass? id).bind f = none := by rw [hk]; exact hf
        cases hsuper : k.superclass with
        | none => exact .ended hnone (hnext.trans hsuper)
        | some super =>
          have hlower : super.index < levels :=
            Nat.lt_of_lt_of_le (hh.superclasses id k super hk hsuper) (Nat.le_of_lt_succ hlt)
          exact .onward hnone (hnext.trans hsuper) (searchClasses_walks hh f hlower)

end Heap

/-! ## States -/

/-- Links come to an end, and what is referred to is there. -/
structure World.Founded (w : World) : Prop where
  /-- From every scope finitely many links lead to a scope that is in no other one. -/
  scopes : ∀ s : ScopeId, s.index < w.heap.scopes.size →
    ∃ chain, Leads w.heap.parent? s chain ∧ chain.Nodup ∧
    ∀ t ∈ chain, t.index < w.heap.scopes.size
  /-- From every class finitely many links lead to one that extends no class of a script. -/
  classes : ∀ c : ClassId, c.index < w.heap.classes.size → ∃ chain, Leads w.heap.superclass? c
    chain ∧ chain.Nodup ∧
    ∀ k ∈ chain, k.index < w.heap.classes.size
  /-- The scope that is running is there. -/
  running : w.frame.scope.index < w.heap.scopes.size
  /-- So are the scopes of the jobs that wait. -/
  waiting : ∀ queue ∈ w.queues, ∀ job ∈ queue.2, job.scope.index < w.heap.scopes.size
  /-- So are the scopes that functions were made in. -/
  closures : ∀ g ∈ w.heap.functions, g.closure.index < w.heap.scopes.size
  /-- The methods of classes are there. -/
  methods : ∀ k ∈ w.heap.classes, ∀ m ∈ k.methods, m.2.index < w.heap.functions.size
  /-- The classes of instances are there. -/
  instances : ∀ o ∈ w.heap.objects, ∀ c ∈ o.cls, c.index < w.heap.classes.size
  /-- So are the class and the object of every instance that the host sees as one of its own
  objects. -/
  hostInstances : ∀ cls base object, .extended cls base object ∈ w.heap.hostObjects →
    cls.index < w.heap.hostClasses.size ∧ object.index < w.heap.objects.size
  /-- A name is looked up in one scope after another. This comes to an end, with the answer that is
  given. -/
  lookups : ∀ s name o, Walks (fun t => ((w.heap.scope t).binding? name).map (·.value))
    w.heap.parent? s o ↔
    o = w.heap.lookup s name
  /-- Whether it is constant is found in the same way. -/
  constants : ∀ s name o, Walks (fun t => ((w.heap.scope t).binding? name).map (·.constant))
    w.heap.parent? s o ↔
    o = w.heap.isConstant? s name
  /-- And so is the scope that an assignment changes, or why there is none. -/
  assignments : ∀ s name, ∃ found, (∀ o, Walks (w.heap.assignAt name) w.heap.parent? s o ↔
    o = found) ∧
    w.heap.assignTarget s name = found.getD (.error (.undefinedVariable name))
  /-- A method is looked for in one class after another. This comes to an end, with the answer that
  is given. -/
  methodSearches : ∀ c name o, Walks (fun k => (w.heap.scriptClass? k).bind (·.methods.lookup name))
    w.heap.superclass? c o ↔ o = w.heap.methodOf? c name
  /-- And so is the class of the host that a class extends. -/
  hostBases : ∀ c o, Walks (fun k => (w.heap.scriptClass? k).bind (·.hostBase)) w.heap.superclass? c
    o ↔
    o = w.heap.hostBase? c

namespace World

variable {w : World}

theorem Grounded.founded (hw : w.Grounded) : w.Founded where
  scopes s hs := by
    obtain ⟨chain, hchain, hnodup, hle⟩ := Leads.exists_of_rank ScopeId.index hw.heap.rooted s
    exact ⟨chain, hchain, hnodup, fun t ht => Nat.lt_of_le_of_lt (hle t ht) hs⟩
  classes c hc := by
    have hlower (c super : ClassId) (hnext : w.heap.superclass? c = some super) :
        super.index < c.index := by
      obtain ⟨k, hk, hsuper⟩ := Option.bind_eq_some_iff.mp hnext
      exact hw.heap.superclasses c k super hk hsuper
    obtain ⟨chain, hchain, hnodup, hle⟩ := Leads.exists_of_rank ClassId.index hlower c
    exact ⟨chain, hchain, hnodup, fun k hk => Nat.lt_of_le_of_lt (hle k hk) hc⟩
  running := hw.frame
  waiting queue hqueue job hjob := (hw.queues queue hqueue job hjob).scope
  closures := hw.heap.closures
  methods := hw.heap.methods
  instances o ho c hc := hw.heap.stocked.instances o ho c hc c rfl
  hostInstances := hw.heap.extended
  lookups s name _ := (hw.heap.rooted.lookup_walks s name).iff_eq
  constants s name _ := (hw.heap.rooted.isConstant_walks s name).iff_eq
  assignments s name := by
    obtain ⟨found, hwalks, htarget⟩ := hw.heap.rooted.assignTarget_walks s name
    exact ⟨found, fun _ => hwalks.iff_eq, htarget⟩
  methodSearches _ _ _ := (hw.heap.searchClasses_walks _ (Nat.lt_succ_self _)).iff_eq
  hostBases _ _ := (hw.heap.searchClasses_walks _ (Nat.lt_succ_self _)).iff_eq

/-- **Parent links come to an end** in every state that is reached, and everything that is referred
to is there. So every search along them comes to an end. -/
theorem parent_links_end (hw : w.Reachable) : w.Founded := hw.grounded.founded

/-- A class, a class of the same name that extends it, and a call of a method that is inherited. -/
def shapeText : String :=
  "class Shape \x7b\n  fun kind() \x7b return \"shape\" \x7d\n\x7d\nclass Shape < Shape \x7b\x7d\nShape().kind()"

/-- The class that the second class extends and the function that answers for it, after a run. -/
def secondClass? {ε α : Type} : Outcome ε α → Option (Option ClassId × Option FunctionId)
  | .ok _ w => some (w.heap.superclass? ⟨1⟩, w.heap.methodOf? ⟨1⟩ "kind")
  | _ => none

/-- The second class extends the first one, and not itself. -/
theorem parent_links_end_shapeText :
    ∃ v w, Engine.execute shapeText (Engine.create .default 0 0) = .ok v w ∧
    w.Founded ∧ w.heap.superclass? ⟨1⟩ = some ⟨0⟩ ∧ w.heap.methodOf? ⟨1⟩ "kind" = some ⟨0⟩ := by
  have hsecond : secondClass? (Engine.execute shapeText (Engine.create .default 0 0)) =
      some (some ⟨0⟩, some ⟨0⟩) := by
    decide +kernel
  generalize hrun : Engine.execute shapeText (Engine.create .default 0 0) = o at hsecond ⊢
  cases o with
  | ok v w =>
    obtain ⟨hsuper, hmethod⟩ := Prod.mk.inj (Option.some.inj hsecond)
    have hreached : w.Reachable := .asked (.execute shapeText) (.created .default 0 0) trivial
      (.inl ⟨v, hrun⟩)
    exact ⟨v, w, rfl, parent_links_end hreached, hsuper, hmethod⟩
  | error e w => cases hsecond
  | stopped s => cases hsecond

end World

end ScriptEngine
