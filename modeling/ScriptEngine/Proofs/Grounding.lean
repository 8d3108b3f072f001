import ScriptEngine.Proofs.Movement
import ScriptEngine.Proofs.NameKeeping
/-!
# What refers to what

Scopes refer to scopes, functions to the scopes they were made in, classes to functions and to
classes, and instances to classes. A heap is grounded if all of these are there, and if scopes and
classes refer to such as were made before them. Things are only added and nothing is removed, so
what is there stays there; the one thing that code can do wrong is to refer to a class that was not
made, and no value does.

* `Heap.Persists` : a heap with everything in it that was there before.
* `Value.Known` : a value that is no class that was not made.
* `Heap.Grounded` : nothing refers to what is not there.
* `Heap.Grounded.bind`, `Heap.Grounded.addClass`, … : one lemma for each change of a heap.
-/

namespace ScriptEngine

/-! ## What is there -/

/-- Everything that is in the first heap is in the second one. -/
structure Heap.Persists (h h' : Heap) : Prop where
  scopes : h.scopes.size ≤ h'.scopes.size
  functions : h.functions.size ≤ h'.functions.size
  classes : h.classes.size ≤ h'.classes.size
  objects : h.objects.size ≤ h'.objects.size
  hostClasses : h.hostClasses.size ≤ h'.hostClasses.size

namespace Heap.Persists

variable {h h' h'' : Heap}

theorem refl (h : Heap) : h.Persists h :=
  ⟨Nat.le_refl _, Nat.le_refl _, Nat.le_refl _, Nat.le_refl _, Nat.le_refl _⟩

theorem trans (a : h.Persists h') (b : h'.Persists h'') : h.Persists h'' :=
  ⟨a.scopes.trans b.scopes, a.functions.trans b.functions, a.classes.trans b.classes,
    a.objects.trans b.objects, a.hostClasses.trans b.hostClasses⟩

theorem of_moves (hm : h.Moves h') : h.Persists h' where
  scopes := Nat.le_of_eq (congrArg Array.size hm.scopes.symm)
  functions := Nat.le_of_eq (congrArg Array.size hm.code.functions.symm)
  classes := Nat.le_of_eq (congrArg Array.size hm.code.classes.symm)
  objects := hm.objects
  hostClasses := Nat.le_of_eq (congrArg Array.size hm.code.hostClasses.symm)

theorem bind (h : Heap) (s : ScopeId) (name : String) (b : Binding) :
    h.Persists (h.bind s name b) where
  scopes := by simp [Heap.bind]
  functions := Nat.le_refl _
  classes := Nat.le_refl _
  objects := Nat.le_refl _
  hostClasses := Nat.le_refl _

theorem addChild (h : Heap) (parent : ScopeId) : h.Persists (h.addChild parent).2 where
  scopes := by simp [Heap.addChild]
  functions := Nat.le_refl _
  classes := Nat.le_refl _
  objects := Nat.le_refl _
  hostClasses := Nat.le_refl _

theorem addFunction (h : Heap) (g : Function) : h.Persists (h.addFunction g).2 where
  scopes := Nat.le_refl _
  functions := by simp [Heap.addFunction]
  classes := Nat.le_refl _
  objects := Nat.le_refl _
  hostClasses := Nat.le_refl _

theorem addNative (h : Heap) (n : Native) : h.Persists (h.addNative n).2 :=
  ⟨Nat.le_refl _, Nat.le_refl _, Nat.le_refl _, Nat.le_refl _, Nat.le_refl _⟩

theorem addClass (h : Heap) (k : ScriptClass) : h.Persists (h.addClass k).2 where
  scopes := Nat.le_refl _
  functions := Nat.le_refl _
  classes := by simp [Heap.addClass]
  objects := Nat.le_refl _
  hostClasses := Nat.le_refl _

theorem addObject (h : Heap) (o : Object) : h.Persists (h.addObject o).2 where
  scopes := Nat.le_refl _
  functions := Nat.le_refl _
  classes := Nat.le_refl _
  objects := by simp [Heap.addObject]
  hostClasses := Nat.le_refl _

theorem addHostClass (h : Heap) (k : HostClass) : h.Persists (h.addHostClass k).2 where
  scopes := Nat.le_refl _
  functions := Nat.le_refl _
  classes := Nat.le_refl _
  objects := Nat.le_refl _
  hostClasses := by simp [Heap.addHostClass]

theorem addHostObject (h : Heap) (o : HostObject) : h.Persists (h.addHostObject o).2 :=
  ⟨Nat.le_refl _, Nat.le_refl _, Nat.le_refl _, Nat.le_refl _, Nat.le_refl _⟩

theorem withExtension (h : Heap) (script : ClassId) (base : HostClassId) :
    h.Persists (h.withExtension script base) where
  scopes := Nat.le_refl _
  functions := Nat.le_refl _
  classes := by simp [Heap.withExtension]
  objects := Nat.le_refl _
  hostClasses := by simp [Heap.withExtension]

end Heap.Persists

/-- The value is no class of a script, or one that was made. -/
def Value.Known (h : Heap) (v : Value) : Prop := ∀ c, v = .scriptClass c → c.index < h.classes.size

/-- A task calls no class that was not made. -/
def Task.Known (h : Heap) : Task → Prop
  | .call callee => callee.Known h
  | .source _ => True

/-- The scope of a job is there, and so is what it calls. -/
structure Job.Known (h : Heap) (job : Job) : Prop where
  scope : job.scope.index < h.scopes.size
  task : job.task.Known h

section Known

variable {h h' : Heap} {v : Value}

theorem Value.known_of_ne (hv : ∀ c, v ≠ .scriptClass c) : v.Known h :=
  fun c heq => absurd heq (hv c)

theorem Value.known_null : Value.null.Known h := known_of_ne nofun

theorem Value.Known.mono (hv : v.Known h) (hg : h.Persists h') : v.Known h' := fun c heq =>
  Nat.lt_of_lt_of_le (hv c heq) hg.classes

theorem Task.Known.mono {task : Task} (ht : task.Known h) (hg : h.Persists h') : task.Known h' := by
  cases task with
  | call callee => exact Value.Known.mono ht hg
  | source text => trivial

theorem Job.Known.mono {job : Job} (hj : job.Known h) (hg : h.Persists h') : job.Known h' :=
  ⟨Nat.lt_of_lt_of_le hj.scope hg.scopes, hj.task.mono hg⟩

/-- The values that may be about in a heap. -/
def Heap.stock (h : Heap) : Stock where
  Has := Value.Known h
  common {v} hv := by
    rintro c rfl
    exact hv.elim

theorem Heap.stock_eq (hclasses : h'.classes = h.classes) : h'.stock = h.stock := by
  unfold stock Value.Known
  simp only [hclasses]

/-- Where lists and objects are as they were, they hold what is known. -/
theorem Heap.Stocked.persists (hs : h.Stocked h.stock) (hg : h.Persists h')
    (hlists : h'.lists = h.lists) (hobjects : h'.objects = h.objects) : h'.Stocked h'.stock where
  lists items hi v hv := by
    rw [hlists] at hi
    exact Value.Known.mono (hs.lists items hi v hv) hg
  fields o ho e he := by
    rw [hobjects] at ho
    exact Value.Known.mono (hs.fields o ho e he) hg
  baked o ho e he := by
    rw [hobjects] at ho
    exact Value.Known.mono (hs.baked o ho e he) hg
  instances o ho c hc := by
    rw [hobjects] at ho
    exact Value.Known.mono (hs.instances o ho c hc) hg

end Known

/-! ## Grounded heaps -/

namespace Heap

variable {h h' : Heap} {s : ScopeId} {name : String} {v : Value}

/-- Nothing in the heap refers to what is not there, and scopes and classes refer to such as were
made before them. -/
structure Grounded (h : Heap) : Prop where
  /-- There is a scope for the globals. -/
  root : 0 < h.scopes.size
  /-- Every scope was made after the one around it. -/
  rooted : h.Rooted
  /-- What names are bound to. -/
  bindings : ∀ s, ∀ e ∈ (h.scope s).bindings, e.2.value.Known h
  /-- What lists and objects hold, and the classes of objects. -/
  stocked : h.Stocked h.stock
  /-- What native functions answer with. -/
  constants : ∀ n ∈ h.natives, ∀ v, n.body = .constant v → v.Known h
  /-- The scope of every function is there. -/
  closures : ∀ g ∈ h.functions, g.closure.index < h.scopes.size
  /-- Every class was made after the one it extends. -/
  superclasses : ∀ id k super, h.scriptClass? id = some k → k.superclass = some super →
    super.index < id.index
  /-- The functions of every class are there. -/
  methods : ∀ k ∈ h.classes, ∀ m ∈ k.methods, m.2.index < h.functions.size
  /-- The host classes that were made for classes are there. -/
  extensions : ∀ k ∈ h.classes, ∀ cls ∈ k.extension, cls.index < h.hostClasses.size
  /-- So are the classes of instances that the host sees, and the objects that hold their fields. -/
  extended : ∀ cls base object, .extended cls base object ∈ h.hostObjects →
    cls.index < h.hostClasses.size ∧ object.index < h.objects.size

namespace Grounded

theorem lookup (hh : h.Grounded) (hv : h.lookup s name = some v) : v.Known h := by
  obtain ⟨⟨owner, b⟩, hfind, rfl⟩ := Option.map_eq_some_iff.mp hv
  obtain ⟨before, rest, hsplit, -⟩ := List.lookup_eq_some_iff.mp (binding_of_findFrom hfind)
  refine hh.bindings owner (name, b) ?_
  rw [hsplit]
  exact List.mem_append_right _ List.mem_cons_self

theorem localBindings (hh : h.Grounded) (s : ScopeId) : ∀ e ∈ h.localBindings s, e.2.Known h := by
  intro e he
  obtain ⟨e', he', rfl⟩ := List.mem_map.mp ((List.mergeSort_perm _ _).mem_iff.mp he)
  exact hh.bindings s e' he'

/-! ### Changes -/

theorem of_moves (hh : h.Grounded) (hm : h.Moves h') (hs : h'.Stocked h.stock) : h'.Grounded where
  root := by
    rw [hm.scopes]
    exact hh.root
  rooted s p hp := by
    unfold parent? scope at hp
    rw [hm.scopes] at hp
    exact hh.rooted s p hp
  bindings s e he := by
    unfold scope at he
    rw [hm.scopes] at he
    exact (hh.bindings s e he).mono (.of_moves hm)
  stocked := by
    rw [stock_eq hm.code.classes]
    exact hs
  constants n hn v hv := by
    rw [hm.code.natives] at hn
    exact (hh.constants n hn v hv).mono (.of_moves hm)
  closures g hg := by
    rw [hm.code.functions] at hg
    rw [hm.scopes]
    exact hh.closures g hg
  superclasses id k super hk hsuper := by
    unfold scriptClass? at hk
    rw [hm.code.classes] at hk
    exact hh.superclasses id k super hk hsuper
  methods k hk m hm' := by
    rw [hm.code.classes] at hk
    rw [hm.code.functions]
    exact hh.methods k hk m hm'
  extensions k hk cls hcls := by
    rw [hm.code.classes] at hk
    rw [hm.code.hostClasses]
    exact hh.extensions k hk cls hcls
  extended cls base object hmem := by
    obtain ⟨hcls, hobject⟩ := hh.extended cls base object (hm.extended cls base object hmem)
    rw [hm.code.hostClasses]
    exact ⟨hcls, Nat.lt_of_lt_of_le hobject hm.objects⟩

/-- A name may be bound to a class that was made. -/
theorem bind (hh : h.Grounded) (s : ScopeId) (name : String) {b : Binding} (hb : b.value.Known h) :
    (h.bind s name b).Grounded := by
  by_cases hs : s.index < h.scopes.size
  · have hsize := (rebinds_bind hs name b).size
    exact { hh with
      root := by
        rw [hsize]
        exact hh.root
      rooted := hh.rooted.of_rebinds (rebinds_bind hs name b)
      bindings := fun t e he => by
        rw [scope_bind hs] at he
        split at he
        · rcases mem_of_mem_putBinding he with rfl | he
          · exact hb
          · exact hh.bindings s e he
        · exact hh.bindings t e he
      stocked := hh.stocked.persists (.bind h s name b) rfl rfl
      closures := fun g hg => by
        rw [hsize]
        exact hh.closures g hg }
  · rwa [bind_of_ge (Nat.le_of_not_lt hs)]

/-- A scope is made inside one that is there. -/
theorem addChild (hh : h.Grounded) {parent : ScopeId} (hparent : parent.index < h.scopes.size) :
    (h.addChild parent).2.Grounded := by
  have hadds := adds_push (h := h) (some parent)
  exact { hh with
    root := by
      rw [Heap.addChild, hadds.size]
      exact Nat.succ_pos _
    rooted := hh.rooted.of_adds hadds fun p hp => by
      cases hp
      exact hparent
    bindings := fun s e he => by
      rcases Nat.lt_trichotomy s.index h.scopes.size with hlt | heq | hgt
      · exact hh.bindings s e (hadds.old s hlt ▸ he)
      · obtain rfl : s = ⟨h.scopes.size⟩ := congrArg ScopeId.mk heq
        rw [Heap.addChild, hadds.new] at he
        cases he
      · have hout : ¬ s.index < (h.addChild parent).2.scopes.size := by
          rw [Heap.addChild, hadds.size]
          omega
        simp [scope, Array.getD, hout] at he
    stocked := hh.stocked.persists (.addChild h parent) rfl rfl
    closures := fun g hg => Nat.lt_of_lt_of_le (hh.closures g hg)
      (Persists.addChild h parent).scopes }

theorem addFunction (hh : h.Grounded) {g : Function} (hg : g.closure.index < h.scopes.size) :
    (h.addFunction g).2.Grounded :=
  { hh with
    stocked := hh.stocked.persists (.addFunction h g) rfl rfl
    closures := fun g' hmem => by
      rcases Array.mem_push.mp hmem with hmem | rfl
      · exact hh.closures g' hmem
      · exact hg
    methods := fun k hk m hm => Nat.lt_of_lt_of_le (hh.methods k hk m hm)
      (Persists.addFunction h g).functions }

theorem addNative (hh : h.Grounded) {n : Native} (hn : ∀ v, n.body = .constant v → v.Known h) :
    (h.addNative n).2.Grounded :=
  { hh with
    stocked := hh.stocked.persists (.addNative h n) rfl rfl
    constants := fun n' hmem => by
      rcases Array.mem_push.mp hmem with hmem | rfl
      · exact hh.constants n' hmem
      · exact hn }

/-- A class is made of functions and a class that are there. So a class whose name is declared again
may extend the one that had its name before, but not itself. -/
theorem addClass (hh : h.Grounded) {k : ScriptClass}
    (hsuper : ∀ super ∈ k.superclass, super.index < h.classes.size)
    (hmethods : ∀ m ∈ k.methods, m.2.index < h.functions.size) (hextension : k.extension = none) :
    (h.addClass k).2.Grounded := by
  have hkept := Persists.addClass h k
  exact { hh with
    bindings := fun s e he => (hh.bindings s e he).mono hkept
    stocked := hh.stocked.persists hkept rfl rfl
    constants := fun n hn v hv => (hh.constants n hn v hv).mono hkept
    superclasses := fun id k' super hk hs => by
      have hk : (h.classes.push k)[id.index]? = some k' := hk
      rw [Array.getElem?_push] at hk
      split at hk
      · next hid =>
        cases hk
        rw [hid]
        exact hsuper super hs
      · exact hh.superclasses id k' super hk hs
    methods := fun k' hmem => by
      rcases Array.mem_push.mp hmem with hmem | rfl
      · exact hh.methods k' hmem
      · exact hmethods
    extensions := fun k' hmem cls hcls => by
      rcases Array.mem_push.mp hmem with hmem | rfl
      · exact hh.extensions k' hmem cls hcls
      · rw [hextension] at hcls
        cases hcls }

/-- A class gets its extension, which is a host class made for it. -/
theorem withExtension (hh : h.Grounded) (script : ClassId) (base : HostClassId) :
    (h.withExtension script base).Grounded := by
  have hkept := Persists.withExtension h script base
  exact { hh with
    bindings := fun s e he => (hh.bindings s e he).mono hkept
    stocked := hh.stocked.persists hkept rfl rfl
    constants := fun n hn v hv => (hh.constants n hn v hv).mono hkept
    superclasses := fun id k super hk hs => by
      obtain ⟨old, hold, rfl | ⟨-, rfl⟩⟩ := scriptClass?_withExtension_cases hk
      · exact hh.superclasses id k super hold hs
      · exact hh.superclasses id old super hold hs
    methods := fun k hmem m hm => by
      simp only [Heap.withExtension] at hmem
      obtain ⟨old, hold, rfl | rfl⟩ := exists_of_mem_modify hmem
      · exact hh.methods k hold m hm
      · exact hh.methods old hold m hm
    extensions := fun k hmem cls hcls => by
      simp only [Heap.withExtension] at hmem ⊢
      rw [Array.size_push]
      obtain ⟨old, hold, rfl | rfl⟩ := exists_of_mem_modify hmem
      · exact Nat.lt_succ_of_lt (hh.extensions k hold cls hcls)
      · cases hcls
        exact Nat.lt_succ_self _
    extended := fun cls base' object hmem => by
      obtain ⟨hcls, hobject⟩ := hh.extended cls base' object hmem
      exact ⟨Nat.lt_of_lt_of_le hcls hkept.hostClasses, hobject⟩ }

theorem addHostClass (hh : h.Grounded) (k : HostClass) : (h.addHostClass k).2.Grounded := by
  have hkept := Persists.addHostClass h k
  exact { hh with
    stocked := hh.stocked.persists hkept rfl rfl
    extensions := fun k' hk cls hcls => Nat.lt_of_lt_of_le (hh.extensions k' hk cls hcls)
      hkept.hostClasses
    extended := fun cls base object hmem => by
      obtain ⟨hcls, hobject⟩ := hh.extended cls base object hmem
      exact ⟨Nat.lt_of_lt_of_le hcls hkept.hostClasses, hobject⟩ }

/-- An instance is made of a class that is there. -/
theorem addObject (hh : h.Grounded) {o : Object} (hf : h.stock.HasFields o.fields)
    (hb : h.stock.HasFields o.baked) (hc : ∀ c ∈ o.cls, c.index < h.classes.size) :
    (h.addObject o).2.Grounded := by
  refine hh.of_moves (moves_addObject h o) (hh.stocked.addObject hf hb ?_)
  rintro c hmem _ ⟨⟩
  exact hc c hmem

/-- What the host sees of an instance is made of a host class and an object that are there. -/
theorem addExtended (hh : h.Grounded) {cls : HostClassId} {base : HostId} {object : ObjectId}
    (hcls : cls.index < h.hostClasses.size) (hobject : object.index < h.objects.size) :
    (h.addHostObject (.extended cls base object)).2.Grounded :=
  { hh with
    stocked := { hh.stocked with }
    extended := fun cls' base' object' hmem => by
      rcases Array.mem_push.mp hmem with hmem | heq
      · exact hh.extended cls' base' object' hmem
      · cases heq
        exact ⟨hcls, hobject⟩ }

end Grounded

end Heap

end ScriptEngine
