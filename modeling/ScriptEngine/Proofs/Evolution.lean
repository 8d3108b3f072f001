import ScriptEngine.Proofs.Bisimilarity
import ScriptEngine.Proofs.Changes
/-!
# What stays as a heap evolves

A state is reached from another one by operations of machines, whatever they are and wherever they
start, by the changes in the middle of them, and by anything beside the heap. On the way objects
keep their classes and baked values, script instances keep their script objects, and no scope binds
a name twice.

* `World.Step`, `World.Reaches`, `World.reaches_iff` : the states that are reached.
* `Heap.Bakes`, `Heap.Evolves.bakes` : an object with baked values, and no field in front of them.
* `Heap.Evolves.scriptObject?_eq` : the script object of an instance.
* `Heap.Evolves.bindsOnce` : the names of a scope.
* `Evaluation.newOf_bakes`, `Evaluation.instantiate_evolves` : how instances are made.
-/

namespace ScriptEngine

open Run

/-! ## States that are reached -/

variable {ε α : Type}

/-- The run ends in a state, with a value or an error. -/
def Outcome.EndsIn (o : Outcome ε α) (w : World) : Prop := (∃ a, o = .ok a w) ∨ ∃ e, o = .error e w

theorem Run.endsIn_pure {a : α} {w w' : World} (hend : ((pure a : Run ε α) w).EndsIn w') :
    w' = w := by
  rcases hend with ⟨_, hend⟩ | ⟨_, hend⟩ <;> cases hend
  rfl

/-- Two runs one after the other end where the first one fails, or where the second one ends. -/
theorem Run.endsIn_bind {β : Type} {r : Run ε α} {k : α → Run ε β} {w w' : World}
    (hend : ((r >>= k) w).EndsIn w') :
    (r w).EndsIn w' ∨ ∃ a w₁, r w = .ok a w₁ ∧ (k a w₁).EndsIn w' := by
  simp only [Bind.bind] at hend
  cases hr : r w with
  | ok a w₁ =>
    rw [hr] at hend
    exact .inr ⟨a, w₁, rfl, hend⟩
  | error e w₁ =>
    rw [hr] at hend
    rcases hend with ⟨_, hend⟩ | ⟨_, hend⟩ <;> cases hend
    exact .inl (.inr ⟨e, rfl⟩)
  | stopped s =>
    rw [hr] at hend
    rcases hend with ⟨_, hend⟩ | ⟨_, hend⟩ <;> cases hend

/-- One step of running code: a whole operation of a machine, or what may happen in the middle of
one. Beside the heap everything may change, so an operation may start at any place. -/
inductive World.Step (w : World) : World → Prop
  | evaluate {n : Nat} {e : Expr} {w' : World}
      (hw : ((Evaluation.machine n).evaluate e w).EndsIn w') : Step w w'
  | execute {n : Nat} {s : Stmt} {w' : World}
      (hw : ((Evaluation.machine n).execute s w).EndsIn w') : Step w w'
  | call {n : Nat} {callee : Value} {args : List Value} {w' : World}
      (hw : ((Evaluation.machine n).call callee args w).EndsIn w') : Step w w'
  | callVirtual {n : Nat} {this : HostId} {name : String} {args : List HostData} {w' : World}
      (hw : ((Evaluation.machine n).callVirtual this name args w).EndsIn w') : Step w w'
  | readHost {n : Nat} {this : HostId} {name : String} {w' : World}
      (hw : ((Evaluation.machine n).readHost this name w).EndsIn w') : Step w w'
  | within {h : Heap} (hc : w.heap.Change h) : Step w { w with heap := h }
  | beside {w' : World} (hw : w'.heap = w.heap) : Step w w'

/-- Any number of steps, one after another. -/
def World.Reaches : World → World → Prop := Relation.ReflTransGen World.Step

theorem Run.Regular.evolves {r : Run ε α} {w w' : World} (hr : r.Regular) (hw : (r w).EndsIn w') :
    w.heap.Evolves w'.heap := by
  have h := (hr w).evolves
  rcases hw with ⟨a, hw⟩ | ⟨e, hw⟩
  · rw [hw] at h
    exact h.2
  · rw [hw] at h
    exact h.2

theorem Run.Regular.evolves_of_ok {r : Run ε α} {w w' : World} {a : α} (hr : r.Regular)
    (hw : r w = .ok a w') : w.heap.Evolves w'.heap :=
  hr.evolves (.inl ⟨a, hw⟩)

theorem World.Step.evolves {w w' : World} (hs : w.Step w') : w.heap.Evolves w'.heap := by
  have h n := Evaluation.machine_regular n
  cases hs with
  | evaluate hw => exact ((h _).evaluate _).evolves hw
  | execute hw => exact ((h _).execute _).evolves hw
  | call hw => exact ((h _).call _ _).evolves hw
  | callVirtual hw => exact ((h _).callVirtual _ _ _).evolves hw
  | readHost hw => exact ((h _).readHost _ _).evolves hw
  | within hc => exact hc.evolves
  | beside hw => exact hw ▸ .refl _

/-- **On the way to a state that is reached the heap evolves.** -/
theorem World.Reaches.evolves {w w' : World} (hr : w.Reaches w') : w.heap.Evolves w'.heap := by
  induction hr with
  | refl => exact .refl _
  | tail _ hs ih => exact ih.trans hs.evolves

/-- The states that are reached are those whose heaps evolve: everything beside the heap is free. -/
theorem World.reaches_iff {w w' : World} : w.Reaches w' ↔ w.heap.Evolves w'.heap := by
  constructor
  · exact World.Reaches.evolves
  · intro he
    have hreach : ∀ {h : Heap}, w.heap.Evolves h → w.Reaches { w with heap := h } := by
      intro h he
      induction he with
      | refl => exact .refl
      | tail _ hc ih => exact ih.tail (.within hc)
    exact (hreach he).tail (.beside rfl)

/-- So every run that is put together of regular ones ends in a state that is reached. -/
theorem Run.Regular.reaches {r : Run ε α} {w w' : World} (hr : r.Regular) (hw : (r w).EndsIn w') :
    w.Reaches w' :=
  World.reaches_iff.mpr (hr.evolves hw)

/-! ## Objects -/

theorem Fields.get?_put (name other : String) (v : Value) (fields : Fields) :
    (fields.put name v).get? other = if other = name then some v else fields.get? other := by
  induction fields with
  | nil =>
    by_cases hother : other = name
    · simp [put, get?, hother]
    · have hbeq : (other == name) = false := beq_eq_false_iff_ne.mpr hother
      simp [put, get?, List.lookup_cons, hother, hbeq]
  | cons field rest ih =>
    obtain ⟨k, u⟩ := field
    unfold get? at ih ⊢
    by_cases hk : k = name
    · subst hk
      by_cases hother : other = k
      · simp [put, hother]
      · have hbeq : (other == k) = false := beq_eq_false_iff_ne.mpr hother
        simp [put, List.lookup_cons, hother, hbeq]
    · by_cases hother : other = k
      · subst hother
        simp [put, hk]
      · have hbeq : (other == k) = false := beq_eq_false_iff_ne.mpr hother
        simp only [put, beq_iff_eq, hk, if_false, List.lookup_cons, hbeq]
        exact ih

namespace Heap

variable {h h' : Heap} {id : ObjectId} {baked : Fields}

theorem object_addObject {id : ObjectId} (o : Object) (hid : id.index < h.objects.size) :
    (h.addObject o).2.object id = h.object id := by
  have hpush : id.index < (h.objects.push o).size := by
    rw [Array.size_push]
    exact Nat.lt_succ_of_lt hid
  unfold object addObject
  rw [Array.getD, dif_pos hpush, Array.getD, dif_pos hid]
  exact Array.getElem_push_lt hid

theorem object_putField (id other : ObjectId) (name : String) (v : Value)
    (hother : other.index < h.objects.size) :
    (h.putField id name v).object other =
      if other = id then { h.object id with fields := Fields.put name v (h.object id).fields }
      else h.object other := by
  unfold object putField
  simp only [Array.getD_eq_getD_getElem?, Array.getElem?_modify]
  by_cases hid : other = id
  · subst hid
    simp [hother]
  · have hindex : id.index ≠ other.index := by
      rintro hindex
      exact hid (by cases id; cases other; simp_all)
    rw [if_neg hid, if_neg hindex]

/-- The object has these values baked in, and no field stands in front of one. -/
structure Bakes (h : Heap) (id : ObjectId) (baked : Fields) : Prop where
  lt : id.index < h.objects.size
  baked_eq : (h.object id).baked = baked
  fields : ∀ name, (baked.get? (accessorName "get" name)).isSome →
    (h.object id).fields.get? name = none

namespace Bakes

theorem of_objects (hb : h.Bakes id baked) (ho : h'.objects = h.objects) : h'.Bakes id baked := by
  have hobject : h'.object id = h.object id := by rw [object, object, ho]
  exact ⟨ho ▸ hb.lt, hobject ▸ hb.baked_eq, hobject ▸ hb.fields⟩

theorem addObject (hb : h.Bakes id baked) (o : Object) : (h.addObject o).2.Bakes id baked where
  lt := by
    show id.index < (h.objects.push o).size
    rw [Array.size_push]
    exact Nat.lt_succ_of_lt hb.lt
  baked_eq := by rw [object_addObject o hb.lt, hb.baked_eq]
  fields := by rw [object_addObject o hb.lt]; exact hb.fields

/-- A field that is set does not stand in front of a baked value. -/
theorem putField {other : ObjectId} {name : String} (hb : h.Bakes id baked)
    (hn : Evaluation.isBaked h other name = false) (v : Value) :
    (h.putField other name v).Bakes id baked := by
  have hlt : id.index < (h.putField other name v).objects.size := by
    show id.index < (h.objects.modify other.index _).size
    rw [Array.size_modify]
    exact hb.lt
  have hobject := object_putField other id name v hb.lt
  by_cases hid : id = other
  · subst hid
    rw [if_pos rfl] at hobject
    refine ⟨hlt, ?_, fun name' hname' => ?_⟩
    · rw [hobject]
      exact hb.baked_eq
    · have hne : name' ≠ name := by
        rintro rfl
        rw [Evaluation.isBaked, hb.baked_eq, hname'] at hn
        cases hn
      rw [hobject, Fields.get?_put, if_neg hne]
      exact hb.fields name' hname'
  · rw [if_neg hid] at hobject
    refine ⟨hlt, ?_, ?_⟩
    · rw [hobject]
      exact hb.baked_eq
    · rw [hobject]
      exact hb.fields

end Bakes

/-- **No change touches a baked value.** -/
theorem Change.bakes (hc : h.Change h') (hb : h.Bakes id baked) : h'.Bakes id baked := by
  cases hc with
  | fields fields => exact hb.addObject _
  | made cls bindings => exact hb.addObject _
  | field v hn => exact hb.putField hn v
  | scope | declared | assigned | list | items | function | native | scriptClass | extension
  | hostObject | slot => exact hb.of_objects rfl

theorem Evolves.bakes (he : h.Evolves h') (hb : h.Bakes id baked) : h'.Bakes id baked :=
  he.keeps Change.bakes hb

/-! ### Script instances -/

theorem hostObject_addHostObject {this : HostId} (o : HostObject)
    (hthis : this.index < h.hostObjects.size) :
    (h.addHostObject o).2.hostObject this = h.hostObject this := by
  have hpush : this.index < (h.hostObjects.push o).size := by
    rw [Array.size_push]
    exact Nat.lt_succ_of_lt hthis
  unfold hostObject addHostObject
  rw [Array.getD, dif_pos hpush, Array.getD, dif_pos hthis]
  exact Array.getElem_push_lt hthis

theorem hostObject_new (o : HostObject) :
    (h.addHostObject o).2.hostObject (h.addHostObject o).1 = o := by
  simp [hostObject, addHostObject, Array.getD]

theorem scriptObject?_iff {this : HostId} {object : ObjectId} :
    Host.scriptObject? h this = some object ↔
      ∃ cls inner, h.hostObject this = .extended cls inner object := by
  unfold Host.scriptObject?
  cases h.hostObject this <;> simp

/-- A script instance keeps its script object. -/
theorem Change.scriptObject?_eq {this : HostId} {object : ObjectId} (hc : h.Change h')
    (ho : Host.scriptObject? h this = some object) : Host.scriptObject? h' this = some object := by
  obtain ⟨cls, inner, hthis⟩ := scriptObject?_iff.mp ho
  have hlt : this.index < h.hostObjects.size := by
    refine Decidable.byContradiction fun hlt => ?_
    simp [Heap.hostObject, Array.getD, hlt] at hthis
  cases hc with
  | hostObject o =>
    rw [scriptObject?_iff, hostObject_addHostObject o hlt]
    exact ⟨cls, inner, hthis⟩
  | slot id name data =>
    refine scriptObject?_iff.mpr ⟨cls, inner, ?_⟩
    unfold Heap.hostObject at hthis ⊢
    simp only [withSlot, Array.getD_eq_getD_getElem?, Array.getElem?_modify] at hthis ⊢
    rw [Array.getElem?_eq_getElem hlt, Option.getD_some] at hthis
    rw [Array.getElem?_eq_getElem hlt, hthis]
    split <;> rfl
  | scope | declared | assigned | list | items | fields | made | field | function | native
  | scriptClass | extension => exact ho

theorem Evolves.scriptObject?_eq {this : HostId} {object : ObjectId} (he : h.Evolves h')
    (ho : Host.scriptObject? h this = some object) : Host.scriptObject? h' this = some object :=
  he.keeps Change.scriptObject?_eq ho

/-! ## Scopes -/

/-- The scope is in the heap and binds no name twice. -/
structure BindsOnce (h : Heap) (s : ScopeId) : Prop where
  lt : s.index < h.scopes.size
  names : ((h.scope s).bindings.map (·.1)).Nodup

theorem nodup_putBinding {bindings : List (String × Binding)} (name : String) (b : Binding)
    (hb : (bindings.map (·.1)).Nodup) : ((putBinding name b bindings).map (·.1)).Nodup := by
  unfold putBinding
  split
  · have hnames : (bindings.map fun e => if e.1 == name then (name, b) else e).map (·.1) =
        bindings.map (·.1) := by
      rw [List.map_map]
      refine List.map_congr_left fun e _ => ?_
      by_cases he : e.1 = name <;> simp [he]
    rw [hnames]
    exact hb
  · next hnew =>
    rw [List.map_cons, List.nodup_cons]
    refine ⟨fun hmem => hnew ?_, hb⟩
    obtain ⟨e, he, hname⟩ := List.mem_map.mp hmem
    exact List.any_eq_true.mpr ⟨e, he, beq_iff_eq.mpr hname⟩

theorem scope_addChild {s : ScopeId} (parent : ScopeId) (hs : s.index < h.scopes.size) :
    (h.addChild parent).2.scope s = h.scope s := by
  have hpush : s.index < (h.scopes.push ⟨some parent, []⟩).size := by
    rw [Array.size_push]
    exact Nat.lt_succ_of_lt hs
  unfold scope addChild
  rw [Array.getD, dif_pos hpush, Array.getD, dif_pos hs]
  exact Array.getElem_push_lt hs

/-- A new scope binds nothing. -/
theorem bindsOnce_addChild (parent : ScopeId) :
    (h.addChild parent).2.BindsOnce (h.addChild parent).1 where
  lt := by simp [addChild]
  names := by simp [scope, addChild, Array.getD]

namespace BindsOnce

variable {s : ScopeId}

theorem bind (hb : h.BindsOnce s) (other : ScopeId) (name : String) (b : Binding) :
    (h.bind other name b).BindsOnce s := by
  refine ⟨?_, ?_⟩
  · show s.index < (h.scopes.modify other.index _).size
    rw [Array.size_modify]
    exact hb.lt
  · have hnames := hb.names
    unfold scope at hnames ⊢
    simp only [Heap.bind, Array.getD_eq_getD_getElem?, Array.getElem?_modify] at hnames ⊢
    rw [Array.getElem?_eq_getElem hb.lt, Option.getD_some] at hnames
    rw [Array.getElem?_eq_getElem hb.lt]
    split
    · exact nodup_putBinding name b hnames
    · exact hnames

theorem of_scopes (hb : h.BindsOnce s) (hs : h'.scopes = h.scopes) : h'.BindsOnce s := by
  have hscope : h'.scope s = h.scope s := by rw [scope, scope, hs]
  exact ⟨hs ▸ hb.lt, hscope ▸ hb.names⟩

end BindsOnce

theorem Change.bindsOnce {s : ScopeId} (hc : h.Change h') (hb : h.BindsOnce s) :
    h'.BindsOnce s := by
  cases hc with
  | scope parent =>
    refine ⟨?_, by rw [scope_addChild parent hb.lt]; exact hb.names⟩
    show s.index < (h.scopes.push _).size
    rw [Array.size_push]
    exact Nat.lt_succ_of_lt hb.lt
  | declared b hs => exact hb.bind _ _ b
  | assigned v hs => exact hb.bind _ _ _
  | list | items | fields | made | field | function | native | scriptClass | extension | hostObject
  | slot => exact hb.of_scopes rfl

theorem Evolves.bindsOnce {s : ScopeId} (he : h.Evolves h') (hb : h.BindsOnce s) :
    h'.BindsOnce s :=
  he.keeps Change.bindsOnce hb

end Heap

/-! ## Instances -/

namespace Evaluation

variable {w w' : World} {id : ClassId} {baked : Fields} {args : List Value} {o : Value}

/-- The object that holds the fields of an instance. -/
def objectOf? (h : Heap) : Value → Option ObjectId
  | .object id => some id
  | .host id => Host.scriptObject? h id
  | _ => none

theorem objectOf?_evolves {h h' : Heap} {object : ObjectId} (he : h.Evolves h')
    (ho : objectOf? h o = some object) : objectOf? h' o = some object := by
  cases o with
  | object id => exact ho
  | host id => exact he.scriptObject?_eq ho
  | _ => cases ho

/-- A new instance has the values baked in that it was made with. -/
theorem newOf_bakes (hw : newOf id baked args w = .ok o w') :
    ∃ object, objectOf? w'.heap o = some object ∧ w'.heap.Bakes object baked := by
  obtain ⟨object, w₁, hobject, hw⟩ := ok_of_bind hw
  have hb : w₁.heap.Bakes object baked := by
    cases hobject
    refine ⟨?_, ?_, fun _ _ => ?_⟩ <;> simp [Heap.object, Array.getD, Fields.get?]
  refine ⟨object, ?_⟩
  obtain ⟨base, w₂, hbase, hw⟩ := ok_of_bind hw
  obtain rfl := (Looks.read _).eq_of_ok hbase
  cases base with
  | none =>
    cases hw
    exact ⟨rfl, hb⟩
  | some base =>
    obtain ⟨this, w₃, hextend, hw⟩ := ok_of_bind hw
    cases hw
    have hextend := ok_of_mapError hextend
    refine ⟨?_, ((Host.extend_regular _ _ _ _).evolves_of_ok hextend).bakes hb⟩
    obtain ⟨cls, w₄, -, hextend⟩ := ok_of_bind hextend
    obtain ⟨inner, w₅, -, hnew⟩ := ok_of_bind hextend
    cases hnew
    exact Heap.scriptObject?_iff.mpr ⟨cls, inner, Heap.hostObject_new _⟩

/-- **An instance is made in three parts**: the values of the static block, the new instance, and
whatever `init` does after it. -/
theorem instantiate_evolves {n : Nat} {cls : ScriptClass} (hcls : w.heap.scriptClass? id = some cls)
    (hw : instantiate (machine n) id args w = .ok o w') :
    ∃ baked w₁ w₂, bakedValues (machine n) cls w = .ok baked w₁ ∧
      newOf id baked args w₁ = .ok o w₂ ∧ w₂.heap.Evolves w'.heap := by
  obtain ⟨found, w₀, hfound, hw⟩ := ok_of_bind hw
  obtain ⟨rfl, rfl⟩ : w.heap.scriptClass? id = found ∧ w = w₀ := Outcome.ok.inj hfound
  rw [hcls] at hw
  obtain ⟨baked, w₁, hbaked, hw⟩ := ok_of_bind hw
  obtain ⟨v, w₂, hnew, hw⟩ := ok_of_bind hw
  obtain ⟨init, w₃, hread, hw⟩ := ok_of_bind hw
  obtain rfl := (Looks.read _).eq_of_ok hread
  cases init with
  | none =>
    cases hw
    exact ⟨baked, w₁, _, hbaked, hnew, .refl _⟩
  | some init =>
    obtain ⟨result, w₄, hcall, hw⟩ := ok_of_bind hw
    cases hw
    exact ⟨baked, w₁, w₃, hbaked, hnew,
      (callFunction_regular (machine_regular n) _ _ _).evolves_of_ok hcall⟩

end Evaluation

end ScriptEngine
