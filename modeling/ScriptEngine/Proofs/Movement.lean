import ScriptEngine.Proofs.Discipline
/-!
# Changes of data

Lists, fields and instances change all the time, and what is put into them was about before. So
whichever classes of scripts are about, no others get about through data.

* `Stock` : the values that may be about.
* `Heap.Stocked` : a heap whose data hold no others.
* `Heap.Moves` : a heap in which only data were changed.
* `Heap.Stocked.addList`, `Heap.Stocked.putField`, … : one lemma for each change of data.
-/

namespace ScriptEngine

/-! ## Stocks -/

/-- The values that may be about: all but native functions and classes of scripts, and some of
these. -/
structure Stock where
  Has : Value → Prop
  common : ∀ {v : Value}, v.Common → Has v

variable {S : Stock}

namespace Stock

/-- The fields hold nothing else. -/
def HasFields (S : Stock) (fields : Fields) : Prop := ∀ e ∈ fields, S.Has e.2

variable {fields : Fields} {name : String} {v : Value}

theorem hasFields_put (hf : S.HasFields fields) (hv : S.Has v) :
    S.HasFields (Fields.put name v fields) := by
  induction fields with
  | nil =>
    intro e he
    obtain rfl := List.mem_singleton.mp he
    exact hv
  | cons e fields ih =>
    obtain ⟨he, hfields⟩ := List.forall_mem_cons.mp hf
    unfold Fields.put
    split
    · exact List.forall_mem_cons.mpr ⟨hv, hfields⟩
    · exact List.forall_mem_cons.mpr ⟨he, ih hfields⟩

theorem hasFields_ofPairs {pairs : List (String × Value)} (hp : ∀ e ∈ pairs, S.Has e.2) :
    S.HasFields (Fields.ofPairs pairs) := by
  suffices hfold : ∀ fields : Fields, S.HasFields fields →
      S.HasFields (pairs.foldl (fun fields e => fields.put e.1 e.2) fields) from hfold [] nofun
  induction pairs with
  | nil => exact fun _ hfields => hfields
  | cons e pairs ih =>
    obtain ⟨he, hpairs⟩ := List.forall_mem_cons.mp hp
    intro fields hfields
    exact ih hpairs _ (hasFields_put hfields he)

end Stock

/-! ## Heaps -/

namespace Heap

variable {h h' : Heap} {v : Value}

/-- Lists and objects hold nothing but values of the stock, and only such classes have instances. -/
structure Stocked (S : Stock) (h : Heap) : Prop where
  lists : ∀ items ∈ h.lists, ∀ v ∈ items, S.Has v
  fields : ∀ o ∈ h.objects, S.HasFields o.fields
  baked : ∀ o ∈ h.objects, S.HasFields o.baked
  instances : ∀ o ∈ h.objects, ∀ c ∈ o.cls, S.Has (.scriptClass c)

/-- Nothing but data differs: scopes, functions and classes are the same, objects may be more, and
there are no new instances of classes that extend host classes. -/
structure Moves (h h' : Heap) : Prop where
  code : h.SameCode h'
  scopes : h'.scopes = h.scopes
  objects : h.objects.size ≤ h'.objects.size
  extended : ∀ cls base object, .extended cls base object ∈ h'.hostObjects →
    .extended cls base object ∈ h.hostObjects

namespace Stocked

/-! ### What is read -/

theorem list (hh : h.Stocked S) (id : ListId) : ∀ v ∈ h.list id, S.Has v := by
  unfold Heap.list
  rw [Array.getD_eq_getD_getElem?]
  cases hget : h.lists[id.index]? with
  | none => exact nofun
  | some items => exact hh.lists items (Array.mem_of_getElem? hget)

theorem object_cases (h : Heap) (id : ObjectId) :
    h.object id ∈ h.objects ∨ h.object id = ⟨none, [], []⟩ := by
  unfold Heap.object
  rw [Array.getD_eq_getD_getElem?]
  cases hget : h.objects[id.index]? with
  | none => exact .inr rfl
  | some o => exact .inl (Array.mem_of_getElem? hget)

theorem objectFields (hh : h.Stocked S) (id : ObjectId) : S.HasFields (h.object id).fields := by
  rcases object_cases h id with hmem | hnone
  · exact hh.fields _ hmem
  · rw [hnone]
    exact nofun

theorem objectBaked (hh : h.Stocked S) (id : ObjectId) : S.HasFields (h.object id).baked := by
  rcases object_cases h id with hmem | hnone
  · exact hh.baked _ hmem
  · rw [hnone]
    exact nofun

/-! ### What is changed -/

theorem addList (hh : h.Stocked S) {items : Array Value} (hi : ∀ v ∈ items, S.Has v) :
    (h.addList items).2.Stocked S :=
  { hh with
    lists := fun items' hmem => by
      rcases Array.mem_push.mp hmem with hmem | rfl
      · exact hh.lists items' hmem
      · exact hi }

theorem changeList (hh : h.Stocked S) (id : ListId) {g : Array Value → Array Value}
    (hg : ∀ items : Array Value, (∀ v ∈ items, S.Has v) → ∀ v ∈ g items, S.Has v) :
    (h.changeList id g).Stocked S :=
  { hh with
    lists := fun items hmem => by
      obtain ⟨old, hold, rfl | rfl⟩ := exists_of_mem_modify hmem
      · exact hh.lists _ hold
      · exact hg old (hh.lists old hold) }

theorem addObject (hh : h.Stocked S) {o : Object} (hf : S.HasFields o.fields)
    (hb : S.HasFields o.baked) (hc : ∀ c ∈ o.cls, S.Has (.scriptClass c)) :
    (h.addObject o).2.Stocked S where
  lists := hh.lists
  fields o' hmem := by
    rcases Array.mem_push.mp hmem with hmem | rfl
    · exact hh.fields o' hmem
    · exact hf
  baked o' hmem := by
    rcases Array.mem_push.mp hmem with hmem | rfl
    · exact hh.baked o' hmem
    · exact hb
  instances o' hmem := by
    rcases Array.mem_push.mp hmem with hmem | rfl
    · exact hh.instances o' hmem
    · exact hc

theorem addFields (hh : h.Stocked S) {fields : Fields} (hf : S.HasFields fields) :
    (h.addFields fields).2.Stocked S :=
  hh.addObject hf nofun nofun

theorem putField (hh : h.Stocked S) (id : ObjectId) (name : String) (hv : S.Has v) :
    (h.putField id name v).Stocked S where
  lists := hh.lists
  fields o hmem := by
    simp only [Heap.putField] at hmem
    obtain ⟨old, hold, rfl | rfl⟩ := exists_of_mem_modify hmem
    · exact hh.fields _ hold
    · exact Stock.hasFields_put (hh.fields old hold) hv
  baked o hmem := by
    simp only [Heap.putField] at hmem
    obtain ⟨old, hold, rfl | rfl⟩ := exists_of_mem_modify hmem
    · exact hh.baked _ hold
    · exact hh.baked old hold
  instances o hmem := by
    simp only [Heap.putField] at hmem
    obtain ⟨old, hold, rfl | rfl⟩ := exists_of_mem_modify hmem
    · exact hh.instances _ hold
    · exact hh.instances old hold

end Stocked

/-! ### One change -/

theorem moves_of_data (hcode : h.SameCode h') (hscopes : h'.scopes = h.scopes)
    (hobjects : h'.objects = h.objects) (hhost : h'.hostObjects = h.hostObjects) : h.Moves h' where
  code := hcode
  scopes := hscopes
  objects := Nat.le_of_eq (congrArg Array.size hobjects.symm)
  extended _ _ _ hmem := hhost ▸ hmem

theorem moves_addList (h : Heap) (items : Array Value) : h.Moves (h.addList items).2 :=
  moves_of_data ⟨rfl, rfl, rfl, rfl⟩ rfl rfl rfl

theorem moves_changeList (h : Heap) (id : ListId) (g : Array Value → Array Value) :
    h.Moves (h.changeList id g) :=
  moves_of_data ⟨rfl, rfl, rfl, rfl⟩ rfl rfl rfl

theorem moves_addObject (h : Heap) (o : Object) : h.Moves (h.addObject o).2 where
  code := ⟨rfl, rfl, rfl, rfl⟩
  scopes := rfl
  objects := by simp [Heap.addObject]
  extended _ _ _ hmem := hmem

theorem moves_putField (h : Heap) (id : ObjectId) (name : String) (v : Value) :
    h.Moves (h.putField id name v) where
  code := ⟨rfl, rfl, rfl, rfl⟩
  scopes := rfl
  objects := by simp [Heap.putField]
  extended _ _ _ hmem := hmem

/-- Not every host object is an instance of a class that extends a host class. -/
theorem moves_addHostObject (h : Heap) {o : HostObject}
    (ho : ∀ cls base object, o ≠ .extended cls base object) :
    h.Moves (h.addHostObject o).2 where
  code := ⟨rfl, rfl, rfl, rfl⟩
  scopes := rfl
  objects := Nat.le_refl _
  extended cls base object hmem := by
    rcases Array.mem_push.mp hmem with hmem | heq
    · exact hmem
    · exact absurd heq.symm (ho cls base object)

/-- A slot of a host instance is no part of its class or its object. -/
theorem moves_withSlot (h : Heap) (id : HostId) (name : String) (data : HostData) :
    h.Moves (h.withSlot id name data) where
  code := ⟨rfl, rfl, rfl, rfl⟩
  scopes := rfl
  objects := Nat.le_refl _
  extended cls base object hmem := by
    simp only [withSlot] at hmem
    obtain ⟨old, hold, rfl | heq⟩ := exists_of_mem_modify hmem
    · exact hold
    · cases old with
      | extended => exact heq ▸ hold
      | _ => cases heq

end Heap

end ScriptEngine
