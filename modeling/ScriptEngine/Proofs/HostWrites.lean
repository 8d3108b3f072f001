import ScriptEngine.Proofs.Evolution
import ScriptEngine.Proofs.Overloads
/-!
# Writes that no setter takes

A property of a host object that no setter takes can be written on script instances alone: the value
is kept in a field of the script object. A read looks for getters and for the fields of the host
class first, so the value that was written comes back only where there are none.

* `Host.Unset` : no setter of any kind takes the value.
* `Host.Holds` : the script object of an instance is in the heap.
* `Host.setProperty_of_unset` : what a write comes to that no setter takes.
* `Host.getterOf?_putField`, `Host.memberOf_putField` : what a field that was set is to a read.
* **`Host.read_after_unset_write`** : the read after such a write.

This is `set_property` with `get_property` after it. Values that are baked in are out of scope: a
write of one is refused.
-/

namespace ScriptEngine

/-! ## Heaps with the same code -/

namespace Heap.SameCode

variable {h h' : Heap} (hs : h.SameCode h')
include hs

theorem searchClasses_eq {α : Type} (f : ScriptClass → Option α) :
    ∀ (levels : Nat) (id : ClassId), h'.searchClasses f levels id = h.searchClasses f levels id
  | 0, _ => rfl
  | levels + 1, id => by
    unfold searchClasses scriptClass?
    rw [hs.classes]
    simp only [searchClasses_eq f levels]

theorem methodOf?_eq (id : ClassId) (name : String) : h'.methodOf? id name = h.methodOf? id name :=
  hs.searchClasses_eq _ _ _

theorem hostClass_eq (cls : HostClassId) : h'.hostClass cls = h.hostClass cls := by
  rw [hostClass, hostClass, hs.hostClasses]

theorem ancestry_eq (cls : HostClassId) : h'.ancestry cls = h.ancestry cls := by
  have hfrom : ∀ (levels : Nat) (cls : HostClassId),
      h'.ancestryFrom levels cls = h.ancestryFrom levels cls := by
    intro levels
    induction levels with
    | zero => exact fun _ => rfl
    | succ levels ih =>
      intro cls
      unfold ancestryFrom
      simp only [hs.hostClass_eq, ih]
  exact hfrom _ cls

theorem methodsNamed_eq (cls : HostClassId) (name : String) (arity : Nat) (static : Bool) :
    h'.methodsNamed cls name arity static = h.methodsNamed cls name arity static := by
  unfold methodsNamed allMethods
  simp only [hs.ancestry_eq, hs.hostClass_eq]

theorem fieldSlot?_eq (cls : HostClassId) (name : String) :
    Host.fieldSlot? h' cls name = Host.fieldSlot? h cls name := by
  unfold Host.fieldSlot? findField?
  simp only [hs.ancestry_eq, hs.hostClass_eq]

end Heap.SameCode

/-- The host instance inside an object is found among the host objects. -/
theorem Heap.concrete_eq {h h' : Heap} (ho : h'.hostObjects = h.hostObjects) (id : HostId) :
    h'.concrete id = h.concrete id := by
  have hinner : ∀ (levels : Nat) (id : HostId), h'.innermost levels id = h.innermost levels id := by
    intro levels
    induction levels with
    | zero => exact fun _ => rfl
    | succ levels ih =>
      intro id
      unfold innermost hostObject
      simp only [ho, ih]
  exact hinner _ id

namespace Host

open Run

variable {again : Calls} {w w' : World} {h : Heap} {this : HostId} {name : String} {value : Value}
  {object : ObjectId}

/-! ## Writing -/

/-- No setter takes the value: the script class has none, those of the host class refuse it, and the
host class has no field of the name that can be written. -/
structure Unset (w : World) (this : HostId) (name : String) (value : Value) : Prop where
  script : scriptMethod? w.heap this (accessorName "set" name) = none
  host : ∀ m ∈ setters w.heap this name, (Arguments.script [value]).Refused w m.params
  field : writableField? w.heap (w.heap.classOf this) name = none

/-- Candidates that all refuse the arguments are passed over. -/
theorem firstFit_of_refused {α : Type} {params : α → List HostType} {args : List Value} :
    ∀ {ms : List α}, (∀ m ∈ ms, (Arguments.script args).Refused w (params m)) →
      firstFit params args ms w = .ok none w
  | [], _ => rfl
  | m :: ms, hrefused => by
    obtain ⟨⟨e, hm⟩, hms⟩ := List.forall_mem_cons.mp hrefused
    rw [Arguments.fit_script] at hm
    have hattempt : (Run.attempt (HostRun.toHostAll (params m) args) :
        HostRun (Except HostError (List HostData))) w = .ok (.error e) w := by
      unfold Run.attempt
      rw [hm]
    exact (bind_of_ok hattempt).trans (firstFit_of_refused hms)

/-- What is baked in cannot be written. -/
theorem unbaked_of_setProperty (hwrite : setProperty again this name value w = .ok () w') :
    bakedProperty? w.heap this name = none := by
  cases hbaked : bakedProperty? w.heap this name with
  | none => rfl
  | some v =>
    have hset : setProperty again this name value w = _ := bind_of_ok (read_of_eq hbaked)
    cases hset.symm.trans hwrite

/-- **A write that no setter takes** is kept in a field of the script object, and there is one. -/
theorem setProperty_of_unset (hunset : Unset w this name value)
    (hwrite : setProperty again this name value w = .ok () w') :
    ∃ object, scriptObject? w.heap this = some object ∧
      w' = { w with heap := w.heap.putField object name value } := by
  have hrefused : HostRun.toScript (firstFit HostMethod.params [value]
      (setters w.heap this name)) w = .ok none w := mapError_of_ok (firstFit_of_refused hunset.host)
  have hset : setProperty again this name value w = setHostProperty again this name value w :=
    (bind_of_ok (read_of_eq (unbaked_of_setProperty hwrite))).trans (bind_of_ok
      (read_of_eq (f := fun w => scriptMethod? w.heap this (accessorName "set" name))
        hunset.script))
  rw [hset, setHostProperty_eq hrefused, storeField, hunset.field] at hwrite
  cases hobject : scriptObject? w.heap this with
  | some object =>
    rw [hobject] at hwrite
    cases hwrite
    exact ⟨object, rfl, rfl⟩
  | none =>
    rw [hobject] at hwrite
    cases hwrite

/-! ## Reading -/

/-- The script object of an instance is in the heap. -/
def Holds (h : Heap) (this : HostId) : Prop :=
  ∀ object, scriptObject? h this = some object → object.index < h.objects.size

/-- An instance that was made has its script object in the heap for good. -/
theorem holds_of_newOf {id : ClassId} {baked : Fields} {args : List Value}
    (hnew : Evaluation.newOf id baked args w = .ok (.host this) w')
    (he : w'.heap.Evolves h) : Holds h this := by
  obtain ⟨object, ho, hb⟩ := Evaluation.newOf_bakes hnew
  intro object' ho'
  cases (he.scriptObject?_eq ho).symm.trans ho'
  exact (he.bakes hb).lt

section Put

theorem sameCode_putField (id : ObjectId) (v : Value) : h.SameCode (h.putField id name v) :=
  ⟨rfl, rfl, rfl, rfl⟩

/-- Objects keep everything but their fields. -/
theorem exists_object_putField (id other : ObjectId) (name : String) (v : Value) :
    ∃ fields, (h.putField id name v).object other = { h.object other with fields } := by
  unfold Heap.object Heap.putField
  simp only [Array.getD_eq_getD_getElem?, Array.getElem?_modify]
  split
  · cases h.objects[other.index]? <;> exact ⟨_, rfl⟩
  · exact ⟨_, rfl⟩

theorem cls_putField (id other : ObjectId) (name : String) (v : Value) :
    ((h.putField id name v).object other).cls = (h.object other).cls := by
  obtain ⟨fields, hobject⟩ := exists_object_putField (h := h) id other name v
  rw [hobject]

theorem baked_putField (id other : ObjectId) (name : String) (v : Value) :
    ((h.putField id name v).object other).baked = (h.object other).baked := by
  obtain ⟨fields, hobject⟩ := exists_object_putField (h := h) id other name v
  rw [hobject]

theorem scriptMethod?_putField (id : ObjectId) (v : Value) (member : String) :
    scriptMethod? (h.putField id name v) this member = scriptMethod? h this member := by
  have hobject : scriptObject? (h.putField id name v) this = scriptObject? h this := rfl
  unfold scriptMethod?
  rw [hobject]
  cases scriptObject? h this with
  | none => rfl
  | some object =>
    simp only [Option.bind_eq_bind, Option.bind_some, cls_putField,
      (sameCode_putField id v).methodOf?_eq]

/-- A field of a script object has no say in getters. -/
theorem getterOf?_putField (id : ObjectId) (v : Value) (member : String) :
    getterOf? (h.putField id name v) this member = getterOf? h this member := by
  have hcls : (h.putField id name v).classOf this = h.classOf this := rfl
  unfold getterOf?
  simp only [scriptMethod?_putField, hcls, (sameCode_putField id v).methodsNamed_eq]

/-- Nor has it one in the fields of the host class. -/
theorem fieldSlot?_putField (id : ObjectId) (v : Value) (member : String) :
    fieldSlot? (h.putField id name v) ((h.putField id name v).classOf this) member =
      fieldSlot? h (h.classOf this) member :=
  (sameCode_putField id v).fieldSlot?_eq _ _

theorem bakedProperty?_putField (id : ObjectId) (v : Value) (member : String) :
    bakedProperty? (h.putField id name v) this member = bakedProperty? h this member := by
  have hobject : scriptObject? (h.putField id name v) this = scriptObject? h this := rfl
  unfold bakedProperty? baked?
  rw [hobject]
  cases scriptObject? h this with
  | none => rfl
  | some object => simp only [Option.bind_eq_bind, Option.bind_some, baked_putField]

/-- Where nothing comes before the fields of the script object, the field that was set is found. -/
theorem memberOf_putField (hobject : scriptObject? h this = some object)
    (hlt : object.index < h.objects.size) (v : Value) :
    memberOf (h.putField object name v) this name = v := by
  have hfield : (do
      ((h.putField object name v).object
        (← scriptObject? (h.putField object name v) this)).fields.get? name) = some v := by
    have hsame : scriptObject? (h.putField object name v) this = some object := hobject
    simp only [hsame, Option.bind_eq_bind, Option.bind_some, Heap.object_putField object object name
      v hlt, if_true, Fields.get?_put]
  unfold memberOf
  simp only [hfield]

end Put

/-! ## Reading what was written -/

/-- **The read after a write that no setter takes.** The value comes back if the property has no
getter and the host class no field of the name. If there is a getter, in the script class or in the
host class, the read is what the getter answers; if there is a field of the host class, which then
cannot be written, the read is what the field holds, in spite of the write. -/
theorem read_after_unset_write (hunset : Unset w this name value) (hholds : Holds w.heap this)
    (hwrite : setProperty again this name value w = .ok () w') :
    (getterOf? w.heap this name = none → fieldSlot? w.heap (w.heap.classOf this) name = none →
      getProperty again this name w' = .ok value w') ∧
    (∀ f, getterOf? w.heap this name = some (.script f) → getProperty again this name w' =
      Evaluation.callFunction again f (some (.host this)) [] w') ∧
    (∀ m, getterOf? w.heap this name = some (.host m) → getProperty again this name w' =
      runForScript again (some this) m [] w') ∧
    (∀ slot, getterOf? w.heap this name = none →
      fieldSlot? w.heap (w.heap.classOf this) name = some slot → getProperty again this name w' =
        Run.fromHost (w.heap.slot (w.heap.concrete this) slot) w') := by
  have hbaked := unbaked_of_setProperty hwrite
  obtain ⟨object, hobject, rfl⟩ := setProperty_of_unset hunset hwrite
  have hread : getProperty again this name
      { w with heap := w.heap.putField object name value } = _ := getProperty_eq
  rw [bakedProperty?_putField, hbaked, getterOf?_putField] at hread
  refine ⟨fun hgetter hslot => ?_, fun f hgetter => ?_, fun m hgetter => ?_,
    fun slot hgetter hslot => ?_⟩
  · rw [hread, hgetter]
    simp only [scriptField, fieldSlot?_putField, hslot,
      memberOf_putField hobject (hholds object hobject)]
  · rw [hread, hgetter]
  · rw [hread, hgetter]
  · rw [hread, hgetter]
    simp only [scriptField, fieldSlot?_putField, hslot]
    have hread : readSlot this slot { w with heap := w.heap.putField object name value } =
        .ok (w.heap.slot (w.heap.concrete this) slot)
          { w with heap := w.heap.putField object name value } := by
      refine read_of_eq (f := fun w => w.heap.slot (w.heap.concrete this) slot) ?_
      have hobjects : (w.heap.putField object name value).hostObjects = w.heap.hostObjects := rfl
      simp only [Heap.concrete_eq hobjects]
      rfl
    exact mapError_of_ok (bind_of_ok hread)

/-- A `Sketch` of a `Canvas` whose width can be read and not be written. -/
def sketchOfWidth : World :=
  sketched [⟨"getWidth", [], .int, .final, .constant (.int 7)⟩] []

/-- The width of the sketch is written without an error, and reads as the one of the canvas. -/
theorem width_reads_as_before : ∃ w',
    setProperty Evaluation.calls ⟨1⟩ "width" (.bool true) sketchOfWidth = .ok () w' ∧
    getProperty Evaluation.calls ⟨1⟩ "width" w' = .ok (.number (Float.ofInt 7)) w' := by
  obtain ⟨w', hwrite⟩ : ∃ w', setProperty Evaluation.calls ⟨1⟩ "width" (.bool true) sketchOfWidth =
    .ok () w' := ⟨_, rfl⟩
  have hunset : Unset sketchOfWidth ⟨1⟩ "width" (.bool true) := ⟨rfl, List.forall_mem_nil _, rfl⟩
  have hholds : Holds sketchOfWidth.heap ⟨1⟩ := by
    rintro object hobject
    cases hobject
    exact Nat.lt_succ_self 0
  obtain ⟨-, -, hread, -⟩ := read_after_unset_write hunset hholds hwrite
  exact ⟨w', hwrite, hread _ rfl⟩

end Host

end ScriptEngine
