import ScriptEngine.Evaluation.Machine
import ScriptEngine.Proofs.Conversions
import ScriptEngine.Proofs.Walk.Data
/-!
# Members and declarations under a law

Host objects are made, looked at and changed without any code being started, as long as no method of
theirs is called; so are the parts of lists and objects. What a declaration adds to the heap is made
in one step of its own: the functions and classes of scripts, the host classes that are made for
them, and their instances.

* `HostRun.toHost_tame` : the conversion of a value to host data (`to_host`).
* `Host.firstFit_obeys`, `Host.construct_tame` : the first candidate whose parameters fit
  (`invoke_first`, `construct`).
* `Host.extend_tame` : the instance of a class that extends a host class (`instantiate`).
* `Evaluation.writeIndex_tame`, `Evaluation.itemsOf_obeys` : the parts of values.
* `Evaluation.closure_obeys`, `Evaluation.declareClass_tame`, `Evaluation.importType_tame` :
  declarations.
* `Evaluation.newOf_knows` : a new instance, before its constructor is called.
-/

namespace ScriptEngine

open Run
open Faulty (fault)

variable {L : Law} {p : L.Place} {h : Heap} {ε α : Type}

/-! ## Errors of conversions -/

namespace Heap

/-- What cannot be converted is a failed conversion, and no fault of a script. -/
theorem span_of_naturalWithin : ∀ {levels : Nat} {v : Value} {e : HostError},
    h.naturalWithin levels v = .error (some e) → (fault e).span = none
  | 0, _, _, he => by cases he
  | levels + 1, v, e, he => by
    rw [naturalWithin_succ] at he
    cases hparts : (h.parts v).mapM (h.naturalWithin levels) with
    | error o =>
      rw [hparts] at he
      cases he
      obtain ⟨-, u, -, -, -, hu⟩ := Except.exists_of_mapM_eq_error hparts
      exact span_of_naturalWithin hu
    | ok ds =>
      rw [hparts] at he
      cases v <;> cases he <;> rfl

theorem span_of_coerce {type : HostType} {d : HostData} {e : HostError}
    (he : h.coerce type d = .error e) :
    (fault e).span = none := by
  have refused :
      (.error (.conversion d.typeName type.text) : Except HostError HostData) = .error e →
        (fault e).span = none := by
    rintro ⟨⟩
    rfl
  unfold coerce at he
  extract_lets at he
  split at he
  any_goals cases he
  · split at he
    · cases he
    · exact refused he
  · split at he
    · exact refused he
    · split at he
      any_goals cases he
      exact refused he

end Heap

/-! ## The host's side -/

namespace HostRun

theorem natural_tame (v : Value) : (natural v).Tame L p h := by
  intro w w' hw _
  unfold ObeysAt natural
  simp only [L.heap_eq hw]
  split
  · exact .ok hw (L.keeps_refl p w.heap) trivial
  · next e he =>
      exact .error hw (L.keeps_refl p w.heap) (L.fits_fresh (Heap.span_of_naturalWithin he))
  · exact .stopped L.stuck

theorem toHost_tame (type : HostType) (v : Value) : (toHost type v).Tame L p h := by
  refine .bind (natural_tame v) fun d => .looking rfl fun w w' hw _ => ?_
  simp only
  split
  · exact .value hw trivial
  · next hfitted => exact .raise hw (Heap.span_of_coerce hfitted)

theorem toHostAll_tame (types : List HostType) (args : List Value) :
    (toHostAll types args).Tame L p h :=
  (Obeys.collect (Q := fun _ _ => True) (fun _ _ => trivial) _ fun _ _ => toHost_tame _ _).tame

end HostRun

namespace Host

open HostRun

theorem newObject_obeys {o : HostObject} (ho : ∀ cls base object, o = .extended cls base object →
    L.There h (.hostClass cls) ∧ L.There h (.object object)) : (newObject o).Tame L p h := by
  refine .alter (g := fun w => w.heap.addHostObject o) rfl fun _ _ _ hl => ⟨.hostObject ?_, trivial⟩
  intro cls base object heq
  obtain ⟨hcls, hobject⟩ := ho cls base object heq
  exact ⟨L.there_later hl hcls, L.there_later hl hobject⟩

theorem newObject_tame {o : HostObject} (ho : ∀ cls base object, o ≠ .extended cls base object) :
    (newObject o).Tame L p h :=
  newObject_obeys fun cls base object heq => absurd heq (ho cls base object)

theorem writeSlot_tame (id : HostId) (name : String) (d : HostData) :
    (writeSlot id name d).Tame L p h :=
  .alter (g := fun w => ((), w.heap.withSlot id name d)) rfl fun _ _ _ _ =>
    ⟨.slot id name d, trivial⟩

theorem bytesOf_tame (id : HostId) : (bytesOf id).Tame L p h := by
  refine .reading rfl fun o => ?_
  cases o with
  | bytes data => exact .done data
  | plain | extended => exact .raise rfl

theorem runConstructor_tame (k : HostConstructor) (args : List HostData) :
    (runConstructor k args).Tame L p h := by
  unfold runConstructor
  split
  · exact .raise rfl
  · exact newObject_tame nofun

/-- The candidate that is found is one of the candidates. -/
theorem firstFit_obeys {α : Type} (params : α → List HostType) (args : List Value) :
    ∀ ms : List α, (firstFit params args ms).Lawful L p h fun _ o => ∀ found ∈ o, found.1 ∈ ms
  | [] => .value fun _ _ => nofun
  | m :: ms => by
    refine .bind (Obeys.attempt (toHostAll_tame (params m) args)).tame fun fitted => ?_
    cases fitted with
    | ok fitted =>
      refine .value fun _ _ found hfound => ?_
      cases hfound
      exact List.mem_cons_self
    | error e =>
      refine (firstFit_obeys params args ms).mono fun _ o _ ho found hfound => ?_
      exact List.mem_cons_of_mem m (ho found hfound)

theorem construct_tame (cls : HostClassId) (args : List Value) :
    (construct cls args).Tame L p h := by
  refine .reading rfl fun candidates => .bind (firstFit_obeys _ _ _).tame fun found => ?_
  cases found with
  | some found => exact runConstructor_tame _ _
  | none => exact .reading rfl fun _ => .raise rfl

/-- The host instance in an instance of a script class is made as any other. -/
theorem constructBase_tame (cls : HostClassId) (args : List Value) :
    (constructBase cls args).Tame L p h := by
  refine .reading rfl fun candidates => .bind (firstFit_obeys _ _ _).tame fun found => ?_
  cases found with
  | some found => exact runConstructor_tame _ _
  | none =>
    refine .reading rfl fun plain => ?_
    cases plain with
    | some k => exact runConstructor_tame _ _
    | none => exact .reading rfl fun _ => .raise rfl

theorem getStatic_knows (cls : HostClassId) (name : String) : (getStatic cls name).Knows L p h := by
  refine .reading rfl fun nested => ?_
  split
  · exact .common trivial
  · refine .reading rfl fun field => ?_
    split
    · exact fromHost_knows _
    · refine .reading rfl fun found => ?_
      split
      · exact .common trivial
      · exact .common trivial

/-! ### What an instance of a script class holds -/

theorem baked_obeys [Faulty ε] (this : HostId) (getter : String) :
    (Run.read (fun w => baked? w.heap this getter) : Run ε (Option Value)).Lawful L p h
      fun h' o => ∀ v ∈ o, L.Known h' v := by
  refine .look rfl fun w w' hw _ v hv => ?_
  obtain ⟨object, -, hget⟩ := Option.bind_eq_some_iff.mp hv
  exact Fields.of_get? (P := L.Known w.heap) (L.baked_known hw object) hget

theorem memberOf_knows (this : HostId) (name : String) :
    (Script.heap (memberOf · this name)).Knows L p h := by
  refine .look rfl fun w w' hw _ => ?_
  unfold memberOf
  simp only
  split
  · next hfield =>
    obtain ⟨object, -, hget⟩ := Option.bind_eq_some_iff.mp hfield
    exact Fields.of_get? (P := L.Known w.heap) (L.fields_known hw object) hget
  · split
    · exact L.known_common trivial
    · split
      · exact L.known_common trivial
      · exact L.known_common trivial

/-- A field is set where nothing is baked in for it. -/
theorem putField_obeysAt {w : World} {w' : L.Case → World} (hw : L.Holds p w w') {id : ObjectId}
    {name : String} (hn : Evaluation.isBaked w.heap id name = false) {v : Value}
    (hv : L.Known w.heap v) :
    (putField id name v).ObeysAt L p (fun _ _ => True) (fun _ => putField id name v) w w' :=
  .alter (g := fun w => w.heap.putField id name v) rfl hw (.field hn hv)

/-! ### Instances of classes that extend host classes -/

/-- The host class is made once, and then it is there. -/
theorem extensionOf_obeys (script : ClassId) (base : HostClassId) :
    (extensionOf script base).Lawful L p h fun h' cls => L.There h' (.hostClass cls) := by
  intro w w' hw _
  unfold ObeysAt
  cases hfound : (w.heap.scriptClass? script).bind (·.extension) with
  | some cls =>
    have hsame (v : World) (hv : v.heap = w.heap) : extensionOf script base v = .ok cls v := by
      simp only [extensionOf, Run.change, hv, hfound]
    simp only [hsame w rfl, hsame _ (L.heap_eq hw _)]
    obtain ⟨k, hk, hcls⟩ := Option.bind_eq_some_iff.mp hfound
    exact .ok hw (L.keeps_refl p w.heap) (L.extension_there hw hk hcls)
  | none =>
    have hmade (v : World) (hv : v.heap = w.heap) : extensionOf script base v =
        .ok ⟨w.heap.hostClasses.size⟩ (v.withHeap (w.heap.withExtension script base)) := by
      simp only [extensionOf, Run.change, hv, hfound]
      rfl
    simp only [hmade w rfl, hmade _ (L.heap_eq hw _)]
    have ha := L.alters hw (.extension script base)
    exact .ok ha.holds ha.keeps (L.there_extension w.heap script base)

theorem extend_tame (script : ClassId) (base : HostClassId) {object : ObjectId}
    (hobject : L.There h (.object object)) (args : List Value) :
    (extend script base object args).Tame L p h := by
  refine .andThen (extensionOf_obeys script base) fun h₁ cls hl₁ hcls => ?_
  refine .andThen (constructBase_tame cls args) fun h₂ inner hl₂ _ => newObject_obeys ?_
  rintro _ _ _ ⟨⟩
  exact ⟨L.there_later hl₂ hcls, L.there_later (L.later_trans hl₁ hl₂) hobject⟩

end Host

/-! ## Parts of values -/

namespace Evaluation

/-- What a property comes from is such a value, if it is one. -/
def Source.All (P : Value → Prop) : Source → Prop
  | .value v | .getter v => P v
  | .missing => True

theorem sourceOf_obeys (id : ObjectId) (name : String) :
    (Script.heap (sourceOf · id name)).Lawful L p h fun h' => Source.All (L.Known h') := by
  refine .look rfl fun w w' hw _ => ?_
  have hfields := L.fields_known hw id
  have hbaked := L.baked_known hw id
  unfold sourceOf
  simp only
  split
  · next v hv =>
    rcases Option.or_eq_some_iff.mp hv with hv | ⟨-, hv⟩
    · exact Fields.of_get? (P := L.Known w.heap) hfields hv
    · exact Fields.of_get? (P := L.Known w.heap) hbaked hv
  · split
    · next hv => exact Fields.of_get? (P := L.Known w.heap) hbaked hv
    · split
      · exact L.known_common trivial
      · trivial

/-- A getter answers with a value that was baked in. -/
theorem constantGetter_knows (name : String) {v : Value} (hv : L.Known h v) :
    (constantGetter name v).Knows L p h :=
  .alter (g := fun w => (Value.native (w.heap.addNative ⟨name, 0, some 0, .constant v⟩).1,
      (w.heap.addNative ⟨name, 0, some 0, .constant v⟩).2)) rfl
    fun _ _ hw hl => ⟨.getter name (L.known_later hl hv), L.known_native hw _⟩

theorem missing_knows (strict : Bool) (name : String) :
    (if strict then Script.refuse (.undefinedProperty name) else pure .null : Script Value).Knows L
      p h := by
  split
  · exact .raise rfl
  · exact .common trivial

theorem setField_tame (id : ObjectId) (name : String) {v : Value} (hv : L.Known h v) :
    (setField id name v).Tame L p h := by
  refine .looking rfl fun w w' hw hl => ?_
  simp only
  split
  · exact .raise hw rfl
  · next hn => exact Host.putField_obeysAt hw (Bool.eq_false_iff.mpr hn) (L.known_later hl hv)

theorem writeItem_tame (id : ListId) (i : Int) {v : Value} (hv : L.Known h v) :
    (writeItem id i v).Tame L p h := by
  intro w w' hw hl
  have hv := L.known_later hl hv
  have changed (g : Array Value → Array Value)
      (hg : ∀ items : Array Value, (∀ v ∈ items, L.Known w.heap v) → ∀ v ∈ g items,
        L.Known w.heap v) :
      L.Admits p w w' (w.heap.changeList id g) :=
    L.alters hw (.items id hg)
  unfold ObeysAt writeItem
  simp only [L.heap_eq hw]
  cases i with
  | negSucc n => exact .error hw (L.keeps_refl p w.heap) (L.fits_fresh rfl)
  | ofNat n =>
    by_cases hin : n < (w.heap.list id).size
    · simp only [if_pos hin]
      have ha := changed (·.setIfInBounds n v) fun items hitems v' hv' => by
        rcases Array.mem_or_eq_of_mem_setIfInBounds hv' with hv' | rfl
        · exact hitems v' hv'
        · exact hv
      exact .ok ha.holds ha.keeps trivial
    · simp only [if_neg hin]
      by_cases hend : n = (w.heap.list id).size
      · simp only [if_pos hend]
        have ha := changed (·.push v) fun items hitems v' hv' => by
          rcases Array.mem_push.mp hv' with hv' | rfl
          · exact hitems v' hv'
          · exact hv
        exact .ok ha.holds ha.keeps trivial
      · simp only [if_neg hend]
        exact .error hw (L.keeps_refl p w.heap) (L.fits_fresh rfl)

theorem writeIndex_tame (v key : Value) {value : Value} (hv : L.Known h value) :
    (writeIndex v key value).Tame L p h := by
  cases v with
  | list id =>
    exact .andThen (Operators.listIndex_tame _) fun _ _ hl _ =>
      writeItem_tame _ _ (L.known_later hl hv)
  | object id => exact .reading rfl fun _ => setField_tame _ _ hv
  | _ => exact .raise rfl

theorem itemsOf_obeys (v : Value) :
    (itemsOf v).Lawful L p h fun h' items => ∀ v ∈ items, L.Known h' v := by
  cases v with
  | list id =>
    exact .look rfl fun w w' hw _ v hv => L.list_known hw id v (Array.mem_toList_iff.mp hv)
  | object id =>
    refine .look rfl fun w w' hw _ v hv => ?_
    obtain ⟨e, -, rfl⟩ := List.mem_map.mp hv
    exact L.known_common trivial
  | string s =>
    refine .value fun h' _ v hv => ?_
    obtain ⟨c, -, rfl⟩ := List.mem_map.mp hv
    exact L.known_common trivial
  | _ => exact .raise rfl

/-! ## Names -/

theorem receiver_knows (hr : L.readable "this") : receiver.Knows L p h := by
  refine .reading rfl fun scope => .looking rfl fun w w' hw _ => ?_
  simp only
  split
  · next hv => exact .value hw (L.lookup_known hw hv (.inl hr))
  · exact .raise hw rfl

/-- Parameters are bound in a scope of their own. -/
theorem bindArguments_tame {scope : ScopeId} (hp : ∀ name, L.Binds p scope name) :
    ∀ (params : List String) {args : List Value} {h : Heap}, (∀ v ∈ args, L.Known h v) →
      (bindArguments scope params args).Tame L p h
  | [], _, _, _ => .done ()
  | name :: params, [], _, ha =>
    .bind (Script.declare_obeys (hp name) L.known_null false)
      fun _ => bindArguments_tame hp params ha
  | name :: params, v :: args, _, ha => by
    obtain ⟨hv, ha⟩ := List.forall_mem_cons.mp ha
    exact .bind (Script.declare_obeys (hp name) hv false) fun _ => bindArguments_tame hp params ha

/-- A name is bound in the scope that is running. -/
theorem declareHere_tame {name : String} {v : Value} (hd : L.Declares p name) (hv : L.Known h v)
    (constant : Bool) :
    (do Script.declare (← Script.currentScope) name v constant : Script Unit).Tame L p h :=
  .looking rfl fun w w' hw hl => Script.declare_obeys (hd w w' hw) hv constant w w' hw hl

/-! ## Declarations -/

theorem closure_obeys {decl : FunctionDecl} (hd : L.function decl) :
    (closure decl).Lawful L p h fun h' id => L.There h' (.function id) :=
  .alter (g := fun w => w.heap.addFunction ⟨decl, w.frame.scope⟩) rfl fun _ _ hw _ =>
    ⟨.function hd (L.scope_there hw), L.there_function _ _⟩

theorem methodTable_obeys {methods : List FunctionDecl} (hm : ∀ decl ∈ methods, L.function decl) :
    (methodTable methods).Lawful L p h fun h' table => ∀ m ∈ table, L.There h' (.function m.2) := by
  refine .andThen (.collect (Q := fun h' m => L.There h' (.function m.2)) (fun hl =>
    L.there_later hl) methods ?_) ?_
  · intro decl hdecl
    exact .andThen (closure_obeys (hm decl hdecl)) fun _ id _ hid =>
      .value fun _ hl => L.there_later hl hid
  · intro h' table _ htable
    exact .value fun _ hl m hmem => L.there_later hl (htable m (List.mem_reverse.mp hmem))

/-- What a class extends is looked up at its mention. -/
theorem superclassOf_obeys (name : String) {mention : Option (String × Span)}
    (hs : ∀ m ∈ mention, L.Places m.2) : (superclassOf name mention).Lawful L p h
      fun h' found => ∀ super ∈ found.1, L.Known h' (.scriptClass super) := by
  cases mention with
  | none => exact .value fun _ _ => nofun
  | some mention =>
    have hplaces := hs mention rfl
    refine .mapError (.reading rfl fun scope => .andThen (Script.get_obeys scope mention.1)
      fun h' v _ hv => ?_)
      (fun _ => hplaces.fits) fun _ => hplaces.carries
    cases v with
    | scriptClass id =>
      refine .value fun _ hl super hsuper => ?_
      cases hsuper
      exact L.known_later hl (hv (.inr nofun))
    | hostClass id => exact .value fun _ _ => nofun
    | _ => exact .raise rfl

/-- A class is added with functions and a superclass that are there, and then its name is bound. -/
theorem declareClass_tame {decl : ClassDecl} (hs : ∀ m ∈ decl.superclass, L.Places m.2)
    (hm : ∀ method ∈ decl.methods, L.function method)
    (hb : ∀ block ∈ decl.staticBlock, L.staticBlock block) (hd : L.Declares p decl.name) :
    (declareClass decl).Tame L p h := by
  refine .andThen (superclassOf_obeys _ hs) fun h₁ super _ hsuper => ?_
  refine .andThen (methodTable_obeys hm) fun h₂ table hl₂ htable => ?_
  have added : (newClass ⟨decl.name, table, super.1, super.2, decl.staticBlock, none⟩).Lawful L p h₂
      fun h' id => L.Known h' (.scriptClass id) := by
    refine .alter (g := fun w => w.heap.addClass ⟨decl.name, table, super.1, super.2,
      decl.staticBlock, none⟩) rfl
      fun w w' _ hl => ⟨.scriptClass hb (fun id hid => ?_) (fun m hmem => ?_) rfl,
        L.known_class _ _⟩
    · exact L.known_later (L.later_trans hl₂ hl) (hsuper id hid)
    · exact L.there_later hl (htable m hmem)
  exact .andThen added fun h₃ id _ hid => declareHere_tame hd hid false

/-- An import binds the last name of its path. -/
theorem importType_tame {path : List String}
    (hd : ∀ name, (∀ last ∈ path.getLast?, name = last) → L.Declares p name) :
    (importType path).Tame L p h := by
  refine .reading rfl fun found => ?_
  cases found with
  | none => exact .raise rfl
  | some cls =>
    refine .looking rfl fun w w' hw hl => ?_
    have hname := hd (path.getLast?.getD (w.heap.hostClass cls).name) fun last hlast => by
      rw [Option.mem_def.mp hlast]
      rfl
    exact declareHere_tame (v := .hostClass cls) hname (L.known_common trivial) false w w' hw hl

/-! ## Instances -/

theorem newInstance_obeys {id : ClassId} (hid : L.Known h (.scriptClass id)) {baked : Fields}
    (hb : L.Bakes h baked) :
    (newInstance ⟨some id, [], baked⟩).Lawful L p h fun h' object => L.There h' (.object object) :=
  .alter (g := fun w => w.heap.addObject ⟨some id, [], baked⟩) rfl fun _ _ _ hl =>
    ⟨.made (L.known_later hl hid) (L.bakes_later hl hb), L.there_object _ _⟩

/-- **A new instance** of a class that was made. -/
theorem newOf_knows {id : ClassId} (hid : L.Known h (.scriptClass id)) {baked : Fields}
    (hb : L.Bakes h baked) (args : List Value) : (newOf id baked args).Knows L p h := by
  refine .andThen (newInstance_obeys hid hb) fun h₁ object _ hobject => .reading rfl fun base => ?_
  cases base with
  | some base =>
    exact .bind (.cross (fun _ => rfl) (Host.extend_tame id base hobject args)) fun _ =>
      .common trivial
  | none => exact .common trivial

end Evaluation

end ScriptEngine
