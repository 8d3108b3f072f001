import ScriptEngine.Proofs.Crossing
import ScriptEngine.Proofs.Frames
import ScriptEngine.Proofs.HostWrites
import ScriptEngine.Proofs.Overriding
import ScriptEngine.Proofs.StaticBlocks
/-!
# Reads of the host and reads of a script

A script and the host read a property of a host object by the same rules and see the same data,
unless a getter of a script class answers the script. Where that one stands in for an overridable
getter of the host class, the host sees what it returned, fitted to the type that the host class
declares.

* `Host.AnsweredBy` : the script method that answers the read of a property.
* `Host.BakedInstance` : an instance as scripts make it.
* `Host.readHost_of_unanswered`, `Host.readHost_of_answeredBy` : the read of the host, where no
  script method answers that of a script, and where one does.
* **`Host.host_reads_as_script`** : the two reads.
* `Host.declared_type_shows` : a property that the host cannot read, though a script can.

The two reads are `get_property` and `read_host`. Out of scope are properties that only a getter of
the script class answers: the host asks for getters in the tables of host classes alone.
-/

namespace ScriptEngine

open Run

/-! ## Back from a script -/

namespace HostRun

variable {ε : Type} {d d' : HostData} {v : Value} {w w₁ w₂ : World}

/-- What fits anywhere is fitted to its own shape. -/
theorem natural_of_toHost_any (hd : toHost .any v w = .ok d w₁) : natural v w = .ok d w₁ := by
  obtain ⟨shape, w₂, hnatural, hd⟩ := ok_of_bind hd
  obtain ⟨fitted, w₃, hfitted, hd⟩ := ok_of_bind hd
  obtain ⟨hfits, rfl⟩ := Outcome.ok.inj hfitted
  obtain rfl : .ok shape = fitted := (Heap.coerce_any _ shape).symm.trans hfits
  cases hd
  exact hnatural

/-- Data that was read as a value and is converted back at once is the same data. -/
theorem same_toHost (ho : d.Ordered) (hv : (Run.fromHost d : Run ε Value) w = .ok v w₁)
    (hd : toHost .any v w₁ = .ok d' w₂) : d.Same d' := by
  have hnatural := natural_of_toHost_any hd
  cases hv
  unfold natural at hnatural
  simp only at hnatural
  split at hnatural
  · next hshape =>
    cases hnatural
    exact Heap.same_naturalWithin ho (.refl _) hshape
  · cases hnatural
  · cases hnatural

end HostRun

namespace Host

variable {again : Calls} {w w₁ w₂ : World} {h : Heap} {this : HostId} {name getter : String}
  {v : Value} {d : HostData} {f : FunctionId} {script : ClassId} {base : HostClassId}
  {m : HostMethod}

/-! ## What answers a script -/

/-- The script method `f` answers a script that reads the property, under the name `getter`: nothing
is baked in for the property, and no getter of a name that is tried before has any method. -/
structure AnsweredBy (h : Heap) (this : HostId) (name getter : String) (f : FunctionId) : Prop where
  unbaked : bakedProperty? h this name = none
  first : ∃ before after, getterNames name = before ++ getter :: after ∧ ∀ earlier ∈ before,
    scriptMethod? h this earlier = none ∧ h.methodsNamed (h.classOf this) earlier 0 false = []
  method : scriptMethod? h this getter = some f

theorem exists_answeredBy (hbaked : bakedProperty? h this name = none)
    (hgetter : getterOf? h this name = some (.script f)) :
    ∃ getter, AnsweredBy h this name getter f := by
  obtain ⟨before, getter, after, hsplit, hf, hbefore⟩ := List.findSome?_eq_some_iff.mp hgetter
  refine ⟨getter, hbaked, ⟨before, after, hsplit, fun earlier hearlier => ?_⟩, ?_⟩
  · have hnone := hbefore earlier hearlier
    cases hmethod : scriptMethod? h this earlier with
    | some g => rw [hmethod] at hnone; cases hnone
    | none =>
      rw [hmethod] at hnone
      exact ⟨rfl, List.head?_eq_none_iff.mp (Option.map_eq_none_iff.mp hnone)⟩
  · cases hmethod : scriptMethod? h this getter with
    | some g => rw [hmethod] at hf; cases hf; rfl
    | none =>
      rw [hmethod] at hf
      obtain ⟨m, -, hm⟩ := Option.map_eq_some_iff.mp hf
      cases hm

theorem AnsweredBy.getterOf?_eq (ha : AnsweredBy h this name getter f) :
    getterOf? h this name = some (.script f) := by
  obtain ⟨before, after, hsplit, hbefore⟩ := ha.first
  refine List.findSome?_eq_some_iff.mpr ⟨before, getter, after, hsplit, ?_, fun earlier hearlier =>
    ?_⟩
  · rw [ha.method]
  · obtain ⟨hmethod, hms⟩ := hbefore earlier hearlier
    rw [hmethod, hms]
    rfl

/-- The host looks for getters of the same name first. -/
theorem AnsweredBy.head?_getters (ha : AnsweredBy h this name getter f) {ms : List HostMethod}
    (hms : h.methodsNamed (h.classOf this) getter 0 false = m :: ms) :
    (getters h (h.classOf this) name).head? = some m := by
  obtain ⟨before, after, hsplit, hbefore⟩ := ha.first
  have hnone : before.flatMap (fun earlier => h.methodsNamed (h.classOf this) earlier 0 false) =
      [] :=
    List.flatMap_eq_nil_iff.mpr fun earlier hearlier => (hbefore earlier hearlier).2
  rw [getters, hsplit, List.flatMap_append, hnone, List.flatMap_cons, hms]
  rfl

/-! ## Reads that no script method answers -/

theorem memberOf_of_field
    (hfield : ((scriptObject? h this).bind fun o => (h.object o).fields.get? name) = some v) :
    memberOf h this name = v := by
  unfold memberOf
  simp only [Option.bind_eq_bind, hfield]

/-- What is not a field of the script object is a method, which cannot be converted, or nothing. -/
theorem memberOf_of_converts
    (hfield : ((scriptObject? h this).bind fun o => (h.object o).fields.get? name) = none)
    (hd : HostRun.toHost .any (memberOf h this name) w = .ok d w₁) :
    memberOf h this name = .null := by
  unfold memberOf at hd ⊢
  simp only [Option.bind_eq_bind, hfield] at hd ⊢
  split at hd
  · cases hd
  · split at hd
    · cases hd
    · simp_all only [Bool.false_eq_true, if_false]

/-- A property that no getter answers is the same field for both. One that is a method for a script
cannot be converted. -/
theorem hostField_of_scriptField (hread : scriptField w this name = .ok v w₁)
    (hd : HostRun.toHost .any v w₁ = .ok d w₂) :
    ∃ d' w', hostField w this name = .ok d' w' ∧ (d'.Ordered → d'.Same d) := by
  unfold scriptField at hread
  unfold hostField
  cases hslot : fieldSlot? w.heap (w.heap.classOf this) name with
  | some slot =>
    rw [hslot] at hread
    obtain ⟨d', w', hfield, hv⟩ := ok_of_bind (ok_of_mapError hread)
    exact ⟨d', w', hfield, fun ho => HostRun.same_toHost ho hv hd⟩
  | none =>
    rw [hslot] at hread
    cases hread
    cases hfield : (scriptObject? w.heap this).bind fun o => (w.heap.object o).fields.get? name with
    | some u =>
      rw [memberOf_of_field hfield] at hd
      exact ⟨d, w₂, hd, fun _ => .refl d⟩
    | none =>
      rw [memberOf_of_converts hfield hd] at hd
      cases hd
      exact ⟨.null, w, rfl, fun _ => .refl _⟩

/-- **Where no script method answers a read**, the host reads the same data. -/
theorem readHost_of_unanswered (hun : ∀ getter f, ¬AnsweredBy w.heap this name getter f)
    (hread : getProperty again this name w = .ok v w₁)
    (hd : HostRun.toHost .any v w₁ = .ok d w₂) :
    ∃ d' w', readHost again this name w = .ok d' w' ∧ (d'.Ordered → d'.Same d) := by
  rw [getProperty_eq] at hread
  rw [readHost_eq]
  cases hbaked : bakedProperty? w.heap this name with
  | some u =>
    rw [hbaked] at hread
    cases hread
    exact ⟨d, w₂, hd, fun _ => .refl d⟩
  | none =>
    rw [hbaked] at hread
    obtain ⟨hfirst, hnone⟩ := @getters_of_getterOf? this name w.heap
    cases hgetter : getterOf? w.heap this name with
    | some answer =>
      cases answer with
      | script f =>
        obtain ⟨getter, ha⟩ := exists_answeredBy hbaked hgetter
        exact absurd ha (hun getter f)
      | host m =>
        rw [hgetter] at hread
        obtain ⟨d', w', hinvoke, hv⟩ := ok_of_bind (ok_of_mapError hread)
        simp only [hfirst m hgetter]
        exact ⟨d', w', hinvoke, fun ho => HostRun.same_toHost ho hv hd⟩
    | none =>
      rw [hgetter] at hread
      simp only [hnone hgetter, List.head?_nil]
      exact hostField_of_scriptField hread hd

/-! ## Reads that a script method answers -/

/-- An instance of a script class that extends a host class, as scripts make it: what is baked into
it are the values that a static block has left, under the names of their getters. -/
structure BakedInstance (h : Heap) (this : HostId) (script : ClassId) (base : HostClassId) :
    Prop extends IsInstance h this script base where
  layered : h.Layered
  baked : ∀ object, scriptObject? h this = some object →
    ∃ bindings, (h.object object).baked = Evaluation.bakedFrom bindings

theorem accessorName_is_ne (name other : String) :
    accessorName "is" name ≠ accessorName "get" other := by
  intro h
  have hletters := congrArg String.toList h
  simp [accessorName] at hletters

/-- Values are not baked in under names such as `isEmpty`. -/
theorem BakedInstance.baked?_is (hi : BakedInstance h this script base) (name : String) :
    baked? h this (accessorName "is" name) = none := by
  unfold baked?
  cases hobject : scriptObject? h this with
  | none => rfl
  | some object =>
    obtain ⟨bindings, hbaked⟩ := hi.baked object hobject
    simp only [Option.bind_eq_bind, Option.bind_some, hbaked]
    rw [Evaluation.bakedFrom, Fields.get?_ofPairs, List.lookup_eq_none_iff]
    intro pair hpair
    obtain ⟨binding, -, rfl⟩ := List.mem_map.mp (List.mem_reverse.mp hpair)
    exact bne_iff_ne.mpr (accessorName_is_ne name binding.1)

/-- What a script makes of a class that extends a host class is such an instance. -/
theorem bakedInstance_newOf {w' : World} {bindings : List (String × Value)} {args : List Value}
    (hl : w.heap.Linked) (hbase : w.heap.hostBase? script = some base)
    (hstatic : (w.heap.scriptClass? script).bind (·.staticBlock) = none → bindings = [])
    (hv : Evaluation.newOf script (Evaluation.bakedFrom bindings) args w = .ok v w') :
    ∃ this, v = .host this ∧ BakedInstance w'.heap this script base := by
  have hnone : (w.heap.scriptClass? script).bind (·.staticBlock) = none →
      Evaluation.bakedFrom bindings = [] := fun h => by rw [hstatic h]; rfl
  obtain ⟨this, rfl, hi, hl'⟩ := Evaluation.isInstance_newOf hl hbase hnone hv
  obtain ⟨object, hobject, hbakes⟩ := Evaluation.newOf_bakes hv
  refine ⟨this, rfl, hi, hl'.layered, fun object' hobject' => ⟨bindings, ?_⟩⟩
  cases (show scriptObject? w'.heap this = some object from hobject).symm.trans hobject'
  exact hbakes.baked_eq

/-- The functions in a heap have no part in what is an instance. -/
theorem BakedInstance.withFunctions (hi : BakedInstance h this script base) (hl : h.Linked)
    (hbase : h.hostBase? script = some base) (functions : Array Function) :
    BakedInstance { h with functions } this script base where
  toIsInstance := hi.toIsInstance.of_keeps hl
    ⟨fun _ hcls => hcls, fun _ _ => rfl, fun _ c hc => ⟨c.extension, hc⟩⟩ hbase rfl
    fun _ _ => ⟨rfl, rfl⟩
  layered := hl.layered
  baked := hi.baked

theorem AnsweredBy.baked?_eq (ha : AnsweredBy h this name getter f)
    (hi : BakedInstance h this script base) : baked? h this getter = none := by
  obtain ⟨before, after, hsplit, -⟩ := ha.first
  have hmem : getter ∈ getterNames name := hsplit ▸ List.mem_append_cons_self
  obtain rfl | hmem := List.mem_cons.mp hmem
  · exact ha.unbaked
  · obtain rfl := List.mem_singleton.mp hmem
    exact hi.baked?_is name

/-- **Where a script method answers a read** and stands in for an overridable getter, the host reads
what the method returns, fitted to the type of that getter. -/
theorem readHost_of_answeredBy (hr : again.Regular) (hi : BakedInstance w.heap this script base)
    (ha : AnsweredBy w.heap this name getter f)
    (hm : w.heap.mostDerived? base getter 0 = some m)
    (hread : getProperty again this name w = .ok v w₁) :
    readHost again this name w =
      if m.returns = .void then .ok .null w₁ else HostRun.toHost m.returns v w₁ := by
  have hname := name_of_mostDerived? hm
  have hmethod : w.heap.methodOf? script m.name = some f := by
    rw [hname, ← hi.scriptMethod?_eq]
    exact ha.method
  have hms : w.heap.methodsNamed (w.heap.classOf this) getter 0 false =
      slotOf w.heap script m :: w.heap.methodsNamed base getter 0 false := by
    rw [hi.methodsNamed_eq hi.layered, hm]
    rfl
  rw [getProperty_eq, ha.unbaked, ha.getterOf?_eq] at hread
  rw [readHost_eq, ha.unbaked, ha.head?_getters hms]
  refine (invokeMethod_slotOf_some hi.toIsInstance (hname ▸ ha.baked?_eq hi) hmethod).trans ?_
  have hcall : HostRun.ofScript (Evaluation.callFromHost again f (.host this) []) w = .ok v w₁ := by
    rw [Evaluation.callFromHost_eq hr]
    exact mapError_of_ok hread
  exact answerBy_of_returned rfl hcall

/-! ## The two reads -/

/-- **The host reads what a script reads**, where a script reads something that can be converted. If
no method of the script class answers the script, the host reads the same data, up to the kinds of
numbers: its own data where a host getter or a host field answers, which a script sees converted. If
a method of the script class answers, and stands in for an overridable getter of the host class, the
host reads what the method returned, fitted to the type of that getter. -/
theorem host_reads_as_script {n : Nat}
    (hread : getProperty (Evaluation.machine n) this name w = .ok v w₁)
    (hd : HostRun.toHost .any v w₁ = .ok d w₁) :
    ((∀ getter f, ¬AnsweredBy w.heap this name getter f) →
      ∃ d' w', readHost (Evaluation.machine n) this name w = .ok d' w' ∧
        (d'.Ordered → d'.Same d ∧ ∀ same, d'.equal same d' = true → d'.equal same d = true)) ∧
    (∀ getter f script base m, AnsweredBy w.heap this name getter f →
      BakedInstance w.heap this script base → w.heap.mostDerived? base getter 0 = some m →
      (m.returns = .any → readHost (Evaluation.machine n) this name w = .ok d w₁) ∧
      (m.returns = .void → readHost (Evaluation.machine n) this name w = .ok .null w₁) ∧
      (m.returns ≠ .void →
        readHost (Evaluation.machine n) this name w = HostRun.toHost m.returns v w₁)) := by
  constructor
  · intro hun
    obtain ⟨d', w', hhost, hsame⟩ := readHost_of_unanswered hun hread hd
    exact ⟨d', w', hhost, fun ho => ⟨hsame ho, fun same hself => (hsame ho).equal hself⟩⟩
  · intro getter f script base m ha hi hm
    have hhost := readHost_of_answeredBy (Evaluation.machine_regular n) hi ha hm hread
    refine ⟨fun hany => ?_, fun hvoid => ?_, fun hvoid => ?_⟩
    · rw [hhost, hany, if_neg nofun, hd]
    · rw [hhost, if_pos hvoid]
    · rw [hhost, if_neg hvoid]

/-- A `Sketch` whose class answers `getSize` itself, with `true`, and a `Canvas` that has an
overridable getter of that name. -/
def sketchOfSize (returns : HostType) : World :=
  let w := sketched [⟨"getSize", [], returns, .virtual, .constant (.int 7)⟩] [("getSize", ⟨0⟩)]
  let body := [.ret (some (.bool true default)) default]
  { w with heap := { w.heap with
    functions := #[⟨.mk (some "getSize") [] body default, globalScope⟩] } }

theorem sketchOfSize_bakedInstance (returns : HostType) :
    BakedInstance (sketchOfSize returns).heap ⟨1⟩ ⟨0⟩ ⟨1⟩ := by
  obtain ⟨hl, hi⟩ := sketched_isInstance [⟨"getSize", [], returns, .virtual, .constant (.int 7)⟩]
    [("getSize", ⟨0⟩)]
  refine BakedInstance.withFunctions ⟨hi, hl.layered, fun object hobject => ⟨[], ?_⟩⟩ hl rfl _
  cases hobject
  rfl

theorem sketchOfSize_answeredBy (returns : HostType) :
    AnsweredBy (sketchOfSize returns).heap ⟨1⟩ "size" "getSize" ⟨0⟩ :=
  ⟨rfl, ⟨[], ["isSize"], by decide, List.forall_mem_nil _⟩, rfl⟩

/-- The host reads the size of the canvas as the integer that a script reads as a number, and the
size of the sketch as what the script method answers, where the getter may return anything. -/
theorem sizes_reach_host : (∃ d' w',
      readHost (Evaluation.machine 4) ⟨0⟩ "size" (sketchOfSize .any) = .ok d' w' ∧
      (d'.Ordered → d'.Same (.int 7))) ∧
    ∃ w₁, getProperty (Evaluation.machine 4) ⟨1⟩ "size" (sketchOfSize .any) = .ok (.bool true) w₁ ∧
      readHost (Evaluation.machine 4) ⟨1⟩ "size" (sketchOfSize .any) = .ok (.bool true) w₁ := by
  constructor
  · have hread : getProperty (Evaluation.machine 4) ⟨0⟩ "size" (sketchOfSize .any) =
      .ok (.number (Float.ofInt 7)) (sketchOfSize .any) := rfl
    have hd : HostRun.toHost .any (.number (Float.ofInt 7)) (sketchOfSize .any) =
      .ok (.int 7) (sketchOfSize .any) := rfl
    have hun (getter : String) (f : FunctionId) :
        ¬AnsweredBy (sketchOfSize .any).heap ⟨0⟩ "size" getter f := fun ha => by
      cases (scriptMethod?_plain (h := (sketchOfSize .any).heap) rfl getter).symm.trans ha.method
    obtain ⟨d', w', hhost, hsame⟩ := (host_reads_as_script (n := 4) hread hd).1 hun
    exact ⟨d', w', hhost, fun ho => (hsame ho).1⟩
  · obtain ⟨w₁, hread⟩ : ∃ w₁, getProperty (Evaluation.machine 4) ⟨1⟩ "size" (sketchOfSize .any) =
      .ok (.bool true) w₁ := ⟨_, rfl⟩
    obtain ⟨-, hanswered⟩ := host_reads_as_script (n := 4) hread rfl
    have hsize := hanswered _ _ _ _ _ (sketchOfSize_answeredBy .any)
      (sketchOfSize_bakedInstance .any)
      rfl
    exact ⟨w₁, hread, hsize.1 rfl⟩

/-- **The declared type shows.** A script reads `true` from a method that stands in for a getter
which is declared to return an integer, and the host reads nothing: the method has no effects, and
what it returns can be converted. -/
theorem declared_type_shows : ¬ ∀ (n : Nat) (this : HostId) (name : String) (w w₁ : World)
    (v : Value) (d : HostData),
    (∃ script base, BakedInstance w.heap this script base) →
    getProperty (Evaluation.machine n) this name w = .ok v w₁ →
    (∃ more, w₁ = { w with heap := { w.heap with scopes := w.heap.scopes ++ more } }) →
    v.isCallable = false →
    HostRun.toHost .any v w₁ = .ok d w₁ →
    ∃ d' w', readHost (Evaluation.machine n) this name w = .ok d' w' ∧
      d'.equal w₁.heap.hostEqual d = true := by
  intro hall
  obtain ⟨w₁, hread⟩ : ∃ w₁, getProperty (Evaluation.machine 4) ⟨1⟩ "size" (sketchOfSize .int) =
    .ok (.bool true) w₁ := ⟨_, rfl⟩
  have hscopes : ∃ more, w₁ = { sketchOfSize .int with heap := { (sketchOfSize .int).heap with
      scopes := (sketchOfSize .int).heap.scopes ++ more } } := by
    cases hread
    exact ⟨#[⟨some globalScope, [("this", ⟨.host ⟨1⟩, false⟩)]⟩], rfl⟩
  obtain ⟨d', w', hhost, -⟩ := hall 4 ⟨1⟩ "size" _ w₁ _ (.bool true)
    ⟨_, _, sketchOfSize_bakedInstance .int⟩ hread hscopes rfl rfl
  have hrefused := readHost_of_answeredBy (Evaluation.machine_regular 4)
    (sketchOfSize_bakedInstance .int) (sketchOfSize_answeredBy .int) rfl hread
  cases hrefused.symm.trans hhost

end Host

end ScriptEngine
