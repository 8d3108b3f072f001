import ScriptEngine.Proofs.Walk.Functions
/-!
# The bridge to the host under a law

Reading, writing and calling members of host objects obeys a law if the script functions and the
host methods do that may be started: those of the classes that the law knows, and all script
functions, inside of a call from a script or from the host.

* `Calls.Serves` : what has to be known of functions and host methods.
* `Host.invokeScript_tame`, `Host.runBody_tame` : what a method of the host does (`slot`).
* `Host.callVirtual_tame`, `Host.readHost_tame` : the bridge as the host uses it.
* `Host.getProperty_knows`, `Host.setProperty_tame`, `Host.callHostMethod_knows` : the bridge as a
  script uses it (`get_property`, `set_property`, `call_method`).
-/

namespace ScriptEngine

open Run

variable {L : Law} {p : L.Place} {h : Heap} {again : Calls} {again' : L.Case → Calls}

/-- Script functions and the methods of host classes obey the law at the place. -/
structure Calls.Serves (L : Law) (p : L.Place) (again : Calls) (again' : L.Case → Calls) :
    Prop where
  function : ∀ {h} id {this} {args : List Value}, (∀ v ∈ this, L.Known h v) →
    (∀ v ∈ args, L.Known h v) →
    (Evaluation.callFunction again id this args).Obeys L p h L.Known
      fun i => Evaluation.callFunction (again' i) id this args
  method : ∀ {h k}, L.hostClass k → ∀ m ∈ k.methods, ∀ this args,
    (Host.runBody again this args m.body).Obeys L p h (fun _ _ => True)
      fun i => Host.runBody (again' i) this args m.body
  /-- A function may be called by the host too, which calls it from the top. -/
  fromHost : ∀ {h} id {this} {args : List Value}, (∀ v ∈ this, L.Known h v) →
    (∀ v ∈ args, L.Known h v) →
    (Evaluation.callFunction again id this args).Obeys L (L.enter (.top globalScope) p) h L.Known
      fun i => Evaluation.callFunction (again' i) id this args

namespace HostRun

variable {α : Type} {Q : Heap → α → Prop}

/-- A script sees the fault that the host ended with. -/
theorem toScript_obeys {r : HostRun α} {r' : L.Case → HostRun α} (hr : r.Obeys L p h Q r') :
    (toScript r).Obeys L p h Q fun i => toScript (r' i) :=
  .cross (fun _ => rfl) hr

/-- The host holds the fault that a script ended with. -/
theorem ofScript_obeys {r : Script α} {r' : L.Case → Script α} (hr : r.Obeys L p h Q r') :
    (ofScript r).Obeys L p h Q fun i => ofScript (r' i) :=
  .cross (fun _ => rfl) hr

end HostRun

namespace Host

open HostRun

/-- A host object is passed on as the receiver. -/
theorem known_receiver (this : HostId) : ∀ v ∈ some (Value.host this), L.Known h v := by
  rintro _ ⟨⟩
  exact L.known_common trivial

/-- Where there are no arguments, a value that is baked in may answer. -/
theorem answer_obeys {ε α β : Type} [Faulty ε] {Q : Heap → α → Prop} (this : HostId) (name : String)
    {args : List β} {rest : Option Value → Run ε α} {rest' : L.Case → Option Value → Run ε α}
    (hrest : ∀ h' answer, L.Later h h' → (∀ v ∈ answer, L.Known h' v) →
      (rest answer).Obeys L p h' Q fun i => rest' i answer) :
    (if args.isEmpty then Run.read (fun w => baked? w.heap this name) >>= rest else
      pure none >>= rest).Obeys L p h Q
      fun i =>
        if args.isEmpty then Run.read (fun w => baked? w.heap this name) >>= rest' i else
          pure none >>= rest' i := by
  cases args with
  | nil => exact .andThen (baked_obeys this name) hrest
  | cons => exact .andThen (.value fun _ _ => nofun) hrest

/-! ## Methods that are found -/

/-- A method that is found stands in a table of the heap. -/
theorem exists_table_of_mem_allMethods {P : HostClass → Prop} {h : Heap}
    (hk : ∀ k ∈ h.hostClasses, P k) {cls : HostClassId} {m : HostMethod}
    (hm : m ∈ h.allMethods cls) : ∃ k, P k ∧ m ∈ k.methods := by
  obtain ⟨id, -, hid⟩ := List.mem_flatMap.mp hm
  refine ⟨h.hostClass id, ?_, hid⟩
  by_cases hlt : id.index < h.hostClasses.size
  · have hget : h.hostClass id = h.hostClasses[id.index] := by
      simp [Heap.hostClass, Array.getD, hlt]
    rw [hget]
    exact hk _ (Array.getElem_mem hlt)
  · simp [Heap.hostClass, Array.getD, hlt] at hid

/-- The method stands in the table of a class that the law knows. -/
abbrev Tabled (L : Law) (m : HostMethod) : Prop := ∃ k, L.hostClass k ∧ m ∈ k.methods

theorem tabled_of_mem {w : World} {w' : L.Case → World} (hw : L.Holds p w w') {cls : HostClassId}
    {m : HostMethod} (hm : m ∈ w.heap.allMethods cls) : Tabled L m :=
  exists_table_of_mem_allMethods (L.hostClass_at hw) hm

section Found

variable {ε : Type} [Faulty ε]

theorem methodsNamed_obeys (cls : HostClassId) (name : String) (arity : Nat) (static : Bool) :
    (Run.read (fun w => w.heap.methodsNamed cls name arity static) : Run ε (List HostMethod)).Lawful
      L p h
      fun _ ms => ∀ m ∈ ms, Tabled L m :=
  .look rfl fun _ _ hw _ _ hm => tabled_of_mem hw (List.mem_filter.mp hm).1

theorem getterOf_obeys (this : HostId) (name : String) :
    (Run.read (fun w => getterOf? w.heap this name) : Run ε (Option Getter)).Lawful L p h
      fun _ g => ∀ m, g = some (.host m) → Tabled L m := by
  refine .look rfl fun w w' hw _ m hm => ?_
  obtain ⟨getter, -, hg⟩ := List.exists_of_findSome?_eq_some hm
  split at hg
  · cases hg
  · obtain ⟨m', hm', hmm⟩ := Option.map_eq_some_iff.mp hg
    cases hmm
    exact tabled_of_mem hw (List.mem_filter.mp (List.mem_of_head? hm')).1

theorem getter_obeys (cls : HostClassId) (name : String) :
    (Run.read (fun w => getter? w.heap cls name) : Run ε (Option HostMethod)).Lawful L p h
      fun _ o => ∀ m ∈ o, Tabled L m := by
  refine .look rfl fun w w' hw _ m hm => ?_
  obtain ⟨getter, -, hg⟩ := List.exists_of_findSome?_eq_some hm
  exact tabled_of_mem hw (List.mem_filter.mp (List.mem_of_head? hg)).1

/-- The overload that the host calls is one of the candidates. -/
theorem mem_of_firstHostFit {h : Heap} {args fitted : List HostData} {m : HostMethod} :
    ∀ {ms : List HostMethod},
    firstHostFit h args ms = some (m, fitted) → m ∈ ms
  | [], hfit => by cases hfit
  | m' :: ms, hfit => by
    unfold firstHostFit at hfit
    split at hfit
    · cases hfit
      exact List.mem_cons_self
    · exact List.mem_cons_of_mem m' (mem_of_firstHostFit hfit)

theorem firstHostFit_obeys (args : List HostData) (ms : List HostMethod) :
    (Run.read (fun w => firstHostFit w.heap args ms) :
      Run ε (Option (HostMethod × List HostData))).Lawful L p h
      fun _ o => ∀ found ∈ o, found.1 ∈ ms :=
  .look rfl fun _ _ _ _ _ hfound => mem_of_firstHostFit hfound

end Found

/-! ## Bodies -/

theorem byteCount_tame (this : Option HostId) (args : List HostData) :
    (runBody again this args .byteCount).Obeys L p h (fun _ _ => True)
      fun i => runBody (again' i) this args .byteCount := by
  cases this with
  | none => exact .raise rfl
  | some this => exact .bind (bytesOf_tame _) fun _ => .done _

theorem byteAt_tame (this : Option HostId) (args : List HostData) :
    (runBody again this args .byteAt).Obeys L p h (fun _ _ => True)
      fun i => runBody (again' i) this args .byteAt := by
  have fresh {data : ByteArray} {index : Int} {e : HostError} (he : byteAt data index = .error e) :
      (Faulty.fault e).span = none := by
    simp only [byteAt] at he
    split at he
    · split at he
      · cases he
      · injection he with he
        rw [← he]
        rfl
    · injection he with he
      rw [← he]
      rfl
  cases this with
  | none => exact .raise rfl
  | some this =>
    refine .bind (bytesOf_tame _) fun data => ?_
    split
    · exact .done _
    · next he => exact .raise (fresh he)

section Bodies

variable (hf : ∀ {h} id {this} {args : List Value}, (∀ v ∈ this, L.Known h v) →
    (∀ v ∈ args, L.Known h v) →
    (Evaluation.callFunction again id this args).Obeys L (L.enter (.top globalScope) p) h L.Known
      fun i => Evaluation.callFunction (again' i) id this args)
include hf

/-- The class of the receiver answers with the value of one of its functions. -/
theorem invokeScript_tame (this : HostId) (name : String) (args : List HostData)
    (returns : HostType) :
    (invokeScript again this name args returns).Obeys L p h (fun _ _ => True)
      fun i => invokeScript (again' i) this name args returns := by
  refine .reading rfl fun method => ?_
  cases method with
  | none => exact .reading rfl fun _ => .raise rfl
  | some method =>
    refine .andThen (.collect (Q := L.Known) (fun hl => L.known_later hl) args fun d _ =>
      fromHost_knows d)
      fun h' values _ hvalues => ?_
    refine .bind (ofScript_obeys (.atTop (hf method (known_receiver this) hvalues))).tame
      fun result => ?_
    split
    · exact .done _
    · exact toHost_tame _ _

theorem overrideOr_tame (this : HostId) (name : String) (args : List HostData) (returns : HostType)
    (overridden : Bool) {super : HostRun HostData} {super' : L.Case → HostRun HostData}
    (hsuper : super.Obeys L p h (fun _ _ => True) super') :
    (overrideOr again this name args returns overridden super).Obeys L p h (fun _ _ => True)
      fun i => overrideOr (again' i) this name args returns overridden (super' i) := by
  refine .reading rfl fun extended => ?_
  split
  · exact invokeScript_tame hf _ _ _ _
  · exact hsuper

/-- **Host methods** obey the law if functions do, and what they start again. -/
theorem runBody_tame
    (hcall : ∀ {h} this name args, (again.callVirtual this name args).Obeys L p h (fun _ _ => True)
      fun i => (again' i).callVirtual this name args)
    (hread : ∀ {h} this name, (again.readHost this name).Obeys L p h (fun _ _ => True)
      fun i => (again' i).readHost this name)
    (this : Option HostId) (args : List HostData) (body : HostBody) :
    (runBody again this args body).Obeys L p h (fun _ _ => True) fun i =>
      runBody (again' i) this args body := by
  induction body with
  | constant | argument | classHandle => exact .done _
  | fail => exact .raise rfl
  | describe => exact .read rfl
  | create cls => exact .bind (newObject_tame nofun) fun _ => .done _
  | readArgument name =>
    unfold runBody
    split
    · exact hread _ _
    · exact .done _
  | slot name returns overridden super ih =>
    cases this with
    | none => exact .raise rfl
    | some this =>
      refine answer_obeys this name fun h' answer hl _ => ?_
      cases answer with
      | some v => exact toHost_tame _ _
      | none => exact overrideOr_tame hf _ _ _ _ _ (ih.later hl)
  | readSlot slot =>
    cases this with
    | none => exact .raise rfl
    | some this => exact .read rfl
  | writeSlot slot =>
    cases this with
    | none => exact .raise rfl
    | some this => exact .bind (writeSlot_tame _ _ _) fun _ => .done _
  | receiver =>
    cases this with
    | none => exact .raise rfl
    | some this => exact .done _
  | callEach names =>
    cases this with
    | none => exact .raise rfl
    | some this =>
      refine .bind (Obeys.collect (Q := fun _ _ => True) (fun _ _ => trivial) names ?_).tame
        fun _ => .read rfl
      exact fun name _ => hcall this name args
  | readProperty name =>
    cases this with
    | none => exact .raise rfl
    | some this => exact hread _ _
  | byteCount => exact byteCount_tame this args
  | byteAt => exact byteAt_tame this args

end Bodies

section Served

variable (hs : Calls.Serves L p again again')
include hs

theorem invokeMethod_tame {m : HostMethod} (hm : Tabled L m) (this : Option HostId)
    (args : List HostData) :
    (invokeMethod again m this args).Obeys L p h (fun _ _ => True)
      fun i => invokeMethod (again' i) m this args := by
  obtain ⟨k, hk, hmem⟩ := hm
  exact .bind (hs.method hk m hmem this args) fun _ => .done _

theorem invokeFirst_knows (cls : HostClassId) (name : String) {candidates : List HostMethod}
    (hc : ∀ m ∈ candidates, Tabled L m) (this : Option HostId) (args : List Value) :
    (invokeFirst again cls name candidates this args).Obeys L p h L.Known
      fun i => invokeFirst (again' i) cls name candidates this args := by
  unfold invokeFirst
  split
  · exact .reading rfl fun _ => .raise rfl
  · refine .andThen (firstFit_obeys _ _ _) fun h' found _ hfound => ?_
    cases found with
    | some found =>
      exact .bind (invokeMethod_tame hs (hc _ (hfound _ rfl)) _ _) fun _ => fromHost_knows _
    | none => exact .raise rfl

/-! ## As the host does -/

/-- **A call of the host**: a baked value, a method of the host, or one of the script. -/
theorem callVirtual_tame (this : HostId) (name : String) (args : List HostData) :
    (callVirtual again this name args).Obeys L p h (fun _ _ => True)
      fun i => callVirtual (again' i) this name args := by
  refine answer_obeys this name fun h' answer _ _ => ?_
  cases answer with
  | some v => exact toHost_tame _ _
  | none =>
    refine .reading rfl fun cls => .andThen (methodsNamed_obeys _ _ _ _) fun h₁ candidates _ hc =>
      ?_
    refine .andThen (firstHostFit_obeys args candidates) fun h₂ found _ hfound => ?_
    match found, hfound with
    | some (m, fitted), hfound => exact invokeMethod_tame hs (hc m (hfound _ rfl)) _ _
    | none, _ =>
      refine .reading rfl fun method => ?_
      split
      · exact invokeScript_tame hs.fromHost _ _ _ _
      · split
        · exact .reading rfl fun _ => .raise rfl
        · exact .raise rfl

/-- **A read of the host**: a baked value, a getter, a slot, or a field of the script object. -/
theorem readHost_tame (this : HostId) (name : String) :
    (readHost again this name).Obeys L p h (fun _ _ => True)
    fun i => readHost (again' i) this name := by
  refine .reading rfl fun baked => ?_
  cases baked with
  | some v => exact toHost_tame _ _
  | none =>
    refine .reading rfl fun cls => .andThen (getter_obeys _ _) fun h₁ getter _ hgetter => ?_
    cases getter with
    | some m => exact invokeMethod_tame hs (hgetter m rfl) _ _
    | none =>
      refine .reading rfl fun slot => ?_
      cases slot with
      | some slot => exact .read rfl
      | none =>
        refine .reading rfl fun field => ?_
        cases field with
        | some v => exact toHost_tame _ _
        | none => exact .done _

/-! ## From a script -/

theorem getProperty_knows (this : HostId) (name : String) :
    (getProperty again this name).Obeys L p h L.Known
      fun i => getProperty (again' i) this name := by
  refine .andThen (baked_obeys this _) fun h₁ baked _ hbaked => ?_
  cases baked with
  | some v => exact .known (hbaked v rfl)
  | none =>
    refine .andThen (getterOf_obeys this name) fun h₂ getter _ hgetter => ?_
    match getter, hgetter with
    | some (.script f), _ => exact hs.function f (known_receiver this) nofun
    | some (.host m), hgetter =>
      exact toScript_obeys (.bind (invokeMethod_tame hs (hgetter m rfl) _ _) fun _ =>
        fromHost_knows _)
    | none, _ =>
      refine .reading rfl fun slot => ?_
      cases slot with
      | some slot => exact toScript_obeys (.reading rfl fun _ => fromHost_knows _)
      | none => exact memberOf_knows this name

/-- A field of the script object is set only after a look at what is baked into it, and until then
nothing is changed. -/
theorem setHostProperty_obeysAt {w : World} {w' : L.Case → World} (hw : L.Holds p w w')
    {this : HostId} {name : String} (hbaked : bakedProperty? w.heap this name = none) {v : Value}
    (hv : L.Known w.heap v) :
    (setHostProperty again this name v).ObeysAt L p (fun _ _ => True)
      (fun i => setHostProperty (again' i) this name v) w w' := by
  refine .looking rfl hw (.looking rfl hw ?_)
  have hc : ∀ m ∈ w.heap.methodsNamed (w.heap.classOf this) (accessorName "set" name) 1 false,
      Tabled L m :=
    fun m hm => tabled_of_mem hw (List.mem_filter.mp hm).1
  have fitted := toScript_obeys (firstFit_obeys (p := p) HostMethod.params [v]
    (w.heap.methodsNamed (w.heap.classOf this) (accessorName "set" name) 1 false)) w w' hw
      (L.later_refl w.heap)
  refine .andThen fitted fun found v₁ v₁' hrun hv₁ _ hfound => ?_
  obtain rfl := (firstFit_looks _ _ _).eq_of_ok (ok_of_mapError hrun)
  cases found with
  | some found =>
    exact Obeys.bind (toScript_obeys (invokeMethod_tame hs (hc _ (hfound _ rfl)) _ _))
      (fun _ => .done ()) _ _ hv₁ (L.later_refl _)
  | none =>
    refine .looking rfl hv₁ ?_
    simp only
    split
    · exact toScript_obeys (.bind (toHost_tame _ _) fun _ => writeSlot_tame _ _ _) _ _ hv₁
        (L.later_refl v₁.heap)
    · refine .looking rfl hv₁ ?_
      simp only
      split
      · next object hobject =>
        refine putField_obeysAt hv₁ ?_ hv
        rw [bakedProperty?, baked?, hobject] at hbaked
        rw [Evaluation.isBaked, Option.isSome_eq_false_iff, Option.isNone_iff_eq_none]
        exact hbaked
      · split
        · exact .raise hv₁ rfl
        · exact .raise hv₁ rfl

theorem setProperty_tame (this : HostId) (name : String) {v : Value} (hv : L.Known h v) :
    (setProperty again this name v).Obeys L p h (fun _ _ => True)
      fun i => setProperty (again' i) this name v := by
  refine .looking rfl fun w w' hw hl => ?_
  have hv := L.known_later hl hv
  simp only
  split
  · exact .raise hw rfl
  · next hbaked =>
    refine .looking rfl hw ?_
    simp only
    split
    · exact Obeys.bind (h := w.heap) (hs.function _ (known_receiver this)
        (List.forall_mem_singleton.mpr hv)).tame
        (fun _ => .done ()) w w' hw (L.later_refl _)
    · exact setHostProperty_obeysAt hs hw (Option.not_isSome_iff_eq_none.mp hbaked) hv

theorem callMethod_knows (this : HostId) (name : String) {args : List Value}
    (ha : ∀ v ∈ args, L.Known h v) :
    (callMethod again this name args).Obeys L p h L.Known
      fun i => callMethod (again' i) this name args := by
  refine answer_obeys this name fun h' answer hl hanswer => ?_
  cases answer with
  | some v => exact .known (hanswer v rfl)
  | none =>
    refine .reading rfl fun method => ?_
    cases method with
    | some g => exact hs.function g (known_receiver this) fun v hv => L.known_later hl (ha v hv)
    | none =>
      exact .reading rfl fun cls => .andThen (methodsNamed_obeys _ _ _ _) fun _ _ _ hc =>
        toScript_obeys (invokeFirst_knows hs _ _ hc _ _)

theorem callHostMethod_knows (target : HostTarget) (name : String) {args : List Value}
    (ha : ∀ v ∈ args, L.Known h v) :
    (callHostMethod again target name args).Obeys L p h L.Known
      fun i => callHostMethod (again' i) target name args := by
  cases target with
  | «instance» this => exact callMethod_knows hs this name ha
  | static cls =>
    exact .andThen (methodsNamed_obeys _ _ _ _) fun _ _ _ hc =>
      toScript_obeys (invokeFirst_knows hs _ _ hc _ _)

end Served

end Host

end ScriptEngine
