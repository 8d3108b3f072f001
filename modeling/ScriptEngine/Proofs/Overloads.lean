import ScriptEngine.Proofs.Candidates
/-!
# Overloads

Every way into a host class is one dispatch among its constructors or methods, behind what a script
class answers itself: constructions, calls, reads and writes of properties, from a script or from
the host.

* `Host.construct_dispatched`, `Host.extend_dispatched` : the constructors.
* `Host.invokeFirst_dispatched`, `Host.callVirtual_dispatched` : the methods.
* `Host.getProperty_dispatched`, `Host.readHost_dispatched`, `Host.setProperty_dispatched` :
  getters, setters and the fields that can be written.
* `Host.slotOf_hands_on` : what stands in for a method.
* **`Host.dispatch_runs_one_body`** : all of them together.

The ways in are `construct`, `construct_super`, `call_method`, `call_host_method`, `call_virtual`,
`get_property`, `set_property` and `read_host`, with `invoke_first` under them. What the body does
that is run is out of scope: it is named, with the arguments it is given.
-/

namespace ScriptEngine.Host

open Run

/-! ## The ways into a host class -/

variable {again : Calls} {w : World} {this : HostId} {name : String} {h : Heap} {cls : HostClassId}
  {value : Value}

theorem length_of_mem_constructorsOf {arity : Nat} {c : HostConstructor}
    (hc : c ∈ constructorsOf h cls arity) : c.params.length = arity :=
  beq_iff_eq.mp (List.mem_filter.mp hc).2

theorem length_of_mem_methodsNamed {arity : Nat} {static : Bool} {m : HostMethod}
    (hm : m ∈ h.methodsNamed cls name arity static) : m.params.length = arity := by
  have := (List.mem_filter.mp hm).2
  simp only [Bool.and_eq_true, beq_iff_eq] at this
  exact this.1.2

/-! ### Constructors -/

/-- The error of a construction that no constructor takes. -/
def unmade (h : Heap) (cls : HostClassId) (args : List Value) : HostError :=
  .noMatchingConstructor (h.hostClass cls).name (typeNames args)

theorem construct_dispatched (cls : HostClassId) (args : List Value) :
    Dispatched w (.script args) HostConstructor.params runConstructor
      (· = .error (unmade w.heap cls args) w) (constructorsOf w.heap cls args.length)
      (construct cls args w) := by
  refine .of_choice (firstFit_dispatched _ fun c => length_of_mem_constructorsOf) ?_ ?_ ?_
  · exact fun c fitted hchosen => (bind_of_ok rfl).trans (bind_of_ok hchosen)
  · exact fun hnone => (bind_of_ok rfl).trans (bind_of_ok hnone)
  · exact fun hstuck => (bind_of_ok rfl).trans (bind_of_stopped hstuck)

/-- Where no constructor takes the arguments, the one without parameters is dispatched to. -/
theorem constructBase_dispatched (cls : HostClassId) (args : List Value) :
    Dispatched w (.script args) HostConstructor.params runConstructor
      (Dispatched w (.script []) HostConstructor.params runConstructor
        (· = .error (unmade w.heap cls args) w) (constructorsOf w.heap cls 0))
      (constructorsOf w.heap cls args.length) (constructBase cls args w) := by
  refine .of_choice (firstFit_dispatched _ fun c => length_of_mem_constructorsOf) ?_ ?_ ?_
  · exact fun c fitted hchosen => (bind_of_ok rfl).trans (bind_of_ok hchosen)
  · intro hnone
    have hparams : ∀ c ∈ constructorsOf w.heap cls 0, c.params = [] := fun c hc =>
      List.length_eq_zero_iff.mp (length_of_mem_constructorsOf hc)
    generalize hhead : (constructorsOf w.heap cls 0).head? = head
    refine Dispatched.of_eq ?_ ((bind_of_ok rfl).trans ((bind_of_ok hnone).trans
      (bind_of_ok (read_of_eq hhead))))
    refine .of_head? rfl hparams (fun c hc => ?_) fun hnil => ?_
    · obtain rfl := hhead.symm.trans hc
      rfl
    · rw [hnil] at hhead
      subst hhead
      rfl
  · exact fun hstuck => (bind_of_ok rfl).trans (bind_of_stopped hstuck)

/-- Runs a constructor for an instance of a script class, and puts what it makes into it. -/
def runSuperConstructor (cls : HostClassId) (object : ObjectId) (c : HostConstructor)
    (fitted : List HostData) : HostRun HostId := do
  newObject (.extended cls (← runConstructor c fitted) object)

/-- The constructors of the extension of a script class are those of the host class it extends. -/
theorem constructorsOf_extension {script : ClassId} {base : HostClassId} {w' : World}
    (hl : w.heap.Linked) (hbase : w.heap.hostBase? script = some base)
    (hextension : extensionOf script base w = .ok cls w') :
    constructorsOf w'.heap cls = constructorsOf w.heap base := by
  obtain ⟨-, hk, -, htable⟩ := extensionOf_linked hl hbase hextension
  funext arity
  have hconstructors :
      (w'.heap.hostClass cls).constructors = (w.heap.hostClass base).constructors := by
    rw [htable, ← hk.hostClass base (hl.has_hostBase hbase)]
    rfl
  rw [constructorsOf, hconstructors]
  rfl

theorem extend_dispatched (script : ClassId) (base : HostClassId) (object : ObjectId)
    (args : List Value) : ∃ cls w', extensionOf script base w = .ok cls w' ∧
      Dispatched w' (.script args) HostConstructor.params (runSuperConstructor cls object)
        (Dispatched w' (.script []) HostConstructor.params (runSuperConstructor cls object)
          (· = .error (unmade w'.heap cls args) w') (constructorsOf w'.heap cls 0))
        (constructorsOf w'.heap cls args.length) (extend script base object args w) := by
  obtain ⟨cls, w', hextension⟩ : ∃ cls w', extensionOf script base w = .ok cls w' := ⟨_, _, rfl⟩
  refine ⟨cls, w', hextension, ?_⟩
  have hextend : extend script base object args w = (do
      newObject (.extended cls (← constructBase cls args) object) : HostRun HostId) w' :=
    bind_of_ok hextension
  rw [hextend]
  exact (constructBase_dispatched cls args).andThen _ fun _ hbase =>
    hbase.andThen _ fun _ herror => bind_of_error herror

/-! ### Calls of a script -/

/-- The error of a call of a script that no candidate takes. -/
def unmatched (h : Heap) (cls : HostClassId) (name : String) (candidates : List HostMethod)
    (args : List Value) : HostError :=
  if candidates.isEmpty then .methodNotFound (h.hostClass cls).name name args.length
  else .noMatchingOverload name (typeNames args)

/-- Runs a method for a script. -/
def runForScript (again : Calls) (this : Option HostId) (m : HostMethod) (fitted : List HostData) :
    Script Value :=
  HostRun.toScript do Run.fromHost (← invokeMethod again m this fitted)

theorem invokeFirst_dispatched {this : Option HostId} {args : List Value} {ms : List HostMethod}
    (hms : ∀ m ∈ ms, m.params.length = args.length) :
    Dispatched w (.script args) HostMethod.params (runForScript again this)
      (· = .error (unmatched w.heap cls name ms args).toFault w) ms
      (HostRun.toScript (invokeFirst again cls name ms this args) w) := by
  have hinvoke : Dispatched w (.script args) HostMethod.params
      (fun m fitted => do Run.fromHost (← invokeMethod again m this fitted))
      (· = .error (unmatched w.heap cls name ms args) w) ms
      (invokeFirst again cls name ms this args w) := by
    unfold invokeFirst
    cases ms with
    | nil => exact .refused (List.forall_mem_nil _) rfl
    | cons m ms =>
      refine .of_choice (firstFit_dispatched _ hms) ?_ ?_ ?_
      · exact fun m fitted hchosen => bind_of_ok hchosen
      · exact fun hnone => bind_of_ok hnone
      · exact fun hstuck => bind_of_stopped hstuck
  exact hinvoke.mapError _ fun _ herror => mapError_of_error herror

/-! ### In front of a host class -/

/-- What may come in front of the host class is the outcome; where there is nothing in front, the
outcome is as said. -/
def Behind {ε β : Type} (front : Option (Outcome ε β)) (P : Outcome ε β → Prop) (o : Outcome ε β) :
    Prop :=
  match front with
  | some answer => o = answer
  | none => P o

theorem Behind.of_eq {ε β : Type} {front : Option (Outcome ε β)} {P : Outcome ε β → Prop}
    {o o' : Outcome ε β} (h : Behind front P o') (ho : o = o') : Behind front P o := ho ▸ h

/-- What a script instance answers to a call of a script: a value baked into it, or else what a
method of its class returns. -/
def callAnswer? (again : Calls) (w : World) (this : HostId) (name : String) (args : List Value) :
    Option (Outcome Fault Value) :=
  match bakedAnswer? w.heap this name args with
  | some v => some (.ok v w)
  | none => (scriptMethod? w.heap this name).map fun f =>
    Evaluation.callFunction again f (some (.host this)) args w

theorem callMethod_eq (args : List Value) :
    callMethod again this name args w =
      match bakedAnswer? w.heap this name args with
      | some v => .ok v w
      | none =>
        match scriptMethod? w.heap this name with
        | some f => Evaluation.callFunction again f (some (.host this)) args w
        | none =>
          let candidates := w.heap.methodsNamed (w.heap.classOf this) name args.length false
          HostRun.toScript
            (invokeFirst again (w.heap.classOf this) name candidates (some this) args) w := by
  refine (ite_bakedAnswer_eq _).trans ?_
  cases bakedAnswer? w.heap this name args with
  | some v => rfl
  | none =>
    generalize hmethod : scriptMethod? w.heap this name = method
    refine (bind_of_ok (read_of_eq hmethod)).trans ?_
    cases method <;> rfl

theorem callMethod_dispatched (args : List Value) :
    Behind (callAnswer? again w this name args)
      (Dispatched w (.script args) HostMethod.params (runForScript again (some this))
        (· = .error (unmatched w.heap (w.heap.classOf this) name
          (w.heap.methodsNamed (w.heap.classOf this) name args.length false) args).toFault w)
        (w.heap.methodsNamed (w.heap.classOf this) name args.length false))
      (callMethod again this name args w) := by
  rw [callMethod_eq, callAnswer?]
  cases bakedAnswer? w.heap this name args with
  | some v => exact rfl
  | none =>
    cases scriptMethod? w.heap this name with
    | some f => exact rfl
    | none => exact invokeFirst_dispatched fun m => length_of_mem_methodsNamed

/-! ### Calls of the host -/

theorem callVirtual_dispatched (args : List HostData) :
    Behind ((bakedAnswer? w.heap this name args).map fun v => HostRun.toHost .any v w)
      (Dispatched w (.host args) HostMethod.params (fun m => invokeMethod again m (some this))
        (· = match scriptMethod? w.heap this name with
          | some method => answerBy again method this args .any w
          | none => .error (unanswered w.heap (w.heap.classOf this) name args) w)
        (w.heap.methodsNamed (w.heap.classOf this) name args.length false))
      (callVirtual again this name args w) := by
  cases hbaked : bakedAnswer? w.heap this name args with
  | some v =>
    have hcall : callVirtual again this name args w = _ := ite_bakedAnswer_eq _
    rw [hcall, hbaked]
    exact rfl
  | none =>
    rw [callVirtual_behind_eq hbaked]
    have hchoice : Dispatched w (.host args) HostMethod.params choose (· = .ok none w)
        (w.heap.methodsNamed (w.heap.classOf this) name args.length false)
        (.ok (selected? w.heap (w.heap.classOf this) name args) w : Outcome HostError _) :=
      firstHostFit_dispatched _ fun m => length_of_mem_methodsNamed
    refine .of_choice (r := fun _ => _) hchoice (fun m fitted hchosen => ?_) (fun hnone => ?_) nofun
    · simp only [(Outcome.ok.inj hchosen).1]
    · cases scriptMethod? w.heap this name <;> simp only [(Outcome.ok.inj hnone).1]

/-! ### Reading a property -/

/-- The getters of a property in the order they are tried. -/
def getters (h : Heap) (cls : HostClassId) (name : String) : List HostMethod :=
  (getterNames name).flatMap fun getter => h.methodsNamed cls getter 0 false

theorem params_of_mem_getters {m : HostMethod} (hm : m ∈ getters h cls name) : m.params = [] := by
  obtain ⟨getter, -, hm⟩ := List.mem_flatMap.mp hm
  exact List.length_eq_zero_iff.mp (length_of_mem_methodsNamed hm)

theorem getter?_eq (h : Heap) (cls : HostClassId) (name : String) :
    getter? h cls name = (getters h cls name).head? :=
  List.head?_flatMap.symm

/-- What a read of the host answers that no getter takes: a field of the host class, or one of the
script object. -/
def hostField (w : World) (this : HostId) (name : String) : Outcome HostError HostData :=
  match fieldSlot? w.heap (w.heap.classOf this) name with
  | some slot => readSlot this slot w
  | none =>
    match (scriptObject? w.heap this).bind fun o => (w.heap.object o).fields.get? name with
    | some v => HostRun.toHost .any v w
    | none => .ok .null w

theorem readHost_eq :
    readHost again this name w =
      match bakedProperty? w.heap this name with
      | some v => HostRun.toHost .any v w
      | none =>
        match (getters w.heap (w.heap.classOf this) name).head? with
        | some m => invokeMethod again m (some this) [] w
        | none => hostField w this name := by
  generalize hbaked : bakedProperty? w.heap this name = baked
  refine (bind_of_ok (read_of_eq hbaked)).trans ?_
  cases baked with
  | some v => rfl
  | none =>
    rw [← getter?_eq]
    generalize hgetter : getter? w.heap (w.heap.classOf this) name = getter
    refine (bind_of_ok rfl).trans ((bind_of_ok (read_of_eq hgetter)).trans ?_)
    cases getter with
    | some m => rfl
    | none =>
      unfold hostField
      generalize hslot : fieldSlot? w.heap (w.heap.classOf this) name = slot
      refine (bind_of_ok (read_of_eq hslot)).trans ?_
      cases slot with
      | some slot => rfl
      | none =>
        generalize hfield : ((scriptObject? w.heap this).bind fun o =>
          (w.heap.object o).fields.get? name) = field
        refine (bind_of_ok (read_of_eq hfield)).trans ?_
        cases field <;> rfl

theorem readHost_dispatched (this : HostId) (name : String) :
    Behind ((bakedProperty? w.heap this name).map fun v => HostRun.toHost .any v w)
      (Dispatched w (.host []) HostMethod.params (fun m => invokeMethod again m (some this))
        (· = hostField w this name) (getters w.heap (w.heap.classOf this) name))
      (readHost again this name w) := by
  rw [readHost_eq]
  cases bakedProperty? w.heap this name with
  | some v => exact rfl
  | none =>
    refine .of_head? rfl (fun m => params_of_mem_getters) (fun m hm => ?_) fun hnil => ?_
    · simp only [hm]
    · simp only [hnil, List.head?_nil]

/-- What a read of a script answers that no getter takes: a field of the host class, or a member. -/
def scriptField (w : World) (this : HostId) (name : String) : Outcome Fault Value :=
  match fieldSlot? w.heap (w.heap.classOf this) name with
  | some slot => HostRun.toScript (do Run.fromHost (← readSlot this slot)) w
  | none => .ok (memberOf w.heap this name) w

theorem getProperty_eq :
    getProperty again this name w =
      match bakedProperty? w.heap this name with
      | some v => .ok v w
      | none =>
        match getterOf? w.heap this name with
        | some (.script f) => Evaluation.callFunction again f (some (.host this)) [] w
        | some (.host m) => runForScript again (some this) m [] w
        | none => scriptField w this name := by
  generalize hbaked : bakedProperty? w.heap this name = baked
  refine (bind_of_ok (read_of_eq hbaked)).trans ?_
  cases baked with
  | some v => rfl
  | none =>
    generalize hgetter : getterOf? w.heap this name = getter
    refine (bind_of_ok (read_of_eq hgetter)).trans ?_
    cases getter with
    | some getter => cases getter <;> rfl
    | none =>
      unfold scriptField
      generalize hslot : fieldSlot? w.heap (w.heap.classOf this) name = slot
      refine (bind_of_ok (read_of_eq hslot)).trans ?_
      cases slot <;> rfl

/-- A getter of the host class that answers is the first one there is; if nothing answers, there is
none. -/
theorem getters_of_getterOf? :
    (∀ m, getterOf? h this name = some (.host m) →
      (getters h (h.classOf this) name).head? = some m) ∧
    (getterOf? h this name = none → getters h (h.classOf this) name = []) := by
  unfold getterOf? getters
  induction getterNames name with
  | nil => exact ⟨nofun, fun _ => rfl⟩
  | cons getter getters ih =>
    rw [List.findSome?_cons, List.flatMap_cons]
    cases scriptMethod? h this getter with
    | some f => exact ⟨nofun, nofun⟩
    | none =>
      cases h.methodsNamed (h.classOf this) getter 0 false with
      | nil => exact ih
      | cons m ms => exact ⟨fun m' hm' => by cases hm'; rfl, nofun⟩

/-- What a script instance answers to a read of a script: a value baked into it, or what a getter of
its class returns. -/
def readAnswer? (again : Calls) (w : World) (this : HostId) (name : String) :
    Option (Outcome Fault Value) :=
  match bakedProperty? w.heap this name with
  | some v => some (.ok v w)
  | none =>
    match getterOf? w.heap this name with
    | some (.script f) => some (Evaluation.callFunction again f (some (.host this)) [] w)
    | _ => none

theorem getProperty_dispatched (this : HostId) (name : String) :
    Behind (readAnswer? again w this name)
      (Dispatched w (.script []) HostMethod.params (runForScript again (some this))
        (· = scriptField w this name) (getters w.heap (w.heap.classOf this) name))
      (getProperty again this name w) := by
  obtain ⟨hfirst, hnone⟩ := @getters_of_getterOf? this name w.heap
  rw [getProperty_eq, readAnswer?]
  cases bakedProperty? w.heap this name with
  | some v => exact rfl
  | none =>
    cases hgetter : getterOf? w.heap this name with
    | none =>
      refine .of_head? rfl (fun m => params_of_mem_getters) (fun m hm => ?_) fun _ => rfl
      rw [hnone hgetter] at hm
      cases hm
    | some getter =>
      cases getter with
      | script f => exact rfl
      | host m =>
        refine .of_head? rfl (fun m => params_of_mem_getters) (fun m' hm' => ?_) fun hnil => ?_
        · cases (hfirst m hgetter).symm.trans hm'
          rfl
        · have := hfirst m hgetter
          rw [hnil] at this
          cases this

/-! ### Writing a property -/

/-- The setters of a property in the order they are tried. -/
def setters (h : Heap) (this : HostId) (name : String) : List HostMethod :=
  h.methodsNamed (h.classOf this) (accessorName "set" name) 1 false

/-- The fault of a write that nothing takes. -/
def unwritten (h : Heap) (this : HostId) (name : String) (value : Value) : Fault :=
  if (setters h this name).isEmpty then .runtime (.unwritableProperty name)
  else (HostError.noMatchingOverload (accessorName "set" name) value.typeName).toFault

/-- What a write comes to that no setter takes. A field of the host class that can be written is
given what fits its type. -/
inductive Stored (w : World) (this : HostId) (name : String) (value : Value) :
    Outcome Fault Unit → Prop
  | written {type : HostType} {slot : String} {d : HostData}
      (hfield : writableField? w.heap (w.heap.classOf this) name = some (type, slot))
      (hd : HostRun.toHost type value w = .ok d w) (hfits : w.heap.Fits type d) :
      Stored w this name value (HostRun.toScript (writeSlot this slot d) w)
  | refused {type : HostType} {slot : String} {e : HostError}
      (hfield : writableField? w.heap (w.heap.classOf this) name = some (type, slot))
      (he : HostRun.toHost type value w = .error e w) :
      Stored w this name value (.error e.toFault w)
  | endless {type : HostType} {slot : String}
      (hfield : writableField? w.heap (w.heap.classOf this) name = some (type, slot))
      (hstuck : HostRun.toHost type value w = .stopped .stuck) :
      Stored w this name value (.stopped .stuck)
  | kept {object : ObjectId}
      (hfield : writableField? w.heap (w.heap.classOf this) name = none)
      (hobject : scriptObject? w.heap this = some object) :
      Stored w this name value (putField object name value w)
  | unwritable (hfield : writableField? w.heap (w.heap.classOf this) name = none)
      (hobject : scriptObject? w.heap this = none) :
      Stored w this name value (.error (unwritten w.heap this name value) w)

/-- Runs a setter for a script. -/
def runSetter (again : Calls) (this : HostId) (m : HostMethod) (fitted : List HostData) :
    Script Unit := do
  let _ ← HostRun.toScript (invokeMethod again m (some this) fitted)

/-- What is written where no setter takes the value. -/
def storeField (this : HostId) (name : String) (value : Value) : Script Unit := fun w =>
  match writableField? w.heap (w.heap.classOf this) name with
  | some (type, slot) => HostRun.toScript (do writeSlot this slot (← HostRun.toHost type value)) w
  | none =>
    match scriptObject? w.heap this with
    | some object => putField object name value w
    | none => .error (unwritten w.heap this name value) w

theorem stored_storeField (this : HostId) (name : String) (value : Value) :
    Stored w this name value (storeField this name value w) := by
  unfold storeField
  cases hfield : writableField? w.heap (w.heap.classOf this) name with
  | some field =>
    have hfitted := Fitted.toHost (w := w) field.1 value
    simp only [HostRun.toScript, Run.mapError, Bind.bind]
    cases hd : HostRun.toHost field.1 value w with
    | ok d w' =>
      rw [hd] at hfitted
      cases hfitted with
      | ok hfits => exact .written hfield hd hfits
    | error e w' =>
      rw [hd] at hfitted
      cases hfitted
      exact .refused hfield hd
    | stopped s =>
      rw [hd] at hfitted
      cases hfitted
      exact .endless hfield hd
  | none =>
    cases hobject : scriptObject? w.heap this with
    | some object => exact .kept hfield hobject
    | none => exact .unwritable hfield hobject

theorem setHostProperty_eq (hnone : HostRun.toScript (firstFit HostMethod.params [value]
      (setters w.heap this name)) w = .ok none w) :
    setHostProperty again this name value w = storeField this name value w := by
  obtain ⟨candidates, hsetters⟩ : ∃ candidates, setters w.heap this name = candidates := ⟨_, rfl⟩
  rw [hsetters] at hnone
  refine (bind_of_ok rfl).trans ((bind_of_ok (read_of_eq hsetters)).trans ?_)
  refine (bind_of_ok hnone).trans ?_
  unfold storeField
  generalize hfield : writableField? w.heap (w.heap.classOf this) name = field
  refine (bind_of_ok (read_of_eq hfield)).trans ?_
  cases field with
  | some field => rfl
  | none =>
    generalize hobject : scriptObject? w.heap this = object
    refine (bind_of_ok (read_of_eq hobject)).trans ?_
    cases object with
    | some object => rfl
    | none =>
      unfold unwritten
      rw [hsetters]
      cases candidates <;> rfl

theorem setHostProperty_dispatched (this : HostId) (name : String) (value : Value) :
    Dispatched w (.script [value]) HostMethod.params (runSetter again this)
      (Stored w this name value) (setters w.heap this name)
      (setHostProperty again this name value w) := by
  have hchoice : Dispatched w (.script [value]) HostMethod.params choose (· = .ok none w)
      (setters w.heap this name)
      (HostRun.toScript (firstFit HostMethod.params [value] (setters w.heap this name)) w) :=
    (firstFit_dispatched _ fun m => length_of_mem_methodsNamed).mapError HostError.toFault
      fun _ hnone => mapError_of_ok hnone
  refine .of_choice hchoice (fun m fitted hchosen => ?_) (fun hnone => ?_) (fun hstuck => ?_)
  · exact (bind_of_ok rfl).trans ((bind_of_ok rfl).trans (bind_of_ok hchosen))
  · rw [setHostProperty_eq hnone]
    exact stored_storeField this name value
  · exact (bind_of_ok rfl).trans ((bind_of_ok rfl).trans (bind_of_stopped hstuck))

/-- What a script instance answers to a write: an error where a value is baked into it, or what a
setter of its class comes to. -/
def writeAnswer? (again : Calls) (w : World) (this : HostId) (name : String) (value : Value) :
    Option (Outcome Fault Unit) :=
  if (bakedProperty? w.heap this name).isSome then
    some (.error (.runtime (.readOnlyProperty name)) w)
  else (scriptMethod? w.heap this (accessorName "set" name)).map fun f =>
    (do let _ ← Evaluation.callFunction again f (some (.host this)) [value] : Script Unit) w

theorem setProperty_dispatched (this : HostId) (name : String) (value : Value) :
    Behind (writeAnswer? again w this name value)
      (Dispatched w (.script [value]) HostMethod.params (runSetter again this)
        (Stored w this name value) (setters w.heap this name))
      (setProperty again this name value w) := by
  unfold writeAnswer?
  generalize hbaked : bakedProperty? w.heap this name = baked
  have hset : setProperty again this name value w = _ := bind_of_ok (read_of_eq hbaked)
  cases baked with
  | some v => exact hset
  | none =>
    generalize hmethod : scriptMethod? w.heap this (accessorName "set" name) = method
    have hset := hset.trans (bind_of_ok (read_of_eq hmethod))
    cases method with
    | some f => exact hset
    | none => exact (setHostProperty_dispatched this name value).of_eq hset

/-! ### Slots -/

/-- What a script instance answers where a method of its host class may be overridden. -/
def slotAnswer? (again : Calls) (w : World) (this : HostId) (m : HostMethod) (overridden : Bool)
    (args : List HostData) : Option (Outcome HostError HostData) :=
  match bakedAnswer? w.heap this m.name args with
  | some v => some (HostRun.toHost m.returns v w)
  | none =>
    if overridden && (scriptObject? w.heap this).isSome then
      some (invokeScript again this m.name args m.returns w)
    else none

/-- A slot hands what it was given on to the method it stands for. -/
theorem slotOf_hands_on (script : ClassId) (m : HostMethod) (this : HostId)
    (args : List HostData) :
    Behind (slotAnswer? again w this m (h.methodOf? script m.name).isSome args)
      (· = runBody again (some this) args m.body w)
      (runBody again (some this) args (slotOf h script m).body w) := by
  have hbody : runBody again (some this) args (slotOf h script m).body w = _ := ite_bakedAnswer_eq _
  rw [hbody, slotAnswer?]
  cases bakedAnswer? w.heap this m.name args with
  | some v => exact rfl
  | none =>
    generalize hextended : (scriptObject? w.heap this).isSome = extended
    refine Behind.of_eq ?_ (bind_of_ok (read_of_eq hextended))
    cases (h.methodOf? script m.name).isSome && extended <;> exact rfl

/-! ## Every way in -/

/-- Every way into a host class, taken in a state, is one dispatch behind what a script class
answers itself: the candidates are those of the name, the number of arguments and the staticness, in
the order of their declaration, the most derived class first. -/
structure OneBody (again : Calls) (w : World) : Prop where
  /-- A host object is made by one of the constructors of its class. -/
  construction : ∀ cls args,
    Dispatched w (.script args) HostConstructor.params runConstructor
      (· = .error (unmade w.heap cls args) w) (constructorsOf w.heap cls args.length)
      (construct cls args w)
  /-- The host instance inside an instance of a script class is made by one of the constructors of
  the host class that it extends. Where none takes the arguments, one without parameters does. -/
  superclassPart : ∀ script base object args, ∃ cls w', extensionOf script base w = .ok cls w' ∧
    (w.heap.Linked → w.heap.hostBase? script = some base →
      constructorsOf w'.heap cls = constructorsOf w.heap base) ∧
    Dispatched w' (.script args) HostConstructor.params (runSuperConstructor cls object)
      (Dispatched w' (.script []) HostConstructor.params (runSuperConstructor cls object)
        (· = .error (unmade w'.heap cls args) w') (constructorsOf w'.heap cls 0))
      (constructorsOf w'.heap cls args.length) (extend script base object args w)
  /-- A script calls a static method. -/
  staticCall : ∀ cls name args,
    Dispatched w (.script args) HostMethod.params (runForScript again none)
      (· = .error (unmatched w.heap cls name
        (w.heap.methodsNamed cls name args.length true) args).toFault w)
      (w.heap.methodsNamed cls name args.length true)
      (callHostMethod again (.static cls) name args w)
  /-- A script calls a method of an object. -/
  instanceCall : ∀ this name args,
    Behind (callAnswer? again w this name args)
      (Dispatched w (.script args) HostMethod.params (runForScript again (some this))
        (· = .error (unmatched w.heap (w.heap.classOf this) name
          (w.heap.methodsNamed (w.heap.classOf this) name args.length false) args).toFault w)
        (w.heap.methodsNamed (w.heap.classOf this) name args.length false))
      (callHostMethod again (.instance this) name args w)
  /-- The host calls a method of an object. A method that only the script class has answers last. -/
  hostCall : ∀ this name args,
    Behind ((bakedAnswer? w.heap this name args).map fun v => HostRun.toHost .any v w)
      (Dispatched w (.host args) HostMethod.params (fun m => invokeMethod again m (some this))
        (· = match scriptMethod? w.heap this name with
          | some method => answerBy again method this args .any w
          | none => .error (unanswered w.heap (w.heap.classOf this) name args) w)
        (w.heap.methodsNamed (w.heap.classOf this) name args.length false))
      (callVirtual again this name args w)
  /-- What stands in for a method on instances of a script class has its parameters, and hands on
  what it was given. -/
  slot : ∀ h script m this args, (slotOf h script m).params = m.params ∧
    Behind (slotAnswer? again w this m (h.methodOf? script m.name).isSome args)
      (· = runBody again (some this) args m.body w)
      (runBody again (some this) args (slotOf h script m).body w)
  /-- A script reads a property. -/
  scriptRead : ∀ this name,
    Behind (readAnswer? again w this name)
      (Dispatched w (.script []) HostMethod.params (runForScript again (some this))
        (· = scriptField w this name) (getters w.heap (w.heap.classOf this) name))
      (getProperty again this name w)
  /-- The host reads a property. -/
  hostRead : ∀ this name,
    Behind ((bakedProperty? w.heap this name).map fun v => HostRun.toHost .any v w)
      (Dispatched w (.host []) HostMethod.params (fun m => invokeMethod again m (some this))
        (· = hostField w this name) (getters w.heap (w.heap.classOf this) name))
      (readHost again this name w)
  /-- A script writes a property. Where no setter takes the value, a field may. -/
  write : ∀ this name value,
    Behind (writeAnswer? again w this name value)
      (Dispatched w (.script [value]) HostMethod.params (runSetter again this)
        (Stored w this name value) (setters w.heap this name))
      (setProperty again this name value w)

/-- **One dispatch runs one body**, on arguments that fit its parameters: the body of the first
candidate that takes the arguments. If none does, none of them runs; if the body fails, no other one
is tried. -/
theorem dispatch_runs_one_body (again : Calls) (w : World) : OneBody again w where
  construction := construct_dispatched
  superclassPart script base object args := by
    obtain ⟨cls, w', hextension, hdispatched⟩ := extend_dispatched script base object args
    exact ⟨cls, w', hextension, fun hl hbase => constructorsOf_extension hl hbase hextension,
      hdispatched⟩
  staticCall _ _ _ :=
    (invokeFirst_dispatched fun m => length_of_mem_methodsNamed).of_eq (bind_of_ok rfl)
  instanceCall _ _ args := callMethod_dispatched args
  hostCall _ _ args := callVirtual_dispatched args
  slot _ script m this args := ⟨rfl, slotOf_hands_on script m this args⟩
  scriptRead := getProperty_dispatched
  hostRead := readHost_dispatched
  write := setProperty_dispatched

end ScriptEngine.Host
