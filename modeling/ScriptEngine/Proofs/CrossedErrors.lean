import ScriptEngine.Proofs.ErrorPaths
import ScriptEngine.Proofs.Instances
import ScriptEngine.Proofs.Overloads
/-!
# Errors across the host

Scripts call the host and the host calls scripts, to any depth, and an error goes out through all of
them. An error of a script is handed through the host as it is. An error of the host becomes a fault
where a script gets it, and that fault is handed on like any other, so it is converted once and not
once at each crossing.

* `HostError.ConvertedTo` : the fault that an error of the host's own is converted to, placed or
  not.
* `Evaluation.FailsInHost`, `Evaluation.FailsInHost.fails` : what fails with an error of the host,
  and that a script gets it converted, and placed if it is at an expression.
* `Evaluation.Holds.of_callEach`, `Evaluation.Holds.of_scriptMethod` : the two crossings, from a
  script into a body of the host that calls back, and from there into a method of a script.
* **`Evaluation.errors_cross_intact`** : what the outermost script gets, or its handler.

The crossings are `invoke` from a script and `call_virtual` and `read_host` from a body
(`HostRun.toScript`, `HostRun.ofScript`). A body that takes an error of a script and goes on, or
fails with another one, is an end of the chain and not a link of it; such bodies of a host are out
of scope.
-/

namespace ScriptEngine

open Run Evaluation
open Faulty (fault)

namespace HostError

/-- The error is the host's own, not one of a script that it called. -/
def Own (h : HostError) : Prop := ∀ f, h ≠ .script f

/-- What the host's own error is converted to. -/
theorem Own.toFault_eq {h : HostError} (hown : h.Own) :
    h.toFault = ⟨.runtime (.host h.message), none, none, some h.message⟩ := by
  cases h with
  | script f => exact absurd rfl (hown f)
  | _ => rfl

/-- The fault is the host's own error, converted once, whether it is placed by now or not. -/
structure ConvertedTo (h : HostError) (f : Fault) : Prop where
  cause : f.cause = .runtime (.host h.message)
  reason : f.reason = some h.message
  place : f = h.toFault ∨ ∃ span, f = h.toFault.orSpan span

theorem Own.convertedTo {h : HostError} (hown : h.Own) : h.ConvertedTo h.toFault where
  cause := by rw [hown.toFault_eq]
  reason := by rw [hown.toFault_eq]
  place := .inl rfl

/-- Placing it does not convert it again. -/
theorem ConvertedTo.orSpan {h : HostError} {f : Fault} (hf : h.ConvertedTo f) (span : Span) :
    h.ConvertedTo (f.orSpan span) where
  cause := hf.cause
  reason := hf.reason
  place := by
    rcases hf.place with rfl | ⟨other, rfl⟩
    · exact .inr ⟨span, rfl⟩
    · exact .inr ⟨other, Fault.orSpan_orSpan _ other span⟩

end HostError

/-! ## Failing in the host -/

namespace Host

/-- A read of a property comes to a getter of the host class, and that fails. -/
structure FailsReading (again : Calls) (this : HostId) (name : String) (w : World) (h : HostError) :
    Prop where
  unbaked : bakedProperty? w.heap this name = none
  getter : ∃ m u, getterOf? w.heap this name = some (.host m) ∧
    invokeMethod again m (some this) [] w = .error h u

/-- A write of a property that no setter of the script class takes fails in a setter of the host
class, at the type of a field, or since no setter takes the value. -/
inductive FailsWriting (again : Calls) (this : HostId) (name : String) (x : Value) (w : World) :
    HostError → Prop
  | setter {m : HostMethod} {fitted : List HostData} {v u : World} {h : HostError}
      (hfits : firstFit HostMethod.params [x] (w.heap.methodsNamed (w.heap.classOf this)
        (accessorName "set" name) 1 false) w = .ok (some (m, fitted)) v)
      (hrun : invokeMethod again m (some this) fitted v = .error h u) :
      FailsWriting again this name x w h
  | field {type : HostType} {slot : String} {v u : World} {h : HostError}
      (hfits : firstFit HostMethod.params [x] (w.heap.methodsNamed (w.heap.classOf this)
        (accessorName "set" name) 1 false) w = .ok none v)
      (hfield : writableField? v.heap (w.heap.classOf this) name = some (type, slot))
      (hrun : HostRun.toHost type x v = .error h u) : FailsWriting again this name x w h
  | unfit {v : World}
      (hsome : (w.heap.methodsNamed (w.heap.classOf this)
        (accessorName "set" name) 1 false).isEmpty = false)
      (hfits : firstFit HostMethod.params [x] (w.heap.methodsNamed (w.heap.classOf this)
        (accessorName "set" name) 1 false) w = .ok none v)
      (hfield : writableField? v.heap (w.heap.classOf this) name = none)
      (hobject : scriptObject? v.heap this = none) :
      FailsWriting again this name x w (.noMatchingOverload (accessorName "set" name) x.typeName)

variable {again : Calls} {this : HostId} {name : String} {x : Value} {w : World} {h : HostError}

theorem FailsReading.fails (hread : FailsReading again this name w h) :
    ∃ u, getProperty again this name w = .error h.toFault u := by
  obtain ⟨m, u, hgetter, hrun⟩ := hread.getter
  refine ⟨u, (bind_of_ok (read_of_eq hread.unbaked)).trans
    ((bind_of_ok (read_of_eq hgetter)).trans ?_)⟩
  exact mapError_of_error (bind_of_error hrun)

theorem FailsWriting.fails (hbaked : bakedProperty? w.heap this name = none)
    (hscript : scriptMethod? w.heap this (accessorName "set" name) = none)
    (hwrite : FailsWriting again this name x w h) :
    ∃ u, setProperty again this name x w = .error h.toFault u := by
  suffices hfails : ∃ u, setHostProperty again this name x w = .error h.toFault u by
    obtain ⟨u, hfails⟩ := hfails
    refine ⟨u, (bind_of_ok (read_of_eq hbaked)).trans ((bind_of_ok (read_of_eq hscript)).trans ?_)⟩
    exact hfails
  cases hwrite with
  | @setter _ _ _ u _ hfits hrun =>
    refine ⟨u, (bind_of_ok rfl).trans
      ((bind_of_ok rfl).trans ((bind_of_ok (mapError_of_ok hfits)).trans ?_))⟩
    exact bind_of_error (mapError_of_error hrun)
  | @field _ _ _ u _ hfits hfield hrun =>
    refine ⟨u, (bind_of_ok rfl).trans
      ((bind_of_ok rfl).trans ((bind_of_ok (mapError_of_ok hfits)).trans ?_))⟩
    refine (bind_of_ok (read_of_eq hfield)).trans ?_
    exact mapError_of_error (bind_of_error hrun)
  | @unfit v hsome hfits hfield hobject =>
    refine ⟨v, (bind_of_ok rfl).trans
      ((bind_of_ok rfl).trans ((bind_of_ok (mapError_of_ok hfits)).trans ?_))⟩
    refine (bind_of_ok (read_of_eq hfield)).trans ((bind_of_ok (read_of_eq hobject)).trans ?_)
    rw [if_neg (by rw [hsome]; exact Bool.false_ne_true)]
    rfl

end Host

namespace Evaluation

variable {n m : Nat} {a b c : Activity} {w v u w' : World} {f : Fault} {h : HostError}

/-- The activity gets into the host and fails there with an error of the host: at a call or a read
of the host itself, or where a script calls a method or a constructor, makes an instance of a class
that extends one of the host, or reads or writes a property, by its name in the code or by a name
that is computed. -/
inductive FailsInHost (again : Calls) : Activity → World → HostError → Prop
  | callVirtual {this : HostId} {name : String} {args : List HostData} {w u : World} {h : HostError}
      (hrun : Host.callVirtual again this name args w = .error h u) :
      FailsInHost again (.callVirtual this name args) w h
  | readHost {this : HostId} {name : String} {w u : World} {h : HostError}
      (hrun : Host.readHost again this name w = .error h u) :
      FailsInHost again (.readHost this name) w h
  | method {this : HostId} {name : String} {args : List Value} {w u : World} {h : HostError}
      (hbaked : Host.bakedAnswer? w.heap this name args = none)
      (hscript : Host.scriptMethod? w.heap this name = none)
      (hrun : Host.invokeFirst again (w.heap.classOf this) name
        (w.heap.methodsNamed (w.heap.classOf this) name args.length false)
      (some this) args w = .error h u) :
      FailsInHost again (.call (.hostMethod (.instance this) name) args) w h
  | static {cls : HostClassId} {name : String} {args : List Value} {w u : World} {h : HostError}
      (hrun : Host.invokeFirst again cls name (w.heap.methodsNamed cls name args.length true) none
        args w = .error h u) :
      FailsInHost again (.call (.hostMethod (.static cls) name) args) w h
  | construct {cls : HostClassId} {args : List Value} {w u : World} {h : HostError}
      (hrun : Host.construct cls args w = .error h u) :
      FailsInHost again (.call (.hostClass cls) args) w h
  | extend {id : ClassId} {args : List Value} {k : ScriptClass} {baked : Fields} {object : ObjectId}
      {base : HostClassId} {w v v' u : World} {h : HostError}
      (hclass : w.heap.scriptClass? id = some k) (hbaked : bakedValues again k w = .ok baked v)
      (hobject : newInstance ⟨some id, [], baked⟩ v = .ok object v')
      (hbase : v'.heap.hostBase? id = some base)
      (hrun : Host.extend id base object args v' = .error h u) :
      FailsInHost again (.call (.scriptClass id) args) w h
  | get {object : Expr} {name : String} {span : Span} {this : HostId} {w v : World} {h : HostError}
      (hobject : again.evaluate object w = .ok (.host this) v)
      (hread : Host.FailsReading again this name v h) :
      FailsInHost again (.evaluate (.get object name span)) w h
  | update {object value : Expr} {name : String} {op : AssignOp} {combining : BinaryOp}
      {span : Span} {this : HostId} {w v : World} {h : HostError}
      (hop : op.binary? = some combining) (hobject : again.evaluate object w = .ok (.host this) v)
      (hread : Host.FailsReading again this name v h) :
      FailsInHost again (.evaluate (.set object name op value span)) w h
  | set {object value : Expr} {name : String} {op : AssignOp} {span : Span} {this : HostId}
      {x : Value} {w v v' : World} {h : HostError}
      (hobject : again.evaluate object w = .ok (.host this) v)
      (hvalue : assignedValue again op (readProperty again true (.host this) name) value v =
        .ok x v')
      (hbaked : Host.bakedProperty? v'.heap this name = none)
      (hscript : Host.scriptMethod? v'.heap this (accessorName "set" name) = none)
      (hwrite : Host.FailsWriting again this name x v' h) :
      FailsInHost again (.evaluate (.set object name op value span)) w h
  | readNamed {id : NativeId} {native : Native} {args : List Value} {this : HostId} {name : String}
      {w v : World} {h : HostError} (hnative : w.heap.native? id = some native)
      (harity : native.checkArity args.length = .ok ()) (hbody : native.body = .getProperty)
      (hthis : Library.argumentAt args 0 = .host this)
      (hname : Script.text (Library.argumentAt args 1) w = .ok name v)
      (hread : Host.FailsReading again this name v h) :
      FailsInHost again (.call (.native id) args) w h
  | writeNamed {id : NativeId} {native : Native} {args : List Value} {this : HostId} {name : String}
      {w v : World} {h : HostError} (hnative : w.heap.native? id = some native)
      (harity : native.checkArity args.length = .ok ()) (hbody : native.body = .setProperty)
      (hthis : Library.argumentAt args 0 = .host this)
      (hname : Script.text (Library.argumentAt args 1) w = .ok name v)
      (hbaked : Host.bakedProperty? v.heap this name = none)
      (hscript : Host.scriptMethod? v.heap this (accessorName "set" name) = none)
      (hwrite : Host.FailsWriting again this name (Library.argumentAt args 2) v h) :
      FailsInHost again (.call (.native id) args) w h

theorem callNative_eq {again : Calls} {id : NativeId} {native : Native} {args : List Value}
    (hnative : w.heap.native? id = some native) (harity : native.checkArity args.length = .ok ()) :
    callNative again id args w = runNative again native.body args w := by
  rw [callNative_of_some hnative, harity]
  rfl

/-- **A script gets the error of the host converted once**, and placed if it is at an expression. -/
theorem FailsInHost.fails (hfails : FailsInHost (machine n) c w h) (hown : h.Own) :
    ∃ f u, c.run (machine (n + 1)) w = .error f u ∧ h.ConvertedTo f := by
  have called {r : Script Value} {u : World} (hr : r w = .error h.toFault u) :
      ∃ f u, r.ending w = .error f u ∧ h.ConvertedTo f :=
    ⟨_, u, ending_of_error hr, hown.convertedTo⟩
  have evaluated {r : Script Value} {u : World} {span : Span} (hr : r w = .error h.toFault u) :
      ∃ f u, (Script.placedAt span r).ending w = .error f u ∧ h.ConvertedTo f :=
    ⟨_, u, ending_of_error (mapError_of_error hr), hown.convertedTo.orSpan span⟩
  rw [Activity.run_succ]
  cases hfails with
  | callVirtual hrun => exact ⟨_, _, ending_of_error hrun, hown.convertedTo⟩
  | readHost hrun => exact ⟨_, _, ending_of_error hrun, hown.convertedTo⟩
  | @method this name args _ _ _ hbaked hscript hrun =>
    have hcall : Host.callMethod (machine n) this name args w = _ := Host.callMethod_eq args
    rw [hbaked, hscript] at hcall
    exact called (hcall.trans (mapError_of_error hrun))
  | static hrun => exact called ((bind_of_ok rfl).trans (mapError_of_error hrun))
  | construct hrun => exact called (bind_of_error (mapError_of_error hrun))
  | @extend id args k baked object base _ v v' u _ hclass hbaked hobject hbase hrun =>
    have hnew : newOf id baked args v = .error h.toFault u := by
      refine (bind_of_ok hobject).trans ((bind_of_ok (read_of_eq hbase)).trans ?_)
      exact bind_of_error (mapError_of_error hrun)
    have hr : callValue (machine n) (.scriptClass id) args w = .error h.toFault u := by
      refine (bind_of_ok (read_of_eq hclass)).trans ?_
      exact (bind_of_ok hbaked).trans (bind_of_error hnew)
    exact called hr
  | get hobject hread =>
    obtain ⟨u, hr⟩ := hread.fails
    exact evaluated ((bind_of_ok hobject).trans hr)
  | @update object value name op combining span this _ v _ hop hobject hread =>
    obtain ⟨u, hr⟩ := hread.fails
    have hvalue :
        assignedValue (machine n) op (readProperty (machine n) true (.host this) name) value v =
          .error h.toFault u := by
      simp only [assignedValue, hop]
      exact bind_of_error hr
    exact evaluated ((bind_of_ok hobject).trans (bind_of_error hvalue))
  | set hobject hvalue hbaked hscript hwrite =>
    obtain ⟨u, hr⟩ := hwrite.fails hbaked hscript
    exact evaluated ((bind_of_ok hobject).trans ((bind_of_ok hvalue).trans (bind_of_error hr)))
  | @readNamed id native args this name _ v _ hnative harity hbody hthis hname hread =>
    obtain ⟨u, hr⟩ := hread.fails
    refine called (r := callNative (machine n) id args) (u := u)
      ((callNative_eq hnative harity).trans ?_)
    rw [hbody]
    refine (bind_of_ok hname).trans ?_
    rw [hthis]
    exact hr
  | @writeNamed id native args this name _ v _ hnative harity hbody hthis hname hbaked hscript
      hwrite =>
    obtain ⟨u, hr⟩ := hwrite.fails hbaked hscript
    refine called (r := callNative (machine n) id args) (u := u)
      ((callNative_eq hnative harity).trans ?_)
    rw [hbody]
    refine (bind_of_ok hname).trans ?_
    rw [hthis]
    exact bind_of_error hr

/-! ## Scripts behind the host -/

/-- A call of a host method that calls methods of its receiver holds the call of the first one. -/
theorem Holds.of_callEach {bare : Prop} {this : HostId} {name next : String} {names : List String}
    {args : List Value} {method : HostMethod} {fitted : List HostData}
    (hbaked : Host.bakedAnswer? w.heap this name args = none)
    (hscript : Host.scriptMethod? w.heap this name = none)
    (hfits : Host.firstFit HostMethod.params args (w.heap.methodsNamed (w.heap.classOf this) name
      args.length false) w = .ok (some (method, fitted)) v)
    (hbody : method.body = .callEach (next :: names)) :
    Holds bare n (.call (.hostMethod (.instance this) name) args) w
      (.callVirtual this next fitted) v where
  awaits s := by
    have hcut :
        ((machine n).cutAt (.callVirtual this next fitted) v s).callVirtual this next fitted v =
          .stopped s := if_pos ⟨rfl, rfl⟩
    generalize (machine n).cutAt (.callVirtual this next fitted) v s = calls at hcut ⊢
    have hrun : Host.runBody calls (some this) fitted method.body v = .stopped s := by
      rw [hbody]
      exact bind_of_stopped (bind_of_stopped hcut)
    have hfirst : Host.invokeFirst calls (w.heap.classOf this) name
        (w.heap.methodsNamed (w.heap.classOf this) name args.length false)
          (some this) args w = .stopped s := by
      cases hcandidates : w.heap.methodsNamed (w.heap.classOf this) name args.length false with
      | nil =>
        rw [hcandidates] at hfits
        cases hfits
      | cons candidate candidates =>
        rw [hcandidates] at hfits
        exact (bind_of_ok hfits).trans (bind_of_stopped (bind_of_stopped hrun))
    refine ending_of_stopped ((Host.callMethod_eq args).trans ?_)
    rw [hbaked, hscript]
    exact mapError_of_stopped hfirst
  unhandled := by rintro ⟨_, _, _, _, h, _⟩; cases h
  unreplaced := by rintro ⟨_, _, _, _, h, _⟩; cases h
  unscheduled := by rintro ⟨_, _, h, _⟩; cases h
  unwrapped _ := by rintro ⟨_, _, _, h, _⟩; cases h

/-- The scope of a function body, with the receiver and the arguments bound. -/
def bodyScope (g : Function) (this : Value) (args : List Value) : Script ScopeId := do
  let scope ← Script.childScope g.closure
  Script.define scope "this" this
  bindArguments scope g.decl.params args
  return scope

/-- A call by the host that the class of a script instance answers holds the first statement of the
method. -/
theorem Holds.of_scriptMethod {bare : Prop} {this : HostId} {name : String} {args : List HostData}
    {id : FunctionId} {g : Function} {stmt : Stmt} {rest : List Stmt} {values : List Value}
    {scope : ScopeId} (hbaked : Host.bakedAnswer? w.heap this name args = none)
    (hhost : Host.selected? w.heap (w.heap.classOf this) name args = none)
    (hscript : Host.scriptMethod? w.heap this name = some id)
    (hvalues : (Run.collect Run.fromHost args : HostRun _) w = .ok values v)
    (hg : v.heap.functions[id.index]? = some g) (hbody : g.decl.body = stmt :: rest)
    (hdepth : v.callDepth < v.environment.settings.maxCallDepth)
    (hscope : bodyScope g (.host this) values { v with frame := .top globalScope, callDepth :=
      v.callDepth + 1 } = .ok scope u) :
    Holds bare n (.callVirtual this name args) w (.execute stmt)
      { u with frame := functionFrame scope u.frame } where
  awaits s := by
    have hcut : ((machine n).cutAt (.execute stmt) { u with frame := functionFrame scope u.frame }
      s).execute stmt
      { u with frame := functionFrame scope u.frame } = .stopped s := if_pos ⟨rfl, rfl⟩
    generalize (machine n).cutAt (.execute stmt) { u with frame := functionFrame scope u.frame } s =
      calls at hcut ⊢
    have hall : Run.inFrame (functionFrame scope) (executeAll calls g.decl.body) u =
        .stopped s := by
      refine inFrame_of_stopped ?_
      rw [hbody]
      simp only [executeAll, Run.forEach, signalOf, bind_of_stopped hcut]
    have henter : enterFunction calls id (some (.host this)) values
        { v with frame := .top globalScope, callDepth := v.callDepth + 1 } = .stopped s := by
      refine (bind_of_ok (read_of_eq hg)).trans ?_
      have hsplit := (bind_of_ok (k := fun scope => (do
        return returned (← Run.inFrame (functionFrame scope) (executeAll calls g.decl.body)) :
          Script Value))
          hscope).trans (bind_of_stopped hall)
      simpa only [bodyScope, bind_assoc, pure_bind] using hsplit
    have hcall : callFromHost calls id (.host this) values v = .stopped s := by
      refine inFrame_of_stopped ?_
      rw [callFunction_eq, Script.asCall, Run.asCall_eq, if_neg (Nat.not_le.mpr hdepth), henter]
      rfl
    refine ending_of_stopped ((Host.callVirtual_behind_eq hbaked).trans ?_)
    rw [hhost, hscript]
    exact (bind_of_ok hvalues).trans (bind_of_stopped (mapError_of_stopped hcall))
  unhandled := by rintro ⟨_, _, _, _, h, _⟩; cases h
  unreplaced := by rintro ⟨_, _, _, _, h, _⟩; cases h
  unscheduled := by rintro ⟨_, _, h, _⟩; cases h
  unwrapped _ := by rintro ⟨_, _, _, h, _⟩; cases h

/-! ## Crossing -/

/-- What becomes of errors on their way out through scripts and the host. -/
structure CrossedIntact : Prop where
  /-- An error of a script that is placed gets to the outermost script as it is. -/
  intact : ∀ {n m : Nat} {a c : Activity} {w u w' : World} {f : Fault} {span : Span},
    Encloses True n a w m c u → c.run (machine m) u = .error f w' → f.span = some span →
      ∃ u', a.run (machine n) w = .error f u'
  /-- Or to its handler. -/
  caught : ∀ {n m : Nat} {b c : Activity} {body handler : List Stmt} {name : String}
    {w v u w' : World} {f : Fault}
    {span : Span}, (machine n).Awaits (executeBlock · body) w b v → Encloses True n b v m c u →
    c.run (machine m) u = .error f w' → f.span = some span →
      ∃ u', guarded (machine n) body (some (name, handler)) w = handle (machine n) name handler f u'
  /-- An error of the host's own gets to the outermost script converted once. -/
  converted : ∀ {n m : Nat} {a c : Activity} {w u : World} {h : HostError}, h.Own →
    FailsInHost (machine m) c u h → Encloses True n a w (m + 1) c u →
      ∃ f u', a.run (machine n) w = .error f u' ∧ h.ConvertedTo f
  /-- Or to its handler. -/
  converted_caught : ∀ {n m : Nat} {b c : Activity} {body handler : List Stmt} {name : String}
    {w v u : World}
    {h : HostError}, h.Own → (machine n).Awaits (executeBlock · body) w b v →
    FailsInHost (machine m) c u h →
    Encloses True n b v (m + 1) c u →
      ∃ f u',
        guarded (machine n) body (some (name, handler)) w = handle (machine n) name handler f u' ∧
        h.ConvertedTo f

theorem converted_of_encloses (hown : h.Own) (hfails : FailsInHost (machine m) c u h)
    (hencloses : Encloses True n a w (m + 1) c u) :
    ∃ f u', a.run (machine n) w = .error f u' ∧ h.ConvertedTo f := by
  obtain ⟨f, v, hc, hf⟩ := hfails.fails hown
  exact hencloses.carries (fun span hf => hf.orSpan span) (.inl trivial) hc hf

/-- **Errors cross the host intact.** -/
theorem errors_cross_intact : CrossedIntact where
  intact h hc hf := by
    obtain ⟨f', u', ha, -, hsame⟩ := h.kept hc hf
    exact ⟨u', hsame trivial ▸ ha⟩
  caught hawaits hinner hc hf := by
    obtain ⟨f', u', hbody, -, hsame⟩ := (executeBlock_passesOn _).kept hawaits hinner hc hf
    exact ⟨u', guarded_of_error (hsame trivial ▸ hbody)⟩
  converted hown hfails hencloses := converted_of_encloses hown hfails hencloses
  converted_caught {n _ _ _ body _ _ _ _ _ _} hown hawaits hfails hinner := by
    obtain ⟨f, u', hb, hf⟩ := converted_of_encloses hown hfails hinner
    obtain ⟨f', v', hbody, hf'⟩ :=
      (executeBlock_passesOn body).carries hawaits (fun span hf => hf.orSpan span) hb hf
    exact ⟨f', v', guarded_of_error hbody, hf'⟩

/-- A `Sketch` whose class has a method `run` that reads a name that is not bound, and a `Canvas`
with a method `go` that calls some methods of its receiver and a method `stop` that fails. -/
def callingBack (names : List String) : World :=
  let w := Host.sketched [⟨"go", [], .any, .final, .callEach names⟩,
    ⟨"stop", [], .any, .final, .fail "no paint"⟩]
    [("run", ⟨0⟩)]
  { w with heap := { w.heap with
    functions := #[⟨.mk (some "run") [] [.expr (.var "width" ⟨20, 25, 2, 3⟩)] default,
      globalScope⟩] } }

/-- The script that calls `go` gets the error of `run` as it is, and the error of `stop` converted
once. -/
theorem errors_cross_callEach :
    (∃ f u, (Activity.call (.hostMethod (.instance ⟨1⟩) "go") []).run (machine 4)
        (callingBack ["run"]) =
      .error f u ∧ f = ⟨.runtime (.undefinedVariable "width"), some ⟨20, 25, 2, 3⟩, none, none⟩) ∧
    ∃ f u, (Activity.call (.hostMethod (.instance ⟨1⟩) "go") []).run (machine 4)
        (callingBack ["stop"]) =
      .error f u ∧ (HostError.failed "no paint").ConvertedTo f := by
  constructor
  · have hgo : Holds True 3 (.call (.hostMethod (.instance ⟨1⟩) "go") []) (callingBack ["run"])
        (.callVirtual ⟨1⟩ "run" []) (callingBack ["run"]) := .of_callEach rfl rfl rfl rfl
    have hrun : Holds True 2 (.callVirtual ⟨1⟩ "run" []) (callingBack ["run"])
        (.execute (.expr (.var "width" ⟨20, 25, 2, 3⟩))) _ :=
      .of_scriptMethod rfl rfl rfl rfl rfl rfl (by decide) rfl
    obtain ⟨u, h⟩ := errors_cross_intact.intact (.around hgo (.around hrun (.self 2 _ _)))
      (f := ⟨.runtime (.undefinedVariable "width"), some ⟨20, 25, 2, 3⟩, none, none⟩) rfl rfl
    exact ⟨_, u, h, rfl⟩
  · have hgo : Holds True 3 (.call (.hostMethod (.instance ⟨1⟩) "go") []) (callingBack ["stop"])
        (.callVirtual ⟨1⟩ "stop" []) (callingBack ["stop"]) := .of_callEach rfl rfl rfl rfl
    exact errors_cross_intact.converted (fun f hf => by cases hf) (.callVirtual rfl)
      (.around hgo (.self _ _ _))

end Evaluation

end ScriptEngine
