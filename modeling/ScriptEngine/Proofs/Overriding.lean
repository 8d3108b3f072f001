import ScriptEngine.Proofs.Instances
import ScriptEngine.Evaluation.Machine
/-!
# Overriding methods of host classes

A script class stands in for the most derived overridable method of each name and number of
parameters, and for nothing else: other overloads stay as they are, and a method that must not be
overridden is hidden from a script, though not from the host.

* `Host.override_reached` : when a call of the host reaches a script method.
* `Host.bare_extension_selects` : when an instance of a class that overrides nothing is called as a
  plain object is.
* `Host.final_method_answers` : what a final method answers.

The stand-ins are made by `synthesize` from `virtual_methods`. Classes are made after those they
extend (`Heap.Layered`), and hosts call by `call_virtual`.
-/

namespace ScriptEngine

/-- Both errors say the same of a call, up to the class that is named in it. -/
def HostError.SameKind : HostError → HostError → Prop
  | .methodNotFound _ name arity, .methodNotFound _ name' arity' => name = name' ∧ arity = arity'
  | .noMatchingOverload name args, .noMatchingOverload name' args' => name = name' ∧ args = args'
  | _, _ => False

namespace Host

open Run

variable {again : Calls} {w : World} {this : HostId} {script : ClassId} {base : HostClassId}
  {name : String} {args : List HostData}

/-! ## Selecting on an instance -/

section Selection

variable {h : Heap} {m : HostMethod} {ms : List HostMethod} {fitted : List HostData}

/-- The arguments fit the parameters of the method, and `fitted` is what they become. -/
def Accepts (h : Heap) (m : HostMethod) (args fitted : List HostData) : Prop :=
  h.coerceAll m.params args = .ok fitted

theorem firstHostFit_cons_of_accepts (hm : Accepts h m args fitted) :
    firstHostFit h args (m :: ms) = some (m, fitted) := by
  have hm : h.coerceAll m.params args = .ok fitted := hm
  rw [firstHostFit, hm]

theorem firstHostFit_cons_of_refuses (hm : ∀ fitted, ¬ Accepts h m args fitted) :
    firstHostFit h args (m :: ms) = firstHostFit h args ms := by
  rw [firstHostFit]
  cases hfit : h.coerceAll m.params args with
  | ok fitted => exact absurd hfit (hm fitted)
  | error => rfl

theorem accepts_of_firstHostFit (hfit : firstHostFit h args ms = some (m, fitted)) :
    m ∈ ms ∧ Accepts h m args fitted := by
  induction ms with
  | nil => cases hfit
  | cons m' ms ih =>
    by_cases hm' : ∃ fitted, Accepts h m' args fitted
    · obtain ⟨fitted', hm'⟩ := hm'
      rw [firstHostFit_cons_of_accepts hm'] at hfit
      cases hfit
      exact ⟨List.mem_cons_self, hm'⟩
    · rw [firstHostFit_cons_of_refuses (not_exists.mp hm')] at hfit
      exact ⟨List.mem_cons_of_mem m' (ih hfit).1, (ih hfit).2⟩

/-- If a method accepts the arguments, one is found. -/
theorem exists_firstHostFit (hmem : m ∈ ms) (hm : Accepts h m args fitted) :
    ∃ found, firstHostFit h args ms = some found := by
  induction ms with
  | nil => cases hmem
  | cons m' ms ih =>
    by_cases hm' : ∃ fitted, Accepts h m' args fitted
    · obtain ⟨fitted', hm'⟩ := hm'
      exact ⟨_, firstHostFit_cons_of_accepts hm'⟩
    · rw [firstHostFit_cons_of_refuses (not_exists.mp hm')]
      rcases List.mem_cons.mp hmem with rfl | hmem
      · exact absurd ⟨fitted, hm⟩ hm'
      · exact ih hmem

/-- If an overridable method is found although the first of them accepts the arguments, it is the
first. -/
theorem eq_find?_of_firstHostFit {m' : HostMethod} {fitted' : List HostData}
    (hfirst : ms.find? (·.kind == .virtual) = some m') (hm' : Accepts h m' args fitted')
    (hfit : firstHostFit h args ms = some (m, fitted)) (hkind : m.kind = .virtual) : m = m' := by
  induction ms with
  | nil => cases hfit
  | cons x ms ih =>
    by_cases hx : x.kind = .virtual
    · rw [List.find?_cons_of_pos (by simp [hx])] at hfirst
      cases hfirst
      rw [firstHostFit_cons_of_accepts hm'] at hfit
      cases hfit
      rfl
    · rw [List.find?_cons_of_neg (by simp [hx])] at hfirst
      by_cases haccepts : ∃ fitted, Accepts h x args fitted
      · obtain ⟨fitted'', haccepts⟩ := haccepts
        rw [firstHostFit_cons_of_accepts haccepts] at hfit
        cases hfit
        exact absurd hkind hx
      · rw [firstHostFit_cons_of_refuses (not_exists.mp haccepts)] at hfit
        exact ih hfirst hfit

theorem name_of_mostDerived? {arity : Nat} (hm : h.mostDerived? base name arity = some m) :
    m.name = name := by
  have hmem := (List.mem_filter.mp (List.mem_of_find?_eq_some hm)).2
  simp only [Bool.and_eq_true, beq_iff_eq] at hmem
  exact hmem.1.1

namespace IsInstance

variable (hi : IsInstance h this script base) (hl : h.Layered)
include hi hl

/-- Where the most derived overridable method accepts the arguments, what stands in for it is
selected. -/
theorem selected?_of_accepts (hm : h.mostDerived? base name args.length = some m)
    (haccepts : Accepts h m args fitted) :
    selected? h (h.classOf this) name args = some (slotOf h script m, fitted) := by
  unfold selected?
  rw [hi.methodsNamed_eq hl, hm]
  exact firstHostFit_cons_of_accepts haccepts

/-- Where it does not, or where there is none, the selection is that of the host class. -/
theorem selected?_of_refuses
    (hm : ∀ m ∈ h.mostDerived? base name args.length, ∀ fitted, ¬ Accepts h m args fitted) :
    selected? h (h.classOf this) name args = selected? h base name args := by
  unfold selected?
  rw [hi.methodsNamed_eq hl]
  cases hmost : h.mostDerived? base name args.length with
  | none => rfl
  | some m => exact firstHostFit_cons_of_refuses (hm m hmost)

theorem isEmpty_methodsNamed (arity : Nat) :
    (h.methodsNamed (h.classOf this) name arity false).isEmpty =
      (h.methodsNamed base name arity false).isEmpty := by
  rw [hi.methodsNamed_eq hl]
  cases hmost : h.mostDerived? base name arity with
  | none => rfl
  | some m =>
    have hmem := List.mem_of_find?_eq_some hmost
    cases hms : h.methodsNamed base name arity false with
    | nil => rw [hms] at hmem; cases hmem
    | cons => rfl

end IsInstance

end Selection

/-! ## Scripts that override -/

/-- **When a script method is reached.** On an instance of a script class that has a method of the
name, and nothing baked in under it, a call of the host that some overridable method of the host
class accepts comes to the script method if the most derived overridable one accepts it. If that one
does not, the host class keeps the call, and the body of its first method that accepts it runs. -/
theorem override_reached {method : FunctionId} (hl : w.heap.Layered)
    (hi : IsInstance w.heap this script base) (hbaked : baked? w.heap this name = none)
    (hmethod : w.heap.methodOf? script name = some method)
    (haccepts : ∃ m ∈ w.heap.methodsNamed base name args.length false, m.kind = .virtual ∧
      ∃ fitted, Accepts w.heap m args fitted) :
    ∃ m, w.heap.mostDerived? base name args.length = some m ∧
      (∀ fitted, Accepts w.heap m args fitted →
        callVirtual again this name args w = answerBy again method this fitted m.returns w) ∧
      ((∀ fitted, ¬ Accepts w.heap m args fitted) →
        ∃ m' fitted, selected? w.heap base name args = some (m', fitted) ∧
          callVirtual again this name args w = invokeMethod again m' (some this) fitted w) := by
  obtain ⟨v, hv, hkind, fitted, hfitted⟩ := haccepts
  obtain ⟨m, hm⟩ : ∃ m, w.heap.mostDerived? base name args.length = some m :=
    Option.isSome_iff_exists.mp (List.find?_isSome.mpr ⟨v, hv, by simp [hkind]⟩)
  have hname := name_of_mostDerived? hm
  refine ⟨m, hm, fun fitted haccepts => ?_, fun hrefuses => ?_⟩
  · rw [callVirtual_eq hbaked, hi.selected?_of_accepts hl hm haccepts]
    exact invokeMethod_slotOf_some hi (hname ▸ hbaked) (hname ▸ hmethod)
  · obtain ⟨⟨m', fitted'⟩, hfound⟩ := exists_firstHostFit hv hfitted
    refine ⟨m', fitted', hfound, ?_⟩
    have hselected : selected? w.heap (w.heap.classOf this) name args = some (m', fitted') := by
      rw [← hfound]
      refine hi.selected?_of_refuses hl fun m' hm' => ?_
      rw [hm] at hm'
      cases hm'
      exact hrefuses
    exact callVirtual_of_selected hbaked hselected

/-- A `Sketch` whose class has the method `draw`, and a `Canvas` that has two overloads of it. -/
def sketchOfOverloads : World :=
  sketched [⟨"draw", [.int], .string, .virtual, .describe "int"⟩,
    ⟨"draw", [.string], .string, .virtual, .describe "string"⟩] [("draw", ⟨0⟩)]

/-- Of two overloads the script method stands in for the first one alone. -/
theorem override_reached_on_first_overload :
    (∃ m ∈ sketchOfOverloads.heap.methodsNamed ⟨1⟩ "draw" 1 false, m.kind = .virtual ∧
      ∃ fitted, Accepts sketchOfOverloads.heap m [.string "red"] fitted) ∧
    callVirtual Evaluation.calls ⟨1⟩ "draw" [.string "red"] sketchOfOverloads =
      .ok (.string "string('red')") sketchOfOverloads ∧
    callVirtual Evaluation.calls ⟨1⟩ "draw" [.int 1] sketchOfOverloads =
      answerBy Evaluation.calls ⟨0⟩ ⟨1⟩ [.int 1] .string sketchOfOverloads := by
  obtain ⟨hl, hi⟩ := sketched_isInstance _ _
  have hred : ∃ m ∈ sketchOfOverloads.heap.methodsNamed ⟨1⟩ "draw" 1 false, m.kind = .virtual ∧
      ∃ fitted, Accepts sketchOfOverloads.heap m [.string "red"] fitted :=
    ⟨_, List.mem_cons_of_mem _ List.mem_cons_self, rfl, _, rfl⟩
  refine ⟨hred, ?_, ?_⟩
  · obtain ⟨m, hm, -, hrefused⟩ := @override_reached Evaluation.calls sketchOfOverloads ⟨1⟩ ⟨0⟩ ⟨1⟩
      "draw" [.string "red"] ⟨0⟩ hl.layered hi rfl rfl hred
    cases hm
    obtain ⟨m, fitted, hselected, hcall⟩ := hrefused nofun
    cases hselected
    exact hcall
  · obtain ⟨m, hm, haccepted, -⟩ := @override_reached Evaluation.calls sketchOfOverloads ⟨1⟩ ⟨0⟩ ⟨1⟩
      "draw" [.int 1] ⟨0⟩ hl.layered hi rfl rfl ⟨_, List.mem_cons_self, rfl, _, rfl⟩
    cases hm
    exact haccepted _ rfl

/-! ## Scripts that override nothing -/

theorem unanswered_sameKind {h : Heap} {cls cls' : HostClassId}
    (hempty : (h.methodsNamed cls name args.length false).isEmpty =
      (h.methodsNamed cls' name args.length false).isEmpty) :
    (unanswered h cls name args).SameKind (unanswered h cls' name args) := by
  unfold unanswered
  rw [hempty]
  split <;> exact ⟨rfl, rfl⟩

/-- A final method takes the call before an overridable one that accepts the arguments too. -/
def FinalFirst (h : Heap) (base : HostClassId) (name : String) (args : List HostData)
    (final : HostMethod × List HostData) (overridable : HostMethod × List HostData) : Prop :=
  selected? h base name args = some final ∧ final.1.kind = .final ∧
    h.mostDerived? base name args.length = some overridable.1 ∧
    Accepts h overridable.1 args overridable.2

/-- A method of instances that must not be overridden is final. -/
theorem final_of_selected? {h : Heap} {m : HostMethod} {fitted : List HostData}
    (hselected : selected? h base name args = some (m, fitted)) (hkind : m.kind ≠ .virtual) :
    m.kind = .final := by
  have hstatic := (List.mem_filter.mp (accepts_of_firstHostFit hselected).1).2
  cases hm : m.kind with
  | virtual => exact absurd hm hkind
  | final => rfl
  | static => simp [HostMethod.isStatic, hm] at hstatic

/-- **What overrides nothing is called as a plain object is**, unless a final method takes the call
before an overridable one that accepts the arguments too: on the instance what stands in for that
one comes first. In every other case both run the same method with the same arguments, or nothing
answers and both fail alike. -/
theorem bare_extension_selects {plain : HostId} {slots : List (String × HostData)}
    (hl : w.heap.Layered) (hi : IsInstance w.heap this script base) (hbare : w.heap.Bare script)
    (hplain : w.heap.hostObject plain = .plain base slots) :
    (∀ final overridable, FinalFirst w.heap base name args final overridable →
      callVirtual again plain name args w =
        invokeMethod again final.1 (some plain) final.2 w ∧
      callVirtual again this name args w =
        invokeMethod again overridable.1 (some this) overridable.2 w) ∧
    ((∀ final overridable, ¬ FinalFirst w.heap base name args final overridable) →
      match selected? w.heap base name args with
      | some (m, fitted) =>
        callVirtual again plain name args w = invokeMethod again m (some plain) fitted w ∧
        callVirtual again this name args w = invokeMethod again m (some this) fitted w
      | none => ∃ e e', callVirtual again plain name args w = .error e w ∧
        callVirtual again this name args w = .error e' w ∧ e.SameKind e') := by
  have hbaked := hi.baked?_eq hbare.staticBlock_eq
  have honPlain {m fitted} (hm : selected? w.heap base name args = some (m, fitted)) :
      callVirtual again plain name args w = invokeMethod again m (some plain) fitted w :=
    callVirtual_of_selected (baked?_plain hplain name) (classOf_plain hplain ▸ hm)
  have honFirst {m fitted} (hm : w.heap.mostDerived? base name args.length = some m)
      (haccepts : Accepts w.heap m args fitted) :
      callVirtual again this name args w = invokeMethod again m (some this) fitted w := by
    rw [callVirtual_of_selected (hbaked name) (hi.selected?_of_accepts hl hm haccepts)]
    exact invokeMethod_slotOf_none (hbaked m.name) (hbare.methodOf?_eq m.name)
  refine ⟨fun final overridable hfirst => ?_, fun hnone => ?_⟩
  · obtain ⟨hfinal, -, hmost, haccepts⟩ := hfirst
    exact ⟨honPlain hfinal, honFirst hmost haccepts⟩
  by_cases hfirst : ∃ m ∈ w.heap.mostDerived? base name args.length, ∃ fitted,
      Accepts w.heap m args fitted
  · obtain ⟨m, hm, fitted, haccepts⟩ := hfirst
    obtain ⟨⟨m', fitted'⟩, hfound⟩ := exists_firstHostFit (List.mem_of_find?_eq_some hm) haccepts
    have hselected : selected? w.heap base name args = some (m', fitted') := hfound
    have hkind : m'.kind = .virtual := by
      refine Decidable.byContradiction fun hvirtual => ?_
      exact hnone (m', fitted') (m, fitted)
        ⟨hselected, final_of_selected? hselected hvirtual, hm, haccepts⟩
    -- what was found is the most derived method itself, so its arguments are the same too
    obtain rfl : m' = m := eq_find?_of_firstHostFit hm haccepts hfound hkind
    obtain rfl : fitted' = fitted := by
      have := (accepts_of_firstHostFit hfound).2.symm.trans haccepts
      exact Except.ok.inj this
    rw [hselected]
    exact ⟨honPlain hselected, honFirst hm haccepts⟩
  · have hsame : selected? w.heap (w.heap.classOf this) name args =
        selected? w.heap base name args :=
      hi.selected?_of_refuses hl fun m hm fitted haccepts => hfirst ⟨m, hm, fitted, haccepts⟩
    cases hselected : selected? w.heap base name args with
    | some found =>
      exact ⟨honPlain hselected, callVirtual_of_selected (hbaked name) (hsame.trans hselected)⟩
    | none =>
      have hclass := classOf_plain hplain
      have hscript : scriptMethod? w.heap this name = none :=
        (hi.scriptMethod?_eq name).trans (hbare.methodOf?_eq name)
      refine ⟨_, _, callVirtual_of_unselected (baked?_plain hplain name) (hclass ▸ hselected)
        (scriptMethod?_plain hplain name), callVirtual_of_unselected (hbaked name)
        (hsame.trans hselected) hscript, unanswered_sameKind ?_⟩
      rw [hclass, hi.isEmpty_methodsNamed hl]

/-- A `Sketch` that overrides nothing, of a `Canvas` with a final overload before one that may be
overridden. -/
def bareSketch : World :=
  sketched [⟨"draw", [.int], .string, .final, .describe "final"⟩,
    ⟨"draw", [.any], .string, .virtual, .describe "virtual"⟩] []

/-- The overload that may be overridden takes a call from the final one, though nothing overrides
it. -/
theorem bare_extension_selects_overridable :
    bareSketch.heap.Bare ⟨0⟩ ∧ bareSketch.heap.hostObject ⟨0⟩ = .plain ⟨1⟩ [] ∧
    callVirtual Evaluation.calls ⟨0⟩ "draw" [.int 1] bareSketch =
      .ok (.string "final(1i)") bareSketch ∧
    callVirtual Evaluation.calls ⟨1⟩ "draw" [.int 1] bareSketch =
      .ok (.string "virtual(1i)") bareSketch ∧
    callVirtual Evaluation.calls ⟨1⟩ "draw" [.string "red"] bareSketch =
      .ok (.string "virtual('red')") bareSketch := by
  obtain ⟨hl, hi⟩ := sketched_isInstance _ _
  refine ⟨rfl, rfl, ?_⟩
  have hselects (args : List HostData) := @bare_extension_selects Evaluation.calls bareSketch ⟨1⟩
    ⟨0⟩
    ⟨1⟩ "draw" args ⟨0⟩ [] hl.layered hi rfl rfl
  obtain ⟨hcanvas, hsketch⟩ := (hselects [.int 1]).1 (_, _) (_, _) ⟨rfl, rfl, rfl, rfl⟩
  have hred := (hselects [.string "red"]).2 fun final overridable hfirst => by
    obtain ⟨hselected, hfinal, -⟩ := hfirst
    cases hselected
    cases hfinal
  exact ⟨hcanvas, hsketch, hred.2⟩

/-! ## Final methods -/

/-- Nothing but a method answers to the name on the object: no baked value, no getter, no field of
the host class and none of the script object. -/
structure Unshadowed (h : Heap) (this : HostId) (name : String) : Prop where
  baked : baked? h this name = none
  bakedProperty : bakedProperty? h this name = none
  getter : getterOf? h this name = none
  hostField : fieldSlot? h (h.classOf this) name = none
  scriptField : ((scriptObject? h this).bind fun object => (h.object object).fields.get? name) =
    none

/-- The one method of the name with so many parameters that a host class has or inherits is
final. -/
structure OnlyFinal (h : Heap) (base : HostClassId) (name : String) (m : HostMethod) : Prop where
  only : (h.allMethods base).filter (fun x => x.name == name && x.params.length ==
    m.params.length) =
    [m]
  final : m.kind = .final

/-- A call `o.name(args)` of a script, once the object and the arguments are evaluated. -/
def scriptCall (again : Calls) (this : HostId) (name : String) (args : List Value) :
    Script Value := do
  Evaluation.callValue again (← Evaluation.readProperty again false (.host this) name) args

namespace OnlyFinal

variable {h : Heap} {m : HostMethod}

theorem methodsNamed_eq (ho : OnlyFinal h base name m) :
    h.methodsNamed base name m.params.length false = [m] := by
  have hstatic : h.methodsNamed base name m.params.length false =
      ((h.allMethods base).filter fun x =>
        x.name == name && x.params.length == m.params.length).filter (·.isStatic == false) := by
    rw [List.filter_filter]
    exact List.filter_congr fun x _ => Bool.and_comm _ _
  rw [hstatic, ho.only]
  simp [HostMethod.isStatic, ho.final]

theorem name_eq (ho : OnlyFinal h base name m) : m.name = name := by
  have hm : m ∈ h.methodsNamed base name m.params.length false := by
    rw [ho.methodsNamed_eq]
    exact List.mem_singleton_self m
  have := (List.mem_filter.mp hm).2
  simp only [Bool.and_eq_true, beq_iff_eq] at this
  exact this.1.1

/-- Nothing stands in for it on an instance. -/
theorem methodsNamed_classOf (ho : OnlyFinal h base name m) (hl : h.Layered)
    (hi : IsInstance h this script base) :
    h.methodsNamed (h.classOf this) name m.params.length false = [m] := by
  have hnone : h.mostDerived? base name m.params.length = none := by
    unfold Heap.mostDerived?
    rw [ho.methodsNamed_eq]
    simp [ho.final]
  rw [hi.methodsNamed_eq hl, hnone, ho.methodsNamed_eq]
  rfl

theorem hasMethod_classOf (ho : OnlyFinal h base name m) (hl : h.Layered)
    (hi : IsInstance h this script base) : h.hasMethod (h.classOf this) name false = true := by
  have hm : m ∈ h.methodsNamed (h.classOf this) name m.params.length false := by
    rw [ho.methodsNamed_classOf hl hi]
    exact List.mem_singleton_self m
  refine List.any_eq_true.mpr ⟨m, (List.mem_filter.mp hm).1, ?_⟩
  simp [HostMethod.isStatic, ho.final, ho.name_eq]

end OnlyFinal

section Script

variable {m : HostMethod} {values : List Value} {fitted : List HostData} (hl : w.heap.Layered)
  (hi : IsInstance w.heap this script base) (hu : Unshadowed w.heap this name)
  (ho : OnlyFinal w.heap base name m)
include hl hi hu ho

/-- What a script reads under the name of the method: the method of its class, or else that of the
host class. -/
theorem readProperty_final :
    Evaluation.readProperty again false (.host this) name w =
      .ok (match w.heap.methodOf? script name with
        | some method => .boundMethod (.host this) method
        | none => .hostMethod (.instance this) name) w := by
  refine (bind_of_ok (read_of_eq hu.bakedProperty)).trans ?_
  refine (bind_of_ok (read_of_eq hu.getter)).trans ?_
  refine (bind_of_ok (read_of_eq hu.hostField)).trans ?_
  have hfield : (do (w.heap.object (← scriptObject? w.heap this)).fields.get? name) = none :=
    hu.scriptField
  refine read_of_eq (f := fun w => memberOf w.heap this name) ?_
  unfold memberOf
  rw [hfield, hi.scriptMethod?_eq]
  cases w.heap.methodOf? script name with
  | some method => rfl
  | none => simp [ho.hasMethod_classOf hl hi]

/-- The host method runs where the script class has none of its name. -/
theorem callMethod_final (hmethod : w.heap.methodOf? script name = none)
    (hlength : values.length = m.params.length)
    (hfitted : HostRun.toHostAll m.params values w = .ok fitted w) :
    callMethod again this name values w =
      HostRun.toScript (do Run.fromHost (← invokeMethod again m (some this) fitted)) w := by
  refine (ite_baked_eq hu.baked _).trans ?_
  refine (bind_of_ok (read_of_eq ((hi.scriptMethod?_eq name).trans hmethod))).trans ?_
  refine (bind_of_ok rfl).trans ?_
  have hcandidates := ho.methodsNamed_classOf hl hi
  rw [← hlength] at hcandidates
  refine (bind_of_ok (read_of_eq hcandidates)).trans ?_
  have hfit : firstFit HostMethod.params values [m] w = .ok (some (m, fitted)) w := by
    have hattempt : (Run.attempt (HostRun.toHostAll m.params values) : HostRun _) w =
        .ok (.ok fitted) w := by
      unfold Run.attempt
      rw [hfitted]
    exact bind_of_ok hattempt
  have hinvoke : invokeFirst again (w.heap.classOf this) name [m] (some this) values w =
      (do Run.fromHost (← invokeMethod again m (some this) fitted) : HostRun Value) w :=
    bind_of_ok hfit
  exact mapError_congr_at _ hinvoke

end Script

/-- **What a final method answers.** Where it is the only one of its name and number of parameters,
and nothing else answers to the name, the host always runs it. A script runs it only if the script
class has no method of the name: one that has hides it from scripts. -/
theorem final_method_answers {m : HostMethod} (hl : w.heap.Layered)
    (hi : IsInstance w.heap this script base) (hu : Unshadowed w.heap this name)
    (ho : OnlyFinal w.heap base name m) :
    (∀ args fitted, args.length = m.params.length → Accepts w.heap m args fitted →
      callVirtual again this name args w = invokeMethod again m (some this) fitted w) ∧
    ∀ values fitted w', values.length = m.params.length →
      HostRun.toHostAll m.params values w = .ok fitted w' →
      scriptCall again this name values w =
        match w.heap.methodOf? script name with
        | none => HostRun.toScript (do Run.fromHost (← invokeMethod again m (some this) fitted)) w
        | some method => Evaluation.callFunction again method (some (.host this)) values w := by
  refine ⟨fun args fitted hlength haccepts => ?_, fun values fitted w' hlength hfitted => ?_⟩
  · refine callVirtual_of_selected hu.baked ?_
    unfold selected?
    rw [hlength, ho.methodsNamed_classOf hl hi]
    exact firstHostFit_cons_of_accepts haccepts
  · obtain rfl := (HostRun.toHostAll_looks m.params values).eq_of_ok hfitted
    refine (bind_of_ok (readProperty_final hl hi hu ho)).trans ?_
    cases hmethod : w'.heap.methodOf? script name with
    | some method => rfl
    | none => exact callMethod_final hl hi hu ho hmethod hlength hfitted

/-- A `Sketch` whose class has a method `id`, of a `Canvas` that has a final one. -/
def sketchOfFinal : World :=
  sketched [⟨"id", [], .int, .final, .constant (.int 7)⟩] [("id", ⟨0⟩)]

/-- The final method answers the host, and the method that hides it answers a script. -/
theorem final_method_answers_host :
    callVirtual Evaluation.calls ⟨1⟩ "id" [] sketchOfFinal = .ok (.int 7) sketchOfFinal ∧
    scriptCall Evaluation.calls ⟨1⟩ "id" [] sketchOfFinal =
      Evaluation.callFunction Evaluation.calls ⟨0⟩ (some (.host ⟨1⟩)) [] sketchOfFinal := by
  obtain ⟨hl, hi⟩ := sketched_isInstance _ _
  obtain ⟨hhost, hscript⟩ := @final_method_answers Evaluation.calls sketchOfFinal ⟨1⟩ ⟨0⟩ ⟨1⟩ "id"
    ⟨"id", [], .int, .final, .constant (.int 7)⟩ hl.layered hi ⟨rfl, rfl, rfl, rfl, rfl⟩ ⟨rfl, rfl⟩
  exact ⟨hhost [] [] rfl rfl, hscript [] [] _ rfl rfl⟩

end Host

end ScriptEngine
