import ScriptEngine.Proofs.Steps
import ScriptEngine.Evaluation.Invoke
/-!
# Classes made for script classes

The extension made for a script class has the host class it extends behind it, and in front of that
one overridable method for each name and number of parameters. What a call of the host selects on an
instance is read off these two lists.

* `Heap.Layered`, `Heap.Layered.allMethods_of_superclass` : host classes were made after those they
  extend.
* `Heap.mostDerived?`, `Heap.methodsNamed_extension` : the overloads of a call on an instance.
* `Heap.Bare` : script classes that override nothing.
* `Host.IsInstance` : the instances of a script class.
* `Host.selected?`, `Host.callVirtual_eq` : which method a call of the host runs.
* `Host.invokeMethod_slotOf_some`, `Host.invokeMethod_slotOf_none` : what stands in for a method.
-/

namespace ScriptEngine

namespace Heap

variable {h : Heap} {cls base : HostClassId} {script : ClassId} {name : String} {arity : Nat}

/-! ## Chains of host classes -/

/-- Every host class was made after the class it extends. -/
def Layered (h : Heap) : Prop :=
  ∀ cls base, (h.hostClass cls).superclass = some base → base.index < cls.index

/-- Looking at more levels than a chain can have changes nothing. -/
theorem Layered.ancestryFrom_eq (hl : h.Layered) :
    ∀ {n m : Nat} {cls : HostClassId}, cls.index < n → cls.index < m →
      h.ancestryFrom n cls = h.ancestryFrom m cls
  | n + 1, m + 1, cls, hn, hm => by
    unfold ancestryFrom
    cases hs : (h.hostClass cls).superclass with
    | none => rfl
    | some base =>
      have hbase := hl cls base hs
      exact congrArg (cls :: ·) (hl.ancestryFrom_eq (by omega) (by omega))

theorem Layered.ancestry_of_superclass (hl : h.Layered)
    (hs : (h.hostClass cls).superclass = some base) : h.ancestry cls = cls :: h.ancestry base := by
  rw [ancestry, ancestryFrom, hs]
  exact congrArg (cls :: ·) (hl.ancestryFrom_eq (hl cls base hs) (Nat.lt_succ_self _))

/-- The methods of a class come before those of the class it extends. -/
theorem Layered.allMethods_of_superclass (hl : h.Layered)
    (hs : (h.hostClass cls).superclass = some base) :
    h.allMethods cls = (h.hostClass cls).methods ++ h.allMethods base := by
  unfold allMethods
  rw [hl.ancestry_of_superclass hs, List.flatMap_cons]

/-! ## Overridable methods -/

/-- The method that a script class stands in for when it overrides: the most derived overridable one
of the name with so many parameters. -/
def mostDerived? (h : Heap) (base : HostClassId) (name : String) (arity : Nat) :
    Option HostMethod :=
  (h.methodsNamed base name arity false).find? (·.kind == .virtual)

theorem filter_firstOfEach (seen : List (String × Nat)) (ms : List HostMethod) :
    (firstOfEach seen ms).filter (fun m => m.name == name && m.params.length == arity) =
      if (name, arity) ∈ seen then []
      else (ms.find? fun m => m.name == name && m.params.length == arity).toList := by
  induction ms generalizing seen with
  | nil => simp [firstOfEach]
  | cons m ms ih =>
    unfold firstOfEach
    by_cases hkey : m.name = name ∧ m.params.length = arity
    · obtain ⟨rfl, rfl⟩ := hkey
      by_cases hseen : (m.name, m.params.length) ∈ seen
      · simp [hseen, ih]
      · simp [hseen, ih]
    · have hne : (m.name == name && m.params.length == arity) = false := by simpa using hkey
      have hpair : (name, arity) ≠ (m.name, m.params.length) := by
        rintro ⟨⟩
        exact hkey ⟨rfl, rfl⟩
      by_cases hseen : (m.name, m.params.length) ∈ seen
      · simp [hseen, ih, hne]
      · simp [hseen, ih, hne, hpair]

/-- The methods of a call that a script class may override are the most derived one alone. -/
theorem filter_virtualMethods :
    (h.virtualMethods base).filter (fun m => m.name == name && m.params.length == arity) =
      (h.mostDerived? base name arity).toList := by
  unfold virtualMethods mostDerived? methodsNamed
  rw [filter_firstOfEach, if_neg (by simp), List.find?_filter, List.find?_filter]
  congr 2
  funext m
  cases hkind : m.kind <;> simp [HostMethod.isStatic, hkind]

theorem methodsNamed_extension (hl : h.Layered)
    (hcls : h.hostClass cls = Host.extensionTable h script base) :
    h.methodsNamed cls name arity false =
      ((h.mostDerived? base name arity).map (Host.slotOf h script)).toList ++
        h.methodsNamed base name arity false := by
  have hs : (h.hostClass cls).superclass = some base := by rw [hcls]; rfl
  have hslots : ((h.virtualMethods base).map (Host.slotOf h script)).filter (fun m =>
      m.name == name && m.params.length == arity && m.isStatic == false) =
      ((h.mostDerived? base name arity).map (Host.slotOf h script)).toList := by
    rw [List.filter_map]
    have hslot : ((fun m : HostMethod => m.name == name && m.params.length == arity &&
        m.isStatic == false) ∘ Host.slotOf h script) =
        fun m => m.name == name && m.params.length == arity := by
      funext m
      simp [Host.slotOf, HostMethod.isStatic]
    rw [hslot, filter_virtualMethods]
    cases h.mostDerived? base name arity <;> rfl
  unfold methodsNamed
  rw [hl.allMethods_of_superclass hs, List.filter_append, hcls]
  exact congrArg (· ++ _) hslots

/-! ## Classes that override nothing -/

theorem searchClasses_eq_none {α β : Type} {f : ScriptClass → Option α} {g : ScriptClass → Option β}
    (hfg : ∀ c, f c = none → g c = none) :
    ∀ {levels : Nat} {script : ClassId}, h.searchClasses f levels script = none →
      h.searchClasses g levels script = none
  | 0, _, _ => rfl
  | levels + 1, script, hf => by
    unfold searchClasses at hf ⊢
    cases hc : h.scriptClass? script with
    | none => rfl
    | some c =>
      simp only [hc, Option.bind_eq_bind, Option.bind_some] at hf ⊢
      cases hfc : f c with
      | some a => rw [hfc] at hf; cases hf
      | none =>
        rw [hfc] at hf
        rw [hfg c hfc]
        cases hs : c.superclass with
        | none => rfl
        | some super =>
          simp only [hs, Option.bind_some] at hf ⊢
          exact searchClasses_eq_none hfg hf

/-- Neither the script class nor one that it extends has a method or a static block. -/
def Bare (h : Heap) (script : ClassId) : Prop :=
  h.searchClasses (fun c => if c.methods.isEmpty && c.staticBlock.isNone then none else some c)
    (script.index + 1) script = none

theorem Bare.methodOf?_eq (hb : h.Bare script) (name : String) :
    h.methodOf? script name = none := by
  refine searchClasses_eq_none (fun c hc => ?_) hb
  split at hc
  · rename_i hempty
    rw [Bool.and_eq_true, List.isEmpty_iff] at hempty
    rw [hempty.1]
    rfl
  · cases hc

theorem Bare.staticBlock_eq (hb : h.Bare script) :
    (h.scriptClass? script).bind (·.staticBlock) = none := by
  unfold Bare searchClasses at hb
  cases hc : h.scriptClass? script with
  | none => rfl
  | some c =>
    simp only [hc, Option.bind_eq_bind, Option.bind_some] at hb ⊢
    by_cases hempty : (c.methods.isEmpty && c.staticBlock.isNone) = true
    · rw [Bool.and_eq_true, Option.isNone_iff_eq_none] at hempty
      exact hempty.2
    · rw [if_neg hempty] at hb
      cases hb

end Heap

namespace HostRun

theorem natural_looks (v : Value) : (natural v).Looks := by
  intro w
  unfold natural
  cases w.heap.naturalWithin (w.heap.containers + 1) v with
  | ok d => rfl
  | error e => cases e <;> trivial

theorem toHost_looks (type : HostType) (v : Value) : (toHost type v).Looks := by
  refine .bind (natural_looks v) fun d => .bind (.read _) fun fitted => ?_
  cases fitted with
  | ok d => exact .pure d
  | error e => exact .raise e

theorem toHostAll_looks (types : List HostType) (args : List Value) :
    (toHostAll types args).Looks :=
  .collect (fun _ => toHost_looks _ _) _

end HostRun

namespace Host

open Run

variable {again : Calls} {w : World} {this : HostId} {script : ClassId} {base : HostClassId}
  {name : String} {args : List HostData}

/-! ## Instances -/

/-- The object is an instance of a script class that extends the host class `base`: its host class
is the extension made for the script class, and a script class without a static block bakes nothing
into it. -/
structure IsInstance (h : Heap) (this : HostId) (script : ClassId) (base : HostClassId) : Prop where
  parts : ∃ cls inner object, h.hostObject this = .extended cls inner object ∧
    h.hostClass cls = extensionTable h script base ∧ (h.object object).cls = some script ∧
    ((h.scriptClass? script).bind (·.staticBlock) = none → (h.object object).baked = [])

namespace IsInstance

variable {h : Heap}

theorem classOf_eq (hi : IsInstance h this script base) :
    h.hostClass (h.classOf this) = extensionTable h script base := by
  obtain ⟨cls, inner, object, hthis, hcls, -⟩ := hi.parts
  rw [Heap.classOf, hthis]
  exact hcls

theorem scriptMethod?_eq (hi : IsInstance h this script base) (name : String) :
    scriptMethod? h this name = h.methodOf? script name := by
  obtain ⟨cls, inner, object, hthis, -, hobject, -⟩ := hi.parts
  simp [scriptMethod?, scriptObject?, hthis, hobject]

/-- Nothing is baked into the instances of a class without a static block. -/
theorem baked?_eq (hi : IsInstance h this script base)
    (hstatic : (h.scriptClass? script).bind (·.staticBlock) = none) (name : String) :
    baked? h this name = none := by
  obtain ⟨cls, inner, object, hthis, -, -, hbaked⟩ := hi.parts
  simp [baked?, scriptObject?, hthis, hbaked hstatic, Fields.get?]

theorem isSome_scriptObject? (hi : IsInstance h this script base) :
    (scriptObject? h this).isSome := by
  obtain ⟨cls, inner, object, hthis, -⟩ := hi.parts
  rw [scriptObject?, hthis]
  rfl

/-- The method that stands in for the most derived one comes before those of the host class. -/
theorem methodsNamed_eq (hi : IsInstance h this script base) (hl : h.Layered) (arity : Nat) :
    h.methodsNamed (h.classOf this) name arity false =
      ((h.mostDerived? base name arity).map (slotOf h script)).toList ++
        h.methodsNamed base name arity false :=
  Heap.methodsNamed_extension hl hi.classOf_eq

end IsInstance

/-! ### Plain objects -/

section Plain

variable {h : Heap} {slots : List (String × HostData)}
  (hplain : h.hostObject this = .plain base slots)
include hplain

theorem classOf_plain : h.classOf this = base := by
  rw [Heap.classOf, hplain]

theorem baked?_plain (name : String) : baked? h this name = none := by
  simp [baked?, scriptObject?, hplain]

theorem scriptMethod?_plain (name : String) : scriptMethod? h this name = none := by
  simp [scriptMethod?, scriptObject?, hplain]

end Plain

/-! ## Calls of the host -/

/-- The method that a call of the host runs, with the arguments fitted to its parameters. -/
def selected? (h : Heap) (cls : HostClassId) (name : String) (args : List HostData) :
    Option (HostMethod × List HostData) :=
  firstHostFit h args (h.methodsNamed cls name args.length false)

/-- The error of a call that nothing answers. -/
def unanswered (h : Heap) (cls : HostClassId) (name : String) (args : List HostData) : HostError :=
  if (h.methodsNamed cls name args.length false).isEmpty then
    .methodNotFound (h.hostClass cls).name name args.length
  else .noMatchingOverload name (String.intercalate ", " (args.map HostData.typeName))

/-- Calls a script method on an object for the host, and fits what it returns to a type. -/
def answerBy (again : Calls) (method : FunctionId) (this : HostId) (args : List HostData)
    (returns : HostType) : HostRun HostData := do
  let values ← Run.collect Run.fromHost args
  let result ← HostRun.ofScript (Evaluation.callFromHost again method (.host this) values)
  if returns == .void then return .null else HostRun.toHost returns result

/-- A value that a script method has returned is fitted, and nothing else happens. -/
theorem answerBy_of_returned {method : FunctionId} {returns : HostType} {values : List Value}
    {v : Value} {w₁ w₂ : World}
    (hvalues : (Run.collect Run.fromHost args : HostRun _) w = .ok values w₁)
    (hreturned : HostRun.ofScript (Evaluation.callFromHost again method (.host this) values) w₁ =
      .ok v w₂) :
    answerBy again method this args returns w =
      if returns = .void then .ok .null w₂ else HostRun.toHost returns v w₂ := by
  refine (bind_of_ok hvalues).trans ((bind_of_ok hreturned).trans ?_)
  by_cases hvoid : returns = .void
  · rw [if_pos hvoid, if_pos (beq_iff_eq.mpr hvoid)]
    rfl
  · rw [if_neg hvoid, if_neg (mt beq_iff_eq.mp hvoid)]

theorem invokeScript_eq {method : FunctionId} (hm : scriptMethod? w.heap this name = some method)
    (returns : HostType) :
    invokeScript again this name args returns w = answerBy again method this args returns w := by
  unfold invokeScript
  exact bind_of_ok (read_of_eq (f := fun w => scriptMethod? w.heap this name) hm)

/-- Where nothing is baked in under the name, looking for it makes no difference. -/
theorem ite_baked_eq {ε α : Type} {c : Bool} (hbaked : baked? w.heap this name = none)
    (rest : Option Value → Run ε α) :
    (if c then Run.read (fun w => baked? w.heap this name) >>= rest else pure none >>= rest) w =
      rest none w := by
  cases c with
  | false => rfl
  | true => exact bind_of_ok (read_of_eq hbaked)

/-- The value baked in under the name of a call without arguments, which answers the call. -/
def bakedAnswer? {α : Type} (h : Heap) (this : HostId) (name : String) (args : List α) :
    Option Value :=
  if args.isEmpty then baked? h this name else none

theorem bakedAnswer?_eq_none {α : Type} (hbaked : baked? w.heap this name = none) (args : List α) :
    bakedAnswer? w.heap this name args = none := by
  unfold bakedAnswer?
  rw [hbaked, ite_self]

/-- A baked value answers the call or not whatever its arguments are, if there are as many. -/
theorem bakedAnswer?_congr {α β : Type} {args : List α} {args' : List β} {h : Heap}
    (hlength : args.length = args'.length) (name : String) :
    bakedAnswer? h this name args = bakedAnswer? h this name args' := by
  unfold bakedAnswer?
  cases args with
  | nil => rw [List.eq_nil_of_length_eq_zero hlength.symm]; rfl
  | cons a args =>
    cases args' with
    | nil => cases hlength
    | cons => rfl

/-- Looking for a value that answers a call changes nothing. -/
theorem ite_bakedAnswer_eq {ε α β : Type} {args : List α} (rest : Option Value → Run ε β) :
    (if args.isEmpty then Run.read (fun w => baked? w.heap this name) >>= rest
      else pure none >>= rest) w = rest (bakedAnswer? w.heap this name args) w := by
  cases args <;> rfl

/-- Where no baked value answers, the selected method runs. -/
theorem callVirtual_behind_eq (hbaked : bakedAnswer? w.heap this name args = none) :
    callVirtual again this name args w =
      match selected? w.heap (w.heap.classOf this) name args with
      | some (m, fitted) => invokeMethod again m (some this) fitted w
      | none =>
        match scriptMethod? w.heap this name with
        | some method => answerBy again method this args .any w
        | none => .error (unanswered w.heap (w.heap.classOf this) name args) w := by
  refine (ite_bakedAnswer_eq _).trans ?_
  rw [hbaked]
  generalize hselected : selected? w.heap (w.heap.classOf this) name args = selected
  refine (bind_of_ok rfl).trans ((bind_of_ok rfl).trans ?_)
  refine (bind_of_ok (read_of_eq hselected)).trans ?_
  cases selected with
  | some found => rfl
  | none =>
    generalize hmethod : scriptMethod? w.heap this name = method
    refine (bind_of_ok (read_of_eq hmethod)).trans ?_
    cases method with
    | some method => exact invokeScript_eq hmethod .any
    | none =>
      unfold unanswered
      simp only [Option.isSome_none, Bool.false_eq_true, if_false]
      by_cases hempty : (w.heap.methodsNamed (w.heap.classOf this) name args.length false).isEmpty
      · rw [if_pos hempty, if_pos hempty]
        rfl
      · rw [if_neg hempty, if_neg hempty]
        rfl

/-- Where nothing is baked in under the name, the selected method runs. -/
theorem callVirtual_eq (hbaked : baked? w.heap this name = none) :
    callVirtual again this name args w =
      match selected? w.heap (w.heap.classOf this) name args with
      | some (m, fitted) => invokeMethod again m (some this) fitted w
      | none =>
        match scriptMethod? w.heap this name with
        | some method => answerBy again method this args .any w
        | none => .error (unanswered w.heap (w.heap.classOf this) name args) w :=
  callVirtual_behind_eq (bakedAnswer?_eq_none hbaked args)

theorem callVirtual_of_selected {m : HostMethod} {fitted : List HostData}
    (hbaked : baked? w.heap this name = none)
    (hselected : selected? w.heap (w.heap.classOf this) name args = some (m, fitted)) :
    callVirtual again this name args w = invokeMethod again m (some this) fitted w := by
  rw [callVirtual_eq hbaked, hselected]

theorem callVirtual_of_unselected (hbaked : baked? w.heap this name = none)
    (hselected : selected? w.heap (w.heap.classOf this) name args = none)
    (hscript : scriptMethod? w.heap this name = none) :
    callVirtual again this name args w =
      .error (unanswered w.heap (w.heap.classOf this) name args) w := by
  rw [callVirtual_eq hbaked, hselected, hscript]

/-! ### What stands in for a method -/

variable {m : HostMethod} {method : FunctionId}

/-- What a script method returns is already fitted to the type. -/
theorem answerBy_bind_void (returns : HostType) :
    (answerBy again method this args returns >>= fun d =>
      pure (if returns == .void then .null else d)) = answerBy again method this args returns := by
  unfold answerBy
  cases returns == .void with
  | false => simp
  | true => simp

/-- A script class that has no method of the name leaves the one it extends as it is. -/
theorem invokeMethod_slotOf_none (hbaked : baked? w.heap this m.name = none)
    (hmethod : w.heap.methodOf? script m.name = none) :
    invokeMethod again (slotOf w.heap script m) (some this) args w =
      invokeMethod again m (some this) args w := by
  refine bind_congr_at _ ?_
  rw [slotOf, hmethod]
  exact (ite_baked_eq hbaked _).trans (bind_of_ok rfl)

/-- Where no baked value answers, a script class that has a method of the name answers with it. -/
theorem invokeMethod_slotOf_behind (hi : IsInstance w.heap this script base)
    (hbaked : bakedAnswer? w.heap this m.name args = none)
    (hmethod : w.heap.methodOf? script m.name = some method) :
    invokeMethod again (slotOf w.heap script m) (some this) args w =
      answerBy again method this args m.returns w := by
  have hbody : runBody again (some this) args (slotOf w.heap script m).body w =
      answerBy again method this args m.returns w := by
    rw [slotOf, hmethod]
    refine (ite_bakedAnswer_eq _).trans ?_
    rw [hbaked]
    refine (bind_of_ok (read_of_eq hi.isSome_scriptObject?)).trans ?_
    exact invokeScript_eq ((hi.scriptMethod?_eq m.name).trans hmethod) m.returns
  rw [← answerBy_bind_void m.returns]
  exact bind_congr_at _ hbody

/-- A script class that has a method of the name answers with it. -/
theorem invokeMethod_slotOf_some (hi : IsInstance w.heap this script base)
    (hbaked : baked? w.heap this m.name = none)
    (hmethod : w.heap.methodOf? script m.name = some method) :
    invokeMethod again (slotOf w.heap script m) (some this) args w =
      answerBy again method this args m.returns w :=
  invokeMethod_slotOf_behind hi (bakedAnswer?_eq_none hbaked args) hmethod

end Host

end ScriptEngine
