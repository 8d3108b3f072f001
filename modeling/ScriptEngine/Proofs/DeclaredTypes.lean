import ScriptEngine.Proofs.Candidates
import ScriptEngine.Proofs.HostReads
/-!
# What scripts answer the host

A host method declares the type of what it returns. Where a script class stands in for it, what a
script method returns is fitted to that type, or the call fails. A value that a static block has
baked in answers before the stand-in is asked, and keeps its own shape, whatever the host method
declares.

* `Host.OnlyVirtual` : a host method without overloads that may be overridden.
* `Host.answerBy_fits` : the answers of a script method.
* `Host.callVirtual_of_baked` : the answer of a baked value.
* **`Host.script_answers_declared`** : all answers of a script.
* `Host.size_of_sketch` : a baked text where the host declares an integer.

The stand-in is the slot of an overridable method (`slot`), called by the host (`call_virtual`).
What a script gets from its own method is not fitted to any type, and out of scope here.
-/

namespace ScriptEngine

open Run

namespace Heap

variable {h : Heap} {d : HostData}

/-- Where nothing is to be returned, null alone fits. -/
theorem Fits.eq_null (hd : h.Fits .void d) : d = .null := by
  cases hd
  rfl

end Heap

theorem HostRun.fits_of_toHost {type : HostType} {v : Value} {d : HostData} {w w' : World}
    (hd : toHost type v w = .ok d w') : w'.heap.Fits type d := by
  have hfitted := Fitted.toHost (w := w) type v
  rw [hd] at hfitted
  cases hfitted with
  | ok hfits => exact hfits

namespace Host

variable {again : Calls} {w : World} {this : HostId} {script : ClassId} {base : HostClassId}
  {m : HostMethod} {method : FunctionId} {args fitted : List HostData} {returns : HostType}

/-! ## Script methods -/

/-- What a script method answers is of the type it is fitted to. -/
theorem answerBy_fits {d : HostData} {w' : World}
    (hd : answerBy again method this args returns w = .ok d w') : w'.heap.Fits returns d := by
  obtain ⟨values, w₁, -, hd⟩ := ok_of_bind hd
  obtain ⟨v, w₂, -, hd⟩ := ok_of_bind hd
  by_cases hvoid : returns = .void
  · rw [if_pos (beq_iff_eq.mpr hvoid)] at hd
    cases hd
    exact .null returns
  · rw [if_neg (mt beq_iff_eq.mp hvoid)] at hd
    exact HostRun.fits_of_toHost hd

/-! ## Baked values -/

/-- A value baked in under the name of a call without arguments answers it, in its own shape. -/
theorem callVirtual_of_baked {name : String} {v : Value}
    (hbaked : bakedAnswer? w.heap this name args = some v) :
    callVirtual again this name args w = HostRun.toHost .any v w := by
  refine (ite_bakedAnswer_eq _).trans ?_
  rw [hbaked]

/-! ## A method without overloads -/

/-- The host class has or inherits no other method of instances of that name with so many
parameters, and this one may be overridden. -/
structure OnlyVirtual (h : Heap) (base : HostClassId) (m : HostMethod) : Prop where
  only : h.methodsNamed base m.name m.params.length false = [m]
  overridable : m.kind = .virtual

theorem OnlyVirtual.mostDerived?_eq {h : Heap} (ho : OnlyVirtual h base m) :
    h.mostDerived? base m.name m.params.length = some m := by
  unfold Heap.mostDerived?
  rw [ho.only]
  exact List.find?_cons_of_pos (beq_iff_eq.mpr ho.overridable)

/-- Where a call that the host method accepts is not answered by a baked value, the script method of
its name answers it. -/
theorem callVirtual_of_overridden (hl : w.heap.Layered) (hi : IsInstance w.heap this script base)
    (ho : OnlyVirtual w.heap base m) (hlength : args.length = m.params.length)
    (haccepts : Accepts w.heap m args fitted)
    (hbaked : bakedAnswer? w.heap this m.name args = none)
    (hmethod : w.heap.methodOf? script m.name = some method) :
    callVirtual again this m.name args w = answerBy again method this fitted m.returns w := by
  have hmost : w.heap.mostDerived? base m.name args.length = some m := by
    rw [hlength]
    exact ho.mostDerived?_eq
  have hfitted : args.length = fitted.length := by
    rw [hlength]
    exact (Heap.fits_of_coerceAll hlength.symm haccepts).length_eq
  rw [callVirtual_behind_eq hbaked, hi.selected?_of_accepts hl hmost haccepts]
  rw [bakedAnswer?_congr hfitted] at hbaked
  exact invokeMethod_slotOf_behind hi hbaked hmethod

/-- **What scripts answer the host.** On an instance of a script class a call of the host comes in
for a host method without overloads that may be overridden and that accepts the arguments.

If a value is baked in under its name and there are no arguments, it answers in its own shape, and
the declared type is not asked. Otherwise, if the script class has a method of that name, every
answer is null or of the declared type, and null alone where nothing is to be returned. What the
script method has returned is fitted to that type: if it does not convert, that is the error of the
call. -/
theorem script_answers_declared (hl : w.heap.Layered) (hi : IsInstance w.heap this script base)
    (ho : OnlyVirtual w.heap base m) (hlength : args.length = m.params.length)
    (haccepts : Accepts w.heap m args fitted) :
    (∀ v, bakedAnswer? w.heap this m.name args = some v →
      callVirtual again this m.name args w = HostRun.toHost .any v w) ∧
    (bakedAnswer? w.heap this m.name args = none →
      ∀ method, w.heap.methodOf? script m.name = some method →
        callVirtual again this m.name args w = answerBy again method this fitted m.returns w ∧
        (∀ d w', callVirtual again this m.name args w = .ok d w' →
          w'.heap.Fits m.returns d ∧ (m.returns = .void → d = .null)) ∧
        (∀ values v w₁ w₂,
          (Run.collect Run.fromHost fitted : HostRun _) w = .ok values w₁ →
          HostRun.ofScript (Evaluation.callFromHost again method (.host this) values) w₁ =
            .ok v w₂ →
          callVirtual again this m.name args w =
            if m.returns = .void then .ok .null w₂ else HostRun.toHost m.returns v w₂)) := by
  refine ⟨fun v hv => callVirtual_of_baked hv, fun hbaked method hmethod => ?_⟩
  have hcall : callVirtual again this m.name args w =
      answerBy again method this fitted m.returns w :=
    callVirtual_of_overridden hl hi ho hlength haccepts hbaked hmethod
  refine ⟨hcall, fun d w' hd => ?_, fun values v w₁ w₂ hvalues hreturned => ?_⟩
  · have hfits : w'.heap.Fits m.returns d := answerBy_fits (hcall.symm.trans hd)
    exact ⟨hfits, fun hvoid => (hvoid ▸ hfits).eq_null⟩
  · exact hcall.trans (answerBy_of_returned hvalues hreturned)

/-! ## A size -/

/-- The getter of a size that a host class declares as an integer. -/
def sizeGetter : HostMethod := ⟨"getSize", [], .int, .virtual, .constant (.int 7)⟩

/-- A `Sketch` with the text `big` baked in as its size, and a `Canvas` whose size is an integer. -/
def bakedSketch : World :=
  let w := sketched [sizeGetter] []
  { w with heap := { w.heap with
    classes := #[⟨"Sketch", [], none, some ⟨1⟩, some [], some ⟨2⟩⟩]
    objects := #[⟨some ⟨0⟩, [], [("getSize", .string "big")]⟩] } }

theorem bakedSketch_isInstance :
    bakedSketch.heap.Layered ∧ IsInstance bakedSketch.heap ⟨1⟩ ⟨0⟩ ⟨1⟩ := by
  obtain ⟨hl, -⟩ := sketched_isInstance [sizeGetter] []
  exact ⟨hl.layered, ⟨_, _, _, rfl, rfl, rfl, nofun⟩⟩

/-- The size that a script method returns is refused if it is no number, and a baked one is not. -/
theorem size_of_sketch :
    (∃ w', callVirtual Evaluation.calls ⟨1⟩ "getSize" [] (sketchOfSize .int) =
      .error (.conversion "bool" "int") w') ∧
    callVirtual Evaluation.calls ⟨1⟩ "getSize" [] bakedSketch = .ok (.string "big") bakedSketch ∧
    ¬ bakedSketch.heap.Fits .int (.string "big") := by
  refine ⟨?_, ?_, nofun⟩
  · have hi := sketchOfSize_bakedInstance .int
    obtain ⟨-, hmethod⟩ := @script_answers_declared Evaluation.calls _ ⟨1⟩ ⟨0⟩ ⟨1⟩ sizeGetter [] []
      hi.layered hi.toIsInstance ⟨rfl, rfl⟩ rfl rfl
    obtain ⟨-, -, hreturned⟩ := hmethod rfl ⟨0⟩ rfl
    exact ⟨_, (hreturned [] (.bool true) _ _ rfl rfl).trans rfl⟩
  · obtain ⟨hl, hi⟩ := bakedSketch_isInstance
    obtain ⟨hbaked, -⟩ := @script_answers_declared Evaluation.calls _ ⟨1⟩ ⟨0⟩ ⟨1⟩ sizeGetter [] []
      hl hi ⟨rfl, rfl⟩ rfl rfl
    exact hbaked (.string "big") rfl

end Host

end ScriptEngine
