import ScriptEngine.Proofs.Extensions
/-!
# Making instances of script classes

The extension of a script class is made with its first instance and kept. It stays what it would be
made into now: host classes and script classes only become more, and of a script class nothing
changes but that it gets its extension.

* `Heap.Linked` : classes refer to classes that were made, and extensions are those of their
  classes.
* `Heap.Keeps`, `Heap.Keeps.extensionTable_eq` : what a heap that grows still has.
* `Host.IsInstance.of_keeps` : an instance stays one.
* `Host.extensionOf_linked` : the extension of a class, whether there was one or not.
* `Evaluation.isInstance_newOf` : what a script makes of a class that extends a host class is an
  instance of it.
* `Host.sketched` : the state after a script made an instance, for any methods of the two classes.
-/

namespace ScriptEngine

/-- The same code lies in both heaps; scopes, lists, objects and host objects may differ. -/
structure Heap.SameCode (h h' : Heap) : Prop where
  functions : h'.functions = h.functions
  natives : h'.natives = h.natives
  classes : h'.classes = h.classes
  hostClasses : h'.hostClasses = h.hostClasses

theorem Heap.SameCode.trans {h h' h'' : Heap} (a : h.SameCode h') (b : h'.SameCode h'') :
    h.SameCode h'' :=
  ⟨b.functions.trans a.functions, b.natives.trans a.natives, b.classes.trans a.classes,
    b.hostClasses.trans a.hostClasses⟩

namespace Heap

variable {h h' : Heap} {script : ClassId} {base : HostClassId}

/-- The host class was made. -/
def Has (h : Heap) (cls : HostClassId) : Prop := cls.index < h.hostClasses.size

/-- The classes of a heap refer to such as were made before, and an extension that was made is the
one that would be made now. -/
structure Linked (h : Heap) : Prop where
  layered : h.Layered
  superclass : ∀ script c super, h.scriptClass? script = some c → c.superclass = some super →
    (h.scriptClass? super).isSome
  hostBase : ∀ script c base, h.scriptClass? script = some c → c.hostBase = some base → h.Has base
  extension : ∀ script c cls, h.scriptClass? script = some c → c.extension = some cls →
    h.Has cls ∧ ∃ base, h.hostBase? script = some base ∧
      h.hostClass cls = Host.extensionTable h script base

/-- What is in the first heap is in the second one too, up to the extensions of script classes. -/
structure Keeps (h h' : Heap) : Prop where
  has : ∀ cls, h.Has cls → h'.Has cls
  hostClass : ∀ cls, h.Has cls → h'.hostClass cls = h.hostClass cls
  scriptClass : ∀ script c, h.scriptClass? script = some c →
    ∃ extension, h'.scriptClass? script = some { c with extension }

/-- A class that extends another one was made. -/
theorem has_of_superclass {cls : HostClassId} (hs : (h.hostClass cls).superclass = some base) :
    h.Has cls := by
  unfold Has
  refine Decidable.byContradiction fun hcls => ?_
  simp [hostClass, Array.getD, hcls] at hs

theorem Keeps.refl (h : Heap) : h.Keeps h :=
  ⟨fun _ hcls => hcls, fun _ _ => rfl, fun _ c hc => ⟨c.extension, hc⟩⟩

theorem searchClasses_found {α : Type} {f : ScriptClass → Option α} {a : α} :
    ∀ {levels : Nat} {script : ClassId}, h.searchClasses f levels script = some a →
      ∃ id c, h.scriptClass? id = some c ∧ f c = some a
  | levels + 1, script, hfound => by
    unfold searchClasses at hfound
    cases hc : h.scriptClass? script with
    | none => rw [hc] at hfound; cases hfound
    | some c =>
      simp only [hc, Option.bind_eq_bind, Option.bind_some] at hfound
      cases hf : f c with
      | some b =>
        rw [hf] at hfound
        exact ⟨script, c, hc, hf.trans hfound⟩
      | none =>
        simp only [hf] at hfound
        obtain ⟨super, -, hsuper⟩ := Option.bind_eq_some_iff.mp hfound
        exact searchClasses_found hsuper

/-- The host class that a script class extends was made. -/
theorem Linked.has_hostBase (hl : h.Linked) (hbase : h.hostBase? script = some base) :
    h.Has base := by
  obtain ⟨id, c, hc, hfound⟩ := searchClasses_found hbase
  exact hl.hostBase id c base hc hfound

theorem Layered.has_superclass (hl : h.Layered) {cls : HostClassId} (hcls : h.Has cls)
    (hs : (h.hostClass cls).superclass = some base) : h.Has base :=
  Nat.lt_trans (hl cls base hs) hcls

theorem isSome_scriptClass? (hbase : h.hostBase? script = some base) :
    (h.scriptClass? script).isSome := by
  unfold hostBase? searchClasses at hbase
  obtain ⟨c, hc, -⟩ := Option.bind_eq_some_iff.mp hbase
  rw [hc]
  rfl

namespace Keeps

variable (hk : h.Keeps h')
include hk

/-- A search that does not ask for extensions finds the same. -/
theorem searchClasses_eq {α : Type} {f : ScriptClass → Option α} (hl : h.Linked)
    (hf : ∀ c extension, f { c with extension } = f c) :
    ∀ {levels : Nat} {script : ClassId}, (h.scriptClass? script).isSome →
      h'.searchClasses f levels script = h.searchClasses f levels script
  | 0, _, _ => rfl
  | levels + 1, script, hscript => by
    obtain ⟨c, hc⟩ := Option.isSome_iff_exists.mp hscript
    obtain ⟨extension, hc'⟩ := hk.scriptClass script c hc
    unfold searchClasses
    rw [hc, hc']
    simp only [Option.bind_eq_bind, Option.bind_some, hf]
    cases f c with
    | some a => rfl
    | none =>
      cases hs : c.superclass with
      | none => rfl
      | some super => exact searchClasses_eq hl hf (hl.superclass script c super hc hs)

theorem allMethods_eq (hl : h.Layered) (hbase : h.Has base) :
    h'.allMethods base = h.allMethods base := by
  have hmethods : ∀ (levels : Nat) (cls : HostClassId), h.Has cls →
      (h'.ancestryFrom levels cls).flatMap (fun c => (h'.hostClass c).methods) =
        (h.ancestryFrom levels cls).flatMap (fun c => (h.hostClass c).methods) := by
    intro levels
    induction levels with
    | zero => exact fun _ _ => rfl
    | succ levels ih =>
      intro cls hcls
      unfold ancestryFrom
      rw [hk.hostClass cls hcls]
      cases hs : (h.hostClass cls).superclass with
      | none => simp [hk.hostClass cls hcls]
      | some super =>
        simp [hk.hostClass cls hcls, ih super (hl.has_superclass hcls hs)]
  exact hmethods _ base hbase

/-- The extension of a script class would be made alike. -/
theorem extensionTable_eq (hl : h.Linked) (hscript : (h.scriptClass? script).isSome)
    (hbase : h.Has base) :
    Host.extensionTable h' script base = Host.extensionTable h script base := by
  have hname : h'.className script = h.className script := by
    obtain ⟨c, hc⟩ := Option.isSome_iff_exists.mp hscript
    obtain ⟨extension, hc'⟩ := hk.scriptClass script c hc
    rw [className, className, hc, hc']
    rfl
  have hslot : Host.slotOf h' script = Host.slotOf h script := by
    funext m
    have hmethod : h'.methodOf? script m.name = h.methodOf? script m.name :=
      hk.searchClasses_eq hl (fun _ _ => rfl) hscript
    rw [Host.slotOf, Host.slotOf, hmethod]
  have hvirtual : h'.virtualMethods base = h.virtualMethods base := by
    rw [virtualMethods, virtualMethods, hk.allMethods_eq hl.layered hbase]
  rw [Host.extensionTable, Host.extensionTable, hname, hslot, hvirtual, hk.hostClass base hbase]

end Keeps

/-! ## The extension of a class -/

/-- The heap in which the script class has got its extension. -/
def withExtension (h : Heap) (script : ClassId) (base : HostClassId) : Heap :=
  { h with
    hostClasses := h.hostClasses.push (Host.extensionTable h script base)
    classes := h.classes.modify script.index fun c =>
      { c with extension := some ⟨h.hostClasses.size⟩ } }

section Extending

theorem hostClass_withExtension (cls : HostClassId) :
    (h.withExtension script base).hostClass cls =
      if cls.index = h.hostClasses.size then Host.extensionTable h script base
      else h.hostClass cls := by
  simp only [hostClass, withExtension, Array.getD_eq_getD_getElem?, Array.getElem?_push]
  split <;> rfl

theorem scriptClass?_withExtension (id : ClassId) :
    (h.withExtension script base).scriptClass? id =
      if id = script then
        (h.scriptClass? id).map fun c => { c with extension := some ⟨h.hostClasses.size⟩ }
      else h.scriptClass? id := by
  simp only [scriptClass?, withExtension, Array.getElem?_modify]
  by_cases hid : id = script
  · rw [if_pos hid, if_pos (by rw [hid])]
  · rw [if_neg hid, if_neg fun hindex => hid (by cases id; cases script; simp_all)]

theorem keeps_withExtension : h.Keeps (h.withExtension script base) where
  has cls hcls := by
    unfold Has Heap.withExtension at *
    rw [Array.size_push]
    exact Nat.lt_succ_of_lt hcls
  hostClass cls hcls := by
    rw [hostClass_withExtension, if_neg (Nat.ne_of_lt hcls)]
  scriptClass id c hc := by
    rw [scriptClass?_withExtension]
    split
    · exact ⟨some ⟨h.hostClasses.size⟩, by rw [hc]; rfl⟩
    · exact ⟨c.extension, hc⟩

/-- A class of the heap is one from before, or the one that got its extension. -/
theorem scriptClass?_withExtension_cases {id : ClassId} {c' : ScriptClass}
    (hc' : (h.withExtension script base).scriptClass? id = some c') :
    ∃ c, h.scriptClass? id = some c ∧
      (c' = c ∨ id = script ∧ c' = { c with extension := some ⟨h.hostClasses.size⟩ }) := by
  rw [scriptClass?_withExtension] at hc'
  split at hc'
  · next hid =>
    obtain ⟨c, hc, rfl⟩ := Option.map_eq_some_iff.mp hc'
    exact ⟨c, hc, .inr ⟨hid, rfl⟩⟩
  · exact ⟨c', hc', .inl rfl⟩

/-- The extension comes after all classes that were made, and is the one of its class. -/
theorem Linked.withExtension (hl : h.Linked) (hbase : h.hostBase? script = some base) :
    (h.withExtension script base).Linked := by
  have hk : h.Keeps (h.withExtension script base) := keeps_withExtension
  have hhostBase {id : ClassId} (hid : (h.scriptClass? id).isSome) :
      (h.withExtension script base).hostBase? id = h.hostBase? id :=
    hk.searchClasses_eq hl (fun _ _ => rfl) hid
  have hsuperclass {id c'} (hc' : (h.withExtension script base).scriptClass? id = some c') :
      ∃ c, h.scriptClass? id = some c ∧ c'.superclass = c.superclass ∧
        c'.hostBase = c.hostBase := by
    obtain ⟨c, hc, rfl | ⟨-, rfl⟩⟩ := scriptClass?_withExtension_cases hc' <;>
      exact ⟨_, hc, rfl, rfl⟩
  constructor
  case layered =>
    intro cls super hs
    rw [hostClass_withExtension] at hs
    split at hs
    · next hnew =>
      cases hs
      exact hnew ▸ hl.has_hostBase hbase
    · exact hl.layered cls super hs
  case superclass =>
    intro id c' super hc' hs
    obtain ⟨c, hc, hsuper, -⟩ := hsuperclass hc'
    obtain ⟨c, hc⟩ := Option.isSome_iff_exists.mp
      (hl.superclass id c super hc (hsuper.symm.trans hs))
    obtain ⟨extension, hc⟩ := hk.scriptClass super c hc
    rw [hc]
    rfl
  case hostBase =>
    intro id c' b hc' hb
    obtain ⟨c, hc, -, hhost⟩ := hsuperclass hc'
    exact hk.has b (hl.hostBase id c b hc (hhost.symm.trans hb))
  case extension =>
    intro id c' cls hc' hcls
    have hid : (h.scriptClass? id).isSome := by
      obtain ⟨c, hc, -⟩ := hsuperclass hc'
      rw [hc]
      rfl
    rw [hhostBase hid]
    obtain ⟨c, hc, rfl | ⟨rfl, rfl⟩⟩ := scriptClass?_withExtension_cases hc'
    · obtain ⟨hhas, b, hb, htable⟩ := hl.extension id c' cls hc hcls
      refine ⟨hk.has cls hhas, b, hb, ?_⟩
      rw [hk.hostClass cls hhas, htable, hk.extensionTable_eq hl hid (hl.has_hostBase hb)]
    · cases hcls
      refine ⟨?_, base, hbase, ?_⟩
      · simp [Has, Heap.withExtension]
      · rw [hostClass_withExtension, if_pos rfl,
          hk.extensionTable_eq hl hid (hl.has_hostBase hbase)]

end Extending

/-! ## Heaps with the same code -/

theorem SameCode.keeps (hs : h.SameCode h') : h.Keeps h' where
  has cls hcls := by
    rw [Has, hs.hostClasses]
    exact hcls
  hostClass cls _ := by rw [hostClass, hostClass, hs.hostClasses]
  scriptClass id c hc := ⟨c.extension, by rw [scriptClass?, hs.classes]; exact hc⟩

theorem SameCode.linked (hs : h.SameCode h') (hl : h.Linked) : h'.Linked := by
  have hhostClass cls : h'.hostClass cls = h.hostClass cls := by
    rw [hostClass, hostClass, hs.hostClasses]
  have hscriptClass id : h'.scriptClass? id = h.scriptClass? id := by
    rw [scriptClass?, scriptClass?, hs.classes]
  constructor
  case layered => exact fun cls super hsuper => hl.layered cls super (hhostClass cls ▸ hsuper)
  case superclass =>
    intro id c super hc hsuper
    rw [hscriptClass] at hc ⊢
    exact hl.superclass id c super hc hsuper
  case hostBase =>
    exact fun id c b hc hb => hs.keeps.has b (hl.hostBase id c b (hscriptClass id ▸ hc) hb)
  case extension =>
    intro id c cls hc hcls
    rw [hscriptClass] at hc
    obtain ⟨hcls, b, hb, htable⟩ := hl.extension id c cls hc hcls
    have hid := isSome_scriptClass? hb
    refine ⟨hs.keeps.has cls hcls, b, ?_, ?_⟩
    · exact (hs.keeps.searchClasses_eq hl (fun _ _ => rfl) hid).trans hb
    · rw [hhostClass, htable, hs.keeps.extensionTable_eq hl hid (hl.has_hostBase hb)]

end Heap

namespace Host

open Run

variable {w w' : World} {script : ClassId} {base : HostClassId} {args : List Value}

/-- An instance stays one as the heap grows and the fields of its script object change. -/
theorem IsInstance.of_keeps {h h' : Heap} {this : HostId} (hi : IsInstance h this script base)
    (hl : h.Linked) (hk : h.Keeps h') (hbase : h.hostBase? script = some base)
    (hthis : h'.hostObject this = h.hostObject this)
    (hobject : ∀ object, scriptObject? h this = some object →
      (h'.object object).cls = (h.object object).cls ∧
        (h'.object object).baked = (h.object object).baked) :
    IsInstance h' this script base := by
  obtain ⟨cls, inner, object, hthis₀, htable, hcls, hbaked⟩ := hi.parts
  have hscript := Heap.isSome_scriptClass? hbase
  obtain ⟨c, hc⟩ := Option.isSome_iff_exists.mp hscript
  obtain ⟨extension, hc'⟩ := hk.scriptClass script c hc
  obtain ⟨hcls', hbaked'⟩ := hobject object (by rw [scriptObject?, hthis₀])
  have hs : (h.hostClass cls).superclass = some base := by rw [htable]; rfl
  refine ⟨cls, inner, object, hthis.trans hthis₀, ?_, hcls'.trans hcls, fun hstatic => ?_⟩
  · rw [hk.hostClass cls (Heap.has_of_superclass hs), htable,
      hk.extensionTable_eq hl hscript (hl.has_hostBase hbase)]
  · rw [hbaked']
    rw [hc'] at hstatic
    refine hbaked ?_
    rw [hc]
    exact hstatic

/-- The extension of a class is the one that would be made now, whether it is made now or not. -/
theorem extensionOf_linked {cls : HostClassId} (hl : w.heap.Linked)
    (hbase : w.heap.hostBase? script = some base) (h : extensionOf script base w = .ok cls w') :
    w'.heap.Linked ∧ w.heap.Keeps w'.heap ∧ w'.heap.objects = w.heap.objects ∧
      w'.heap.hostClass cls = extensionTable w'.heap script base := by
  obtain ⟨c, hc⟩ := Option.isSome_iff_exists.mp (Heap.isSome_scriptClass? hbase)
  cases hcls : c.extension with
  | some made =>
    obtain ⟨-, b, hb, htable⟩ := hl.extension script c made hc hcls
    obtain rfl : b = base := Option.some.inj (hb.symm.trans hbase)
    have hsame : extensionOf script b w = .ok made w := by
      simp [extensionOf, Run.change, hc, hcls]
    cases hsame.symm.trans h
    exact ⟨hl, .refl _, rfl, htable⟩
  | none =>
    have hk : w.heap.Keeps (w.heap.withExtension script base) := Heap.keeps_withExtension
    have hnew : extensionOf script base w =
        .ok ⟨w.heap.hostClasses.size⟩ { w with heap := w.heap.withExtension script base } := by
      simp [extensionOf, Run.change, hc, hcls, Heap.addHostClass, Heap.withExtension]
    cases hnew.symm.trans h
    refine ⟨hl.withExtension hbase, hk, rfl, ?_⟩
    rw [Heap.hostClass_withExtension, if_pos rfl, hk.extensionTable_eq hl
      (Heap.isSome_scriptClass? hbase) (hl.has_hostBase hbase)]

theorem runConstructor_sameCode {c : HostConstructor} {fitted : List HostData} {inner : HostId}
    (h : runConstructor c fitted w = .ok inner w') :
    w.heap.SameCode w'.heap ∧ w'.heap.objects = w.heap.objects := by
  unfold runConstructor at h
  cases hfailure : c.failure with
  | some message => rw [hfailure] at h; cases h
  | none => rw [hfailure] at h; cases h; exact ⟨⟨rfl, rfl, rfl, rfl⟩, rfl⟩

theorem firstFit_looks {α : Type} (params : α → List HostType) (args : List Value) :
    ∀ ms : List α, (firstFit params args ms).Looks
  | [] => .pure none
  | m :: ms => by
    refine .bind (.attempt (HostRun.toHostAll_looks (params m) args)) fun fitted => ?_
    cases fitted with
    | ok fitted => exact .pure _
    | error e => exact firstFit_looks params args ms

/-- Making the host instance leaves code and script objects alone. -/
theorem constructBase_sameCode {inner : HostId} (h : constructBase base args w = .ok inner w') :
    w.heap.SameCode w'.heap ∧ w'.heap.objects = w.heap.objects := by
  obtain ⟨candidates, w₁, hread, h⟩ := ok_of_bind h
  cases hread
  obtain ⟨found, w₁, hfit, h⟩ := ok_of_bind h
  obtain rfl := (firstFit_looks _ _ _).eq_of_ok hfit
  cases found with
  | some found => exact runConstructor_sameCode h
  | none =>
    obtain ⟨default, w₂, hread, h⟩ := ok_of_bind h
    obtain rfl := (Looks.read _).eq_of_ok hread
    cases default with
    | some c => exact runConstructor_sameCode h
    | none => cases h

/-- A script object of the class becomes an instance. -/
theorem isInstance_extend {object : ObjectId} {this : HostId} (hl : w.heap.Linked)
    (hbase : w.heap.hostBase? script = some base)
    (hcls : (w.heap.object object).cls = some script)
    (hbaked : (w.heap.scriptClass? script).bind (·.staticBlock) = none →
      (w.heap.object object).baked = [])
    (h : extend script base object args w = .ok this w') :
    IsInstance w'.heap this script base ∧ w'.heap.Linked := by
  obtain ⟨cls, w₁, hextension, h⟩ := ok_of_bind h
  obtain ⟨hl₁, hk₁, hobjects₁, htable⟩ := extensionOf_linked hl hbase hextension
  obtain ⟨inner, w₂, hconstruct, hnew⟩ := ok_of_bind h
  obtain ⟨hs₂, hobjects₂⟩ := constructBase_sameCode hconstruct
  have hs : w₁.heap.SameCode w'.heap := by
    cases hnew
    exact hs₂.trans ⟨rfl, rfl, rfl, rfl⟩
  have hobject : w'.heap.object object = w.heap.object object := by
    cases hnew
    rw [Heap.object, Heap.object, ← hobjects₁, ← hobjects₂]
  have hthis : w'.heap.hostObject this = .extended cls inner object := by
    cases hnew
    simp [Heap.hostObject, Array.getD]
  obtain ⟨c, hc⟩ := Option.isSome_iff_exists.mp (Heap.isSome_scriptClass? hbase)
  obtain ⟨extension, hc₁⟩ := hk₁.scriptClass script c hc
  have hc' : w'.heap.scriptClass? script = some { c with extension } := by
    rw [Heap.scriptClass?, hs.classes]
    exact hc₁
  have htable' : w'.heap.hostClass cls = extensionTable w'.heap script base := by
    rw [Heap.hostClass, hs.hostClasses, hs.keeps.extensionTable_eq hl₁ (by rw [hc₁]; rfl)
      (hk₁.has base (hl.has_hostBase hbase))]
    exact htable
  refine ⟨⟨cls, inner, object, hthis, htable', hobject ▸ hcls, fun hstatic => ?_⟩, hs.linked hl₁⟩
  rw [hobject]
  rw [hc'] at hstatic
  refine hbaked ?_
  rw [hc]
  exact hstatic

end Host

namespace Evaluation

open Run

variable {w w' : World} {script : ClassId} {base : HostClassId} {args : List Value} {baked : Fields}
  {v : Value}

/-- **What is made of a class that extends a host class is an instance of it**, and what the heap
says of classes still holds together. -/
theorem isInstance_newOf (hl : w.heap.Linked) (hbase : w.heap.hostBase? script = some base)
    (hbaked : (w.heap.scriptClass? script).bind (·.staticBlock) = none → baked = [])
    (hv : newOf script baked args w = .ok v w') :
    ∃ this, v = .host this ∧ Host.IsInstance w'.heap this script base ∧ w'.heap.Linked := by
  obtain ⟨object, w₁, hobject, hv⟩ := ok_of_bind hv
  have hs : w.heap.SameCode w₁.heap := by
    cases hobject
    exact ⟨rfl, rfl, rfl, rfl⟩
  have hmade : w₁.heap.object object = ⟨some script, [], baked⟩ := by
    cases hobject
    simp [Heap.object, Array.getD]
  have hbase₁ : w₁.heap.hostBase? script = some base :=
    (hs.keeps.searchClasses_eq hl (fun _ _ => rfl) (Heap.isSome_scriptClass? hbase)).trans hbase
  obtain ⟨found, w₂, hfound, hv⟩ := ok_of_bind hv
  obtain rfl := (Looks.read _).eq_of_ok hfound
  obtain rfl : found = some base := (Outcome.ok.inj hfound).1.symm.trans hbase₁
  obtain ⟨this, w₃, hextend, hv⟩ := ok_of_bind hv
  cases hv
  refine ⟨this, rfl, Host.isInstance_extend (hs.linked hl) hbase₁ ?_ ?_ (ok_of_mapError hextend)⟩
  · rw [hmade]
  · rw [hmade, Heap.scriptClass?, hs.classes]
    exact hbaked

end Evaluation

/-! ## A canvas and a sketch -/

namespace Host

/-- A heap with the host class `Canvas`, its constructor and some methods, and the script class
`Sketch`, which extends it and has some methods of its own. -/
def canvasHeap (methods : List HostMethod) (own : List (String × FunctionId)) : Heap :=
  { Heap.initial with
    hostClasses := Heap.initial.hostClasses.push
      ⟨"Canvas", none, [⟨[], ⟨1⟩, [], none⟩], methods, [], [], none⟩
    classes := #[⟨"Sketch", own, none, some ⟨1⟩, none, none⟩] }

theorem canvasHeap_linked (methods : List HostMethod) (own : List (String × FunctionId)) :
    (canvasHeap methods own).Linked := by
  have hclass : ∀ id c, (canvasHeap methods own).scriptClass? id = some c →
      c = ⟨"Sketch", own, none, some ⟨1⟩, none, none⟩ := by
    rintro ⟨_ | n⟩ c hc
    · cases hc
      rfl
    · cases hc
  constructor
  case layered =>
    rintro ⟨_ | _ | n⟩ base hs
    all_goals cases hs
  case superclass =>
    intro id c super hc hs
    rw [hclass id c hc] at hs
    cases hs
  case hostBase =>
    intro id c base hc hb
    rw [hclass id c hc] at hb
    cases hb
    exact Nat.lt_succ_self 1
  case extension =>
    intro id c cls hc hcls
    rw [hclass id c hc] at hcls
    cases hcls

/-- The state after a script made a `Sketch`: the object 1, with the `Canvas` 0 in it. -/
def sketched (methods : List HostMethod) (own : List (String × FunctionId)) : World :=
  let w := { World.initial .default 0 0 with heap := canvasHeap methods own }
  match Evaluation.newOf ⟨0⟩ [] [] w with
  | .ok _ w => w
  | _ => w

theorem sketched_isInstance (methods : List HostMethod) (own : List (String × FunctionId)) :
    (sketched methods own).heap.Linked ∧ IsInstance (sketched methods own).heap ⟨1⟩ ⟨0⟩ ⟨1⟩ := by
  have hmade : Evaluation.newOf ⟨0⟩ [] []
      { World.initial .default 0 0 with heap := canvasHeap methods own } =
      .ok (.host ⟨1⟩) (sketched methods own) := rfl
  have hbase : (canvasHeap methods own).hostBase? ⟨0⟩ = some ⟨1⟩ := rfl
  obtain ⟨this, hthis, hi, hl⟩ :=
    Evaluation.isInstance_newOf (canvasHeap_linked methods own) hbase (fun _ => rfl) hmade
  cases hthis
  exact ⟨hl, hi⟩

end Host

end ScriptEngine
