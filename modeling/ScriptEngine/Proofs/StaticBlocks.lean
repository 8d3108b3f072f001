import ScriptEngine.Proofs.BakedValues
/-!
# What static blocks leave on instances

The names that a static block binds are baked into the instance under the names of their getters, in
the order of the names. Two names that differ in the case of their first letter have one getter,
which the later one takes.

* `Fields.get?_ofPairs` : of pairs with one name, the last one counts.
* `Heap.LastOfGetter`, `Heap.get?_bakedFrom` : the binding that a getter stands for.
* `Evaluation.callMember` : a getter that is called like a method.
* `Evaluation.Unanswered`, `Evaluation.callMember_baked` : where the call answers with what is baked
  in.
* **`Evaluation.instance_answers_static_block`** : what an instance answers.
* `Evaluation.not_every_name_answers` : a binding that no instance answers with.

A getter is called as scripts call methods (`callMember`): the property is read, and what was read
is called. Out of scope are getters of instances that extend a host class and whose host class has
no method of that name: there the read answers, and the call is an error.
-/

namespace ScriptEngine

open Run

/-! ## Bindings and getters -/

namespace Fields

variable {pairs : List (String × Value)} {name : String} {v : Value}

theorem get?_foldl_put (pairs : List (String × Value)) (fields : Fields) (name : String) :
    get? (pairs.foldl (fun fields (name, v) => fields.put name v) fields) name =
      (pairs.reverse.lookup name).or (fields.get? name) := by
  induction pairs generalizing fields with
  | nil => rfl
  | cons pair pairs ih =>
    obtain ⟨k, v⟩ := pair
    rw [List.foldl_cons, ih, List.reverse_cons, List.lookup_append, get?_put, Option.or_assoc]
    by_cases hname : name = k
    · rw [if_pos hname, List.lookup_cons, beq_iff_eq.mpr hname]
      rfl
    · rw [if_neg hname, List.lookup_cons, beq_eq_false_iff_ne.mpr hname]
      rfl

/-- Of the pairs with one name the last one counts. -/
theorem get?_ofPairs (pairs : List (String × Value)) (name : String) :
    (ofPairs pairs).get? name = pairs.reverse.lookup name := by
  unfold ofPairs
  rw [get?_foldl_put]
  exact Option.or_none

theorem get?_ofPairs_append (before after : List (String × Value))
    (hafter : ∀ e ∈ after, e.1 ≠ name) :
    (ofPairs (before ++ (name, v) :: after)).get? name = some v := by
  have hnone : after.reverse.lookup name = none := by
    rw [List.lookup_eq_none_iff]
    intro e he
    exact bne_iff_ne.mpr (hafter e (List.mem_reverse.mp he)).symm
  rw [get?_ofPairs, List.reverse_append, List.reverse_cons, List.lookup_append,
    List.lookup_append, hnone]
  simp

end Fields

namespace Heap

variable {h : Heap} {s : ScopeId} {name : String} {b : Binding}

/-- No name that the scope binds comes after this one and has the same getter. -/
def LastOfGetter (h : Heap) (s : ScopeId) (name : String) : Prop :=
  ∀ other b, (h.scope s).binding? other = some b → name < other →
    accessorName "get" other ≠ accessorName "get" name

theorem LastOfGetter.of_bindings (hlast : ∀ e ∈ (h.scope s).bindings, name < e.1 →
    accessorName "get" e.1 ≠ accessorName "get" name) : h.LastOfGetter s name := by
  intro other b hother
  obtain ⟨before, rest, hsplit, -⟩ := List.lookup_eq_some_iff.mp hother
  exact hlast (other, b) (hsplit ▸ List.mem_append_cons_self)

theorem mem_localBindings : ∀ {e : String × Value}, e ∈ h.localBindings s ↔
    ∃ b, (e.1, b) ∈ (h.scope s).bindings ∧ b.value = e.2 := by
  rintro ⟨name, v⟩
  rw [localBindings, (List.mergeSort_perm _ _).mem_iff, List.mem_map]
  constructor
  · rintro ⟨⟨name', b⟩, hb, heq⟩
    cases heq
    exact ⟨b, hb, rfl⟩
  · rintro ⟨b, hb, rfl⟩
    exact ⟨(name, b), hb, rfl⟩

theorem binding?_of_mem (hs : h.BindsOnce s) (hb : (name, b) ∈ (h.scope s).bindings) :
    (h.scope s).binding? name = some b := by
  obtain ⟨before, rest, hsplit⟩ := List.mem_iff_append.mp hb
  refine List.lookup_eq_some_iff.mpr ⟨before, rest, hsplit, fun e he => ?_⟩
  rw [bne_iff_ne]
  rintro rfl
  have hnames := hs.names
  rw [hsplit, List.map_append, List.nodup_append] at hnames
  exact hnames.2.2 _ (List.mem_map_of_mem he) _ (by simp) rfl

/-- Each name stands before those that come after it. -/
theorem pairwise_localBindings (hs : h.BindsOnce s) :
    (h.localBindings s).Pairwise fun e e' => e.1 < e'.1 := by
  have hsorted : (h.localBindings s).Pairwise fun e e' => e.1 ≤ e'.1 := by
    refine (List.pairwise_mergeSort (fun a b c hab hbc => ?_) (fun a b => ?_) _).imp
      of_decide_eq_true
    · exact decide_eq_true (String.le_trans (of_decide_eq_true hab) (of_decide_eq_true hbc))
    · rw [Bool.or_eq_true, decide_eq_true_eq, decide_eq_true_eq]
      exact String.le_total a.1 b.1
  have hnames : (h.localBindings s).Pairwise fun e e' => e.1 ≠ e'.1 := by
    have hperm := ((List.mergeSort_perm ((h.scope s).bindings.map fun e => (e.1, e.2.value))
      fun a b => decide (a.1 ≤ b.1)).map (·.1)).nodup_iff
    rw [List.map_map] at hperm
    exact List.pairwise_map.mp (hperm.mpr hs.names)
  exact hsorted.imp₂ (fun _ _ hle hne => Std.lt_of_le_of_ne hle hne) hnames

/-- **A getter stands for the last name that has it.** -/
theorem get?_bakedFrom (hs : h.BindsOnce s) (hb : (h.scope s).binding? name = some b)
    (hlast : h.LastOfGetter s name) :
    (Evaluation.bakedFrom (h.localBindings s)).get? (accessorName "get" name) = some b.value := by
  have hmem : (name, b.value) ∈ h.localBindings s := by
    obtain ⟨before, rest, hsplit, -⟩ := List.lookup_eq_some_iff.mp hb
    exact mem_localBindings.mpr ⟨b, hsplit ▸ List.mem_append_cons_self, rfl⟩
  obtain ⟨before, after, hsplit⟩ := List.mem_iff_append.mp hmem
  have hsorted := pairwise_localBindings hs
  rw [hsplit, List.pairwise_append, List.pairwise_cons] at hsorted
  rw [Evaluation.bakedFrom, hsplit, List.map_append, List.map_cons]
  refine Fields.get?_ofPairs_append _ _ fun e he => ?_
  obtain ⟨other, hother, rfl⟩ := List.mem_map.mp he
  obtain ⟨b', hb', -⟩ := mem_localBindings.mp
    (hsplit ▸ List.mem_append_right before (List.mem_cons_of_mem _ hother) :
      other ∈ h.localBindings s)
  exact hlast other.1 b' (binding?_of_mem hs hb') (hsorted.2.1.1 other hother)

end Heap

namespace Evaluation

variable {again : Calls} {w w' : World} {o v : Value} {name getter : String} {block : List Stmt}

/-! ## Static blocks -/

/-- Executes a static block at the top, in a new scope inside the globals, and answers with the
scope. -/
def runBlock (again : Calls) (block : List Stmt) : Script ScopeId := do
  let scope ← Script.childScope globalScope
  let _ ← Run.inFrame (fun _ => .top scope) (executeAll again block)
  return scope

/-- What is baked is what the static block leaves in its scope, which binds no name twice. -/
theorem bakedValues_of_ok {cls : ScriptClass} {baked : Fields} {n : Nat}
    (hblock : cls.staticBlock = some block) (hw : bakedValues (machine n) cls w = .ok baked w') :
    ∃ scope, runBlock (machine n) block w = .ok scope w' ∧ w'.heap.BindsOnce scope ∧
      baked = bakedFrom (w'.heap.localBindings scope) := by
  unfold bakedValues at hw
  rw [hblock] at hw
  obtain ⟨scope, w₁, hscope, hw⟩ := ok_of_bind hw
  obtain ⟨flow, w₂, hflow, hw⟩ := ok_of_bind hw
  cases hw
  have hflow := ok_of_mapError hflow
  refine ⟨scope, (bind_of_ok hscope).trans (bind_of_ok hflow), ?_, rfl⟩
  have hrun : (Run.inFrame (fun _ => .top scope) (executeAll (machine n) block)).Regular :=
    .inFrame (.top scope) (executeAll_regular (machine_regular n) block)
  refine (hrun.evolves_of_ok hflow).bindsOnce ?_
  cases hscope
  exact Heap.bindsOnce_addChild globalScope

/-! ## Getters that are called -/

/-- Calls a member of a value without arguments. -/
def callMember (again : Calls) (o : Value) (name : String) : Script Value := do
  callValue again (← readProperty again false o name) []

/-- Nothing on an instance has the name of a getter but a value that is baked in under it. On an
instance of a class that extends a host class, the host class has a method of the name. -/
inductive Unanswered (h : Heap) (getter : String) : Value → Prop
  | object {id : ObjectId} (hbaked : isBaked h id getter = false)
      (hfield : (h.object id).fields.get? getter = none) : Unanswered h getter (.object id)
  | host {this : HostId} (hbaked : Host.bakedProperty? h this getter = none)
      (hgetter : Host.getterOf? h this getter = none)
      (hslot : Host.fieldSlot? h (h.classOf this) getter = none)
      (hfield : ((Host.scriptObject? h this).bind fun o => (h.object o).fields.get? getter) = none)
      (hmethod : Host.scriptMethod? h this getter = none)
      (hhost : h.hasMethod (h.classOf this) getter false) : Unanswered h getter (.host this)

/-- The getter that a plain instance hands out always answers with the baked value. -/
theorem callMember_object {id : ObjectId} (hbaked : isBaked w.heap id getter = false)
    (hfield : (w.heap.object id).fields.get? getter = none)
    (hv : (w.heap.object id).baked.get? getter = some v) :
    ∃ w', callMember again (.object id) getter w = .ok v w' := by
  have hsource : sourceOf w.heap id getter = .getter v := by
    rw [isBaked, Option.isSome_eq_false_iff, Option.isNone_iff_eq_none] at hbaked
    simp only [sourceOf, hfield, hbaked, hv, Option.none_or]
  have hread : readProperty again false (.object id) getter w = constantGetter getter v w :=
    bind_of_ok (read_of_eq (f := fun w => sourceOf w.heap id getter) hsource)
  obtain ⟨native, w', hgetter, hnative⟩ : ∃ native w', constantGetter getter v w =
      .ok (.native native) w' ∧ w'.heap.native? native = some ⟨getter, 0, some 0, .constant v⟩ := by
    refine ⟨_, _, rfl, ?_⟩
    simp [Heap.native?]
  refine ⟨w', (bind_of_ok (hread.trans hgetter)).trans ?_⟩
  exact (bind_of_ok (read_of_eq (f := fun w => w.heap.native? native) hnative)).trans rfl

/-- The method that a host instance hands out answers with the baked value first. -/
theorem callMember_host {this : HostId} (hn : Unanswered w.heap getter (.host this))
    (hv : Host.baked? w.heap this getter = some v) :
    callMember again (.host this) getter w = .ok v w := by
  cases hn with
  | host hbaked hgetter hslot hfield hmethod hhost =>
    have hmember : Host.memberOf w.heap this getter = .hostMethod (.instance this) getter := by
      have hfield : (do (w.heap.object (← Host.scriptObject? w.heap this)).fields.get? getter) =
        none := hfield
      simp only [Host.memberOf, hfield, hmethod, hhost, if_true]
    have hread : readProperty again false (.host this) getter w =
        .ok (.hostMethod (.instance this) getter) w := by
      refine Host.getProperty_eq.trans ?_
      rw [hbaked, hgetter]
      simp only [Host.scriptField, hslot, hmember]
    refine (bind_of_ok hread).trans ((Host.callMethod_eq []).trans ?_)
    have hanswer : Host.bakedAnswer? w.heap this getter ([] : List Value) = some v := hv
    rw [hanswer]

theorem callMember_baked {object : ObjectId} {baked : Fields}
    (hn : Unanswered w.heap getter o) (ho : objectOf? w.heap o = some object)
    (hb : w.heap.Bakes object baked) (hv : baked.get? getter = some v) :
    ∃ w', callMember again o getter w = .ok v w' := by
  have hv : (w.heap.object object).baked.get? getter = some v :=
    (congrArg (Fields.get? · getter) hb.baked_eq).trans hv
  cases o with
  | object id =>
    cases ho
    cases hn with
    | object hbaked hfield => exact callMember_object hbaked hfield hv
  | host this =>
    refine ⟨w, callMember_host hn ?_⟩
    have ho : Host.scriptObject? w.heap this = some object := ho
    rw [Host.baked?, ho]
    exact hv
  | _ => cases ho

/-! ## Instances -/

/-- **What an instance answers.** A new instance of a class with a static block, after its `init`
has run, answers a read of every name that the block has left in its scope with the value that the
name had, unless a later name has the same getter; and so it answers a call of the getter that
nothing else answers. -/
theorem instance_answers_static_block {n : Nat} {id : ClassId} {cls : ScriptClass}
    {args : List Value} (hcls : w.heap.scriptClass? id = some cls)
    (hblock : cls.staticBlock = some block)
    (hnew : instantiate (machine n) id args w = .ok o w') :
    ∃ scope w₁, runBlock (machine n) block w = .ok scope w₁ ∧
      ∀ name b, (w₁.heap.scope scope).binding? name = some b → w₁.heap.LastOfGetter scope name →
        (∀ again strict, readProperty again strict o name w' = .ok b.value w') ∧
        (Unanswered w'.heap (accessorName "get" name) o →
          ∀ again, ∃ w'', callMember again o (accessorName "get" name) w' = .ok b.value w'') := by
  obtain ⟨baked, w₁, w₂, hbaked, hmade, hinit⟩ := instantiate_evolves hcls hnew
  obtain ⟨scope, hrun, honce, rfl⟩ := bakedValues_of_ok hblock hbaked
  obtain ⟨object, ho, hb⟩ := newOf_bakes hmade
  refine ⟨scope, w₁, hrun, fun name b hbinding hlast => ?_⟩
  have hv := Heap.get?_bakedFrom honce hbinding hlast
  have ho' := objectOf?_evolves hinit ho
  have hb' := hinit.bakes hb
  exact ⟨fun again strict => readProperty_baked ho' hb' hv strict,
    fun hn again => callMember_baked hn ho' hb' hv⟩

/-- A static block that binds one name. -/
def litBlock : List Stmt := [.binding "lit" (some (.bool true default)) false default]

/-- A lamp answers a read of `lit` and a call of `getLit` with what its static block has left. -/
theorem lamp_answers : ∃ w',
    instantiate (machine 3) ⟨0⟩ [] (lampWorld (some litBlock)) = .ok (.object ⟨0⟩) w' ∧
    readProperty (machine 0) true (.object ⟨0⟩) "lit" w' = .ok (.bool true) w' ∧
    ∃ w'', callMember (machine 0) (.object ⟨0⟩) "getLit" w' = .ok (.bool true) w'' := by
  obtain ⟨w', hnew⟩ : ∃ w', instantiate (machine 3) ⟨0⟩ [] (lampWorld (some litBlock)) =
    .ok (.object ⟨0⟩) w' := ⟨_, rfl⟩
  obtain ⟨scope, w₁, hrun, hanswers⟩ := instance_answers_static_block rfl rfl hnew
  obtain ⟨rfl, hbindings⟩ : scope = ⟨1⟩ ∧
      (w₁.heap.scope scope).bindings = [("lit", ⟨.bool true, false⟩)] := by
    cases hrun
    exact ⟨rfl, rfl⟩
  have hlast : w₁.heap.LastOfGetter ⟨1⟩ "lit" := .of_bindings (by rw [hbindings]; decide)
  have hlit : (w₁.heap.scope ⟨1⟩).binding? "lit" = some ⟨.bool true, false⟩ := by
    rw [Scope.binding?, hbindings]
    rfl
  obtain ⟨hread, hcall⟩ := hanswers "lit" _ hlit hlast
  have hgetter : accessorName "get" "lit" = "getLit" := by decide
  rw [hgetter] at hcall
  refine ⟨w', hnew, hread _ _, hcall ?_ _⟩
  cases hnew
  exact .object (by decide +kernel) rfl

/-- A static block that binds a letter in both cases. -/
def letterBlock : List Stmt :=
  [.binding "a" (some (.bool true default)) false default,
    .binding "A" (some (.bool false default)) false default]

/-- **Not every name is answered with its own value**, not even on instances of a class that has
neither methods nor an `init`: where a block binds `a` and `A`, both read as the value of `a`. -/
theorem not_every_name_answers : ¬ ∀ (n : Nat) (id : ClassId) (cls : ScriptClass)
    (block : List Stmt) (args : List Value) (o : Value) (w w' w₁ : World) (scope : ScopeId),
    w.heap.scriptClass? id = some cls → cls.staticBlock = some block → cls.methods = [] →
    instantiate (machine n) id args w = .ok o w' → runBlock (machine n) block w = .ok scope w₁ →
    ∀ name b, (w₁.heap.scope scope).binding? name = some b →
      readProperty (machine n) false o name w' = .ok b.value w' := by
  intro hall
  obtain ⟨w₁, hrun⟩ : ∃ w₁, runBlock (machine 3) letterBlock (lampWorld (some letterBlock)) =
    .ok ⟨1⟩ w₁ := ⟨_, rfl⟩
  obtain ⟨w', hnew, hbakes⟩ : ∃ w', instantiate (machine 3) ⟨0⟩ [] (lampWorld (some letterBlock)) =
      .ok (.object ⟨0⟩) w' ∧ w'.heap.Bakes ⟨0⟩ (bakedFrom (w₁.heap.localBindings ⟨1⟩)) := by
    cases hrun
    exact ⟨_, rfl, by decide, rfl, fun _ _ => rfl⟩
  obtain ⟨honce, hbindings⟩ : w₁.heap.BindsOnce ⟨1⟩ ∧ (w₁.heap.scope ⟨1⟩).bindings =
      [("A", ⟨.bool false, false⟩), ("a", ⟨.bool true, false⟩)] := by
    cases hrun
    exact ⟨⟨by decide, by decide⟩, rfl⟩
  have hlast : w₁.heap.LastOfGetter ⟨1⟩ "a" := .of_bindings (by rw [hbindings]; decide)
  have hv := Heap.get?_bakedFrom honce (by rw [Scope.binding?, hbindings]; rfl) hlast
  have hgetter : accessorName "get" "a" = accessorName "get" "A" := by decide
  rw [hgetter] at hv
  have hread : readProperty (machine 3) false (.object ⟨0⟩) "A" w' = .ok (.bool true) w' :=
    readProperty_baked rfl hbakes hv false
  have hA := hall 3 ⟨0⟩ _ letterBlock [] (.object ⟨0⟩) _ w' _ ⟨1⟩ rfl rfl rfl hnew hrun "A"
    ⟨.bool false, false⟩ (by rw [Scope.binding?, hbindings]; rfl)
  cases hA.symm.trans hread

end Evaluation

end ScriptEngine
