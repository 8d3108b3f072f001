import Mathlib.Data.Set.Basic
import ScriptEngine.Proofs.Declarations
import ScriptEngine.Proofs.Discipline
import ScriptEngine.Proofs.Instances
import ScriptEngine.Proofs.ScopeChains
/-!
# Which names are bound

A run may bind a name anew, or bind it to another value. What a scope is made of for those who
declare and assign are the names it binds and which of them are constant. Only code that schedules
source text can make another piece of code declare names in a scope that it was not written in, so
the function that does this has to be out of reach: a native function is hidden if no value in the
heap is that function, the binding of its name among the globals apart.

* `Heap.constant?`, `Heap.KeepsNames` : the names of a scope, and a heap in which they are as they
  were, with exceptions.
* `Value.Shown` : a value that is no hidden function.
* `Heap.Hides` : a heap whose code cannot come by a hidden function, and in which there is no
  function but plain ones.
* `Heap.Hides.bind`, `Heap.Hides.addObject`, … : one lemma for each change of a heap.
* `Heap.Hides.shown_lookup` : what a variable is bound to.
-/

namespace ScriptEngine

/-! ## Names -/

namespace Heap

variable {h h' h'' : Heap} {s t : ScopeId} {name : String} {places places' : Set (ScopeId × String)}

/-- A scope that is not in the heap cannot be changed. -/
theorem bind_of_ge (hs : h.scopes.size ≤ s.index) (name : String) (b : Binding) :
    h.bind s name b = h := by
  have hscopes : (h.bind s name b).scopes = h.scopes := by
    refine Array.ext Array.size_modify fun i hi _ => ?_
    have hne : s.index ≠ i := fun heq => Nat.not_le_of_lt (Array.size_modify ▸ hi) (heq ▸ hs)
    exact (Array.getElem_modify hi).trans (if_neg hne)
  calc h.bind s name b = { h with scopes := (h.bind s name b).scopes } := rfl
    _ = h := by rw [hscopes]

/-- Whether a scope itself binds a name for good, if it binds it. -/
def constant? (h : Heap) (s : ScopeId) (name : String) : Option Bool :=
  ((h.scope s).binding? name).map (·.constant)

/-- Every scope there was binds the names it bound, the same ones of them for good, and no others.
Only at the given places there may be a difference. -/
structure KeepsNames (places : Set (ScopeId × String)) (h h' : Heap) : Prop where
  size : h.scopes.size ≤ h'.scopes.size
  names : ∀ s name, s.index < h.scopes.size → (s, name) ∉ places → h'.constant? s name =
    h.constant? s name

namespace KeepsNames

theorem of_scopes (hs : h'.scopes = h.scopes) : KeepsNames places h h' where
  size := by rw [hs]
  names s name _ _ := by unfold constant? scope; rw [hs]

theorem refl (h : Heap) : KeepsNames places h h := of_scopes rfl

theorem trans (a : KeepsNames places h h') (b : KeepsNames places h' h'') :
    KeepsNames places h h'' where
  size := a.size.trans b.size
  names s name hs hp := (b.names s name (hs.trans_le a.size) hp).trans (a.names s name hs hp)

theorem mono (hk : KeepsNames places h h') (hsub : places ⊆ places') : KeepsNames places' h h' where
  size := hk.size
  names s name hs hp := hk.names s name hs fun hmem => hp (hsub hmem)

/-- **What happens in a new scope** does not matter to those there were. -/
theorem of_child (parent : ScopeId)
    (hk : KeepsNames (places ∪ { p | p.1 = (h.addChild parent).1 }) (h.addChild parent).2 h') :
    KeepsNames places h h' where
  size := (Nat.le_succ _).trans (hk.size.trans' (adds_push (h := h) (some parent)).size.ge)
  names s name hs hp := by
    have hsize := (adds_push (h := h) (some parent)).size
    have hold : (h.addChild parent).2.scope s = h.scope s := (adds_push (some parent)).old s hs
    have hnew : s ≠ (h.addChild parent).1 := by
      rintro rfl
      exact Nat.lt_irrefl _ hs
    refine (hk.names s name (hs.trans_le (hsize ▸ Nat.le_succ _)) ?_).trans ?_
    · rintro (hmem | hmem)
      · exact hp hmem
      · exact hnew hmem
    · unfold constant?
      rw [hold]

/-- Binding a name touches one place. -/
theorem of_bind (b : Binding) (hp : (s, name) ∈ places) :
    KeepsNames places h (h.bind s name b) where
  size := Array.size_modify.ge
  names t n ht hn := by
    have hne : ¬ (t = s ∧ n = name) := by
      rintro ⟨rfl, rfl⟩
      exact hn hp
    unfold constant?
    by_cases hs : s.index < h.scopes.size
    · rw [(rebinds_bind hs name b).binding, if_neg hne]
    · rw [bind_of_ge (Nat.le_of_not_lt hs)]

/-- A name that stays as constant as it was is bound as before. -/
theorem of_rebind {b b' : Binding} (hb : (h.scope s).binding? name = some b)
    (hc : b'.constant = b.constant) : KeepsNames places h (h.bind s name b') where
  size := Array.size_modify.ge
  names t n ht _ := by
    unfold constant?
    rw [(rebinds_bind (lt_of_binding? hb) name b').binding]
    split
    · next heq =>
      obtain ⟨rfl, rfl⟩ := heq
      rw [hb, Option.map_some, Option.map_some, hc]
    · rfl

end KeepsNames

/-- A scope that is found binds the name. -/
theorem binding_of_findFrom {owner : ScopeId} {b : Binding} : ∀ {levels : Nat} {s : ScopeId},
    h.findFrom name levels s = some (owner, b) → (h.scope owner).binding? name = some b
  | levels + 1, s, hfind => by
    unfold findFrom at hfind
    simp only at hfind
    split at hfind
    · next hb =>
      cases hfind
      exact hb
    · split at hfind
      · exact binding_of_findFrom hfind
      · cases hfind

end Heap

/-! ## Hidden functions -/

variable {hidden : NativeId → Prop}

/-- The value is not a hidden function. -/
def Value.Shown (hidden : NativeId → Prop) (v : Value) : Prop := ∀ id, v = .native id → ¬ hidden id

/-- The function of the library schedules no jobs, and no hidden function can be come by. -/
def NativeBody.Harmless (hidden : NativeId → Prop) : NativeBody → Prop
  | .builtin b => b ≠ .runOn
  | .constant v => v.Shown hidden
  | _ => False

/-- No field holds a hidden function. -/
def Fields.Shown (hidden : NativeId → Prop) (fields : Fields) : Prop :=
  ∀ e ∈ fields, e.2.Shown hidden

theorem mem_of_mem_putBinding {name : String} {b : Binding} {bindings : List (String × Binding)}
    {e : String × Binding} (he : e ∈ putBinding name b bindings) :
    e = (name, b) ∨ e ∈ bindings := by
  unfold putBinding at he
  split at he
  · obtain ⟨e', he', rfl⟩ := List.mem_map.mp he
    split
    · exact .inl rfl
    · exact .inr he'
  · exact List.mem_cons.mp he

namespace Heap

variable {h h' : Heap} {s : ScopeId} {name : String} {v : Value}

/-- Nothing in the heap holds a hidden function, the binding of the name `runOn` among the globals
apart, and whatever else can be called comes from plain code or from the library. -/
structure Hides (hidden : NativeId → Prop) (h : Heap) : Prop where
  natives : ∀ id n, h.native? id = some n → hidden id ∨ n.body.Harmless hidden
  known : ∀ id, hidden id → id.index < h.natives.size
  root : 0 < h.scopes.size
  scopes : ∀ s, ∀ e ∈ (h.scope s).bindings,
    e.2.value.Shown hidden ∨ s = globalScope ∧ e.1 = "runOn"
  lists : ∀ items ∈ h.lists, ∀ v ∈ items, v.Shown hidden
  objects : ∀ o ∈ h.objects, o.fields.Shown hidden ∧ o.baked.Shown hidden
  functions : ∀ g ∈ h.functions, ∀ s ∈ g.decl.body, s.Plain
  staticBlocks : ∀ k ∈ h.classes, ∀ block ∈ k.staticBlock, ∀ s ∈ block, s.Plain

namespace Hides

/-! ### What is read -/

theorem harmless (hh : h.Hides hidden) {id : NativeId} {n : Native} (hn : h.native? id = some n)
    (hid : ¬ hidden id) : n.body.Harmless hidden :=
  (hh.natives id n hn).resolve_left hid

/-- **A variable holds no hidden function** unless it has the one name that may. -/
theorem shown_lookup (hh : h.Hides hidden) (hv : h.lookup s name = some v)
    (hname : name ≠ "runOn") :
    v.Shown hidden := by
  obtain ⟨⟨owner, b⟩, hfind, rfl⟩ := Option.map_eq_some_iff.mp hv
  have hb := binding_of_findFrom hfind
  obtain ⟨before, rest, hsplit, -⟩ := List.lookup_eq_some_iff.mp hb
  have hmem : (name, b) ∈ (h.scope owner).bindings := by
    rw [hsplit]
    exact List.mem_append_right _ List.mem_cons_self
  exact (hh.scopes owner _ hmem).resolve_right fun hrun => hname hrun.2

/-- Nothing but a global may be bound to a hidden function. -/
theorem shown_localBindings (hh : h.Hides hidden) (hs : s ≠ globalScope) :
    ∀ e ∈ h.localBindings s, e.2.Shown hidden := by
  intro e he
  obtain ⟨e', he', rfl⟩ := List.mem_map.mp ((List.mergeSort_perm _ _).mem_iff.mp he)
  exact (hh.scopes s e' he').resolve_right fun hrun => hs hrun.1

/-! ### What is changed -/

theorem addList (hh : h.Hides hidden) {items : Array Value} (hi : ∀ v ∈ items, v.Shown hidden) :
    (h.addList items).2.Hides hidden :=
  { hh with
    lists := fun items' hmem => by
      rcases Array.mem_push.mp hmem with hmem | rfl
      · exact hh.lists items' hmem
      · exact hi }

theorem addObject (hh : h.Hides hidden) {o : Object} (hf : o.fields.Shown hidden)
    (hb : o.baked.Shown hidden) : (h.addObject o).2.Hides hidden :=
  { hh with
    objects := fun o' hmem => by
      rcases Array.mem_push.mp hmem with hmem | rfl
      · exact hh.objects o' hmem
      · exact ⟨hf, hb⟩ }

theorem addFunction (hh : h.Hides hidden) {g : Function} (hg : ∀ s ∈ g.decl.body, s.Plain) :
    (h.addFunction g).2.Hides hidden :=
  { hh with
    functions := fun g' hmem => by
      rcases Array.mem_push.mp hmem with hmem | rfl
      · exact hh.functions g' hmem
      · exact hg }

/-- What is hidden stays hidden, and nothing new does. -/
theorem addNative (hh : h.Hides hidden) {n : Native} (hn : n.body.Harmless hidden) :
    (h.addNative n).2.Hides hidden :=
  { hh with
    natives := fun id n' hget => by
      have hget : (h.natives.push n)[id.index]? = some n' := hget
      rw [Array.getElem?_push] at hget
      split at hget
      · cases hget
        exact .inr hn
      · exact hh.natives id n' hget
    known := fun id hid => (hh.known id hid).trans_le (by simp [Heap.addNative]) }

theorem addClass (hh : h.Hides hidden) {k : ScriptClass}
    (hk : ∀ block ∈ k.staticBlock, ∀ s ∈ block, s.Plain) : (h.addClass k).2.Hides hidden :=
  { hh with
    staticBlocks := fun k' hmem => by
      rcases Array.mem_push.mp hmem with hmem | rfl
      · exact hh.staticBlocks k' hmem
      · exact hk }

theorem withExtension (hh : h.Hides hidden) (script : ClassId) (base : HostClassId) :
    (h.withExtension script base).Hides hidden :=
  { hh with
    staticBlocks := fun k hmem => by
      simp only [Heap.withExtension] at hmem
      obtain ⟨old, hold, heq⟩ := exists_of_mem_modify hmem
      have : k.staticBlock = old.staticBlock := by rcases heq with rfl | rfl <;> rfl
      rw [this]
      exact hh.staticBlocks old hold }

/-- A shown value may be bound to any name. -/
theorem bind (hh : h.Hides hidden) (s : ScopeId) (name : String) {b : Binding}
    (hb : b.value.Shown hidden) : (h.bind s name b).Hides hidden := by
  by_cases hs : s.index < h.scopes.size
  · exact { hh with
      root := by rw [(rebinds_bind hs name b).size]; exact hh.root
      scopes := fun t e he => by
        rw [scope_bind hs] at he
        split at he
        · next heq =>
          subst heq
          rcases mem_of_mem_putBinding he with rfl | he
          · exact .inl hb
          · exact hh.scopes t e he
        · exact hh.scopes t e he }
  · rwa [bind_of_ge (Nat.le_of_not_lt hs)]

theorem addChild (hh : h.Hides hidden) (parent : ScopeId) : (h.addChild parent).2.Hides hidden := by
  have hadds := adds_push (h := h) (some parent)
  exact { hh with
    root := by rw [Heap.addChild, hadds.size]; exact Nat.succ_pos _
    scopes := fun s e he => by
      rcases Nat.lt_trichotomy s.index h.scopes.size with hlt | heq | hgt
      · exact hh.scopes s e (hadds.old s hlt ▸ he)
      · obtain rfl : s = ⟨h.scopes.size⟩ := congrArg ScopeId.mk heq
        rw [Heap.addChild, hadds.new] at he
        cases he
      · have hout : ¬ s.index < (h.addChild parent).2.scopes.size := by
          rw [Heap.addChild, hadds.size]
          omega
        simp [scope, Array.getD, hout] at he }

end Hides

end Heap

end ScriptEngine
