import ScriptEngine.Proofs.Evolution
/-!
# Chains of scopes

Scopes form trees: a scope is made inside another one, or as the root of a tree of its own. A name
is looked up in the maps of the scopes from one to its root, the nearest first. What can be done to
the scopes is to make one, to declare a name in one and to assign to a name from one; each of them
changes one place or none.

* `Heap.Rooted`, `Heap.Chain`, `Heap.find?_eq` : the scopes from one to its root, and what is found
  there.
* `Heap.Rebinds`, `Heap.Adds`, `Heap.Nearest` : the changes of scopes, and the place they are made
  at.
* `ScopeOperation.Ends`, `ScopeOperation.run_ends` : all ways in which an operation can end.
* `ScopeOperation.after_cases`, `ScopeOperation.constant_after` : what one operation leaves of the
  scopes, and of a constant.
* **`ScopeOperation.scopes_obey`** : operations after one another.

The operations are `new`, `with_parent`, `declare`, `define`, `assign`, `lookup`, `is_constant`,
`contains_local` and `local_bindings`.
-/

namespace ScriptEngine

open Run

/-! ## Bindings -/

theorem lookup_putBinding_ne {name other : String} (hne : other ≠ name) (b : Binding)
    (bindings : List (String × Binding)) :
    (putBinding name b bindings).lookup other = bindings.lookup other := by
  have hfront : (other == name) = false := beq_eq_false_iff_ne.mpr hne
  unfold putBinding
  split
  · clear * - hne hfront
    induction bindings with
    | nil => rfl
    | cons e bindings ih =>
      rw [List.map_cons, List.lookup_cons, List.lookup_cons, ih]
      by_cases he : e.1 = name
      · simp [he, hfront]
      · simp [he]
  · rw [List.lookup_cons, hfront]

/-- What a name is bound to in the first of some maps that binds it. -/
def boundIn (levels : List (String → Option Binding)) (name : String) : Option Binding :=
  levels.findSome? fun level => level name

namespace Heap

variable {h h' : Heap} {s t owner : ScopeId} {name : String} {b : Binding} {chain : List ScopeId}

/-- The name is bound in one scope, and nothing else is different. -/
structure Rebinds (h h' : Heap) (s : ScopeId) (name : String) (b : Binding) : Prop where
  elsewhere : h' = { h with scopes := h'.scopes }
  size : h'.scopes.size = h.scopes.size
  parent : ∀ t, h'.parent? t = h.parent? t
  binding : ∀ t n, (h'.scope t).binding? n = if t = s ∧ n = name then some b
    else (h.scope t).binding? n

/-- There is one more scope, which binds nothing, and nothing else is different. -/
structure Adds (h h' : Heap) (parent : Option ScopeId) : Prop where
  elsewhere : h' = { h with scopes := h'.scopes }
  size : h'.scopes.size = h.scopes.size + 1
  new : h'.scope ⟨h.scopes.size⟩ = ⟨parent, []⟩
  old : ∀ t : ScopeId, t.index < h.scopes.size → h'.scope t = h.scope t

theorem scope_bind (hs : s.index < h.scopes.size) (name : String) (b : Binding) (t : ScopeId) :
    (h.bind s name b).scope t =
      if t = s then { h.scope s with bindings := putBinding name b (h.scope s).bindings }
      else h.scope t := by
  unfold scope Heap.bind
  simp only [Array.getD_eq_getD_getElem?, Array.getElem?_modify]
  by_cases ht : t = s
  · subst ht
    simp [hs]
  · have hindex : s.index ≠ t.index := by
      rintro hindex
      exact ht (by cases s; cases t; simp_all)
    rw [if_neg ht, if_neg hindex]

theorem rebinds_bind (hs : s.index < h.scopes.size) (name : String) (b : Binding) :
    h.Rebinds (h.bind s name b) s name b where
  elsewhere := rfl
  size := Array.size_modify
  parent t := by
    unfold parent?
    rw [scope_bind hs]
    by_cases ht : t = s
    · rw [if_pos ht, ht]
    · rw [if_neg ht]
  binding t n := by
    rw [scope_bind hs]
    by_cases ht : t = s
    · subst ht
      by_cases hn : n = name
      · subst hn
        rw [if_pos rfl, if_pos ⟨rfl, rfl⟩]
        exact lookup_putBinding n b _
      · rw [if_pos rfl, if_neg fun hboth => hn hboth.2]
        exact lookup_putBinding_ne hn b _
    · rw [if_neg ht, if_neg fun hboth => ht hboth.1]

theorem adds_push (parent : Option ScopeId) :
    h.Adds { h with scopes := h.scopes.push ⟨parent, []⟩ } parent where
  elsewhere := rfl
  size := Array.size_push _
  new := by simp [scope, Array.getD]
  old t ht := by simp [scope, Array.getD, ht, Nat.lt_succ_of_lt ht, Array.getElem_push_lt]

/-! ## Chains -/

/-- Every scope was made after the one around it, so the scopes form trees. -/
def Rooted (h : Heap) : Prop := ∀ s p, h.parent? s = some p → p.index < s.index

/-- The scopes from one to the root of its tree. -/
inductive Chain (h : Heap) : ScopeId → List ScopeId → Prop
  | root {s : ScopeId} (hs : h.parent? s = none) : Chain h s [s]
  | inside {s p : ScopeId} {chain : List ScopeId} (hs : h.parent? s = some p)
      (hchain : Chain h p chain) : Chain h s (s :: chain)

/-- The maps of names that scopes are. -/
def levels (h : Heap) (chain : List ScopeId) : List (String → Option Binding) :=
  chain.map fun t => (h.scope t).binding?

theorem Rooted.exists_chain (hr : h.Rooted) (s : ScopeId) : ∃ chain, h.Chain s chain := by
  induction hn : s.index using Nat.strong_induction_on generalizing s with
  | _ n ih =>
    cases hs : h.parent? s with
    | none => exact ⟨[s], .root hs⟩
    | some p =>
      obtain ⟨chain, hchain⟩ := ih p.index (hn ▸ hr s p hs) p rfl
      exact ⟨s :: chain, .inside hs hchain⟩

/-- Looking outwards is looking along the chain, if it looks far enough. -/
theorem Rooted.findFrom_eq (hr : h.Rooted) (hchain : h.Chain s chain) (name : String) {levels : Nat}
    (hlevels : s.index < levels) :
    h.findFrom name levels s =
      chain.findSome? fun t => ((h.scope t).binding? name).map fun b => (t, b) := by
  induction hchain generalizing levels with
  | @root s hs =>
    obtain ⟨levels, rfl⟩ := Nat.exists_eq_add_one_of_ne_zero (Nat.ne_zero_of_lt hlevels)
    unfold findFrom
    cases hb : (h.scope s).binding? name with
    | some b => simp [hb]
    | none =>
      have hparent : (h.scope s).parent = none := hs
      simp [hb, hparent]
  | @inside s p chain hs _ ih =>
    obtain ⟨levels, rfl⟩ := Nat.exists_eq_add_one_of_ne_zero (Nat.ne_zero_of_lt hlevels)
    unfold findFrom
    cases hb : (h.scope s).binding? name with
    | some b => simp [hb]
    | none =>
      have hparent : (h.scope s).parent = some p := hs
      have hp : p.index < levels := Nat.lt_of_lt_of_le (hr s p hs) (Nat.le_of_lt_succ hlevels)
      simp [hb, hparent, ih hp]

/-- The nearest scope that binds a name is the first one of the chain that does. -/
theorem find?_eq (hr : h.Rooted) (hchain : h.Chain s chain) (name : String) :
    h.find? s name = chain.findSome? fun t => ((h.scope t).binding? name).map fun b => (t, b) :=
  hr.findFrom_eq hchain name (Nat.lt_succ_self _)

theorem map_find?_eq (hr : h.Rooted) (hchain : h.Chain s chain) (name : String) :
    (h.find? s name).map (·.2) = boundIn (h.levels chain) name := by
  rw [find?_eq hr hchain, boundIn, levels, List.findSome?_map, List.map_findSome?]
  congr 1
  funext t
  cases hb : (h.scope t).binding? name <;> simp [hb]

/-- **A name means what it is bound to in the first of the maps from a scope to its root that binds
it.** -/
theorem Rooted.lookup_eq (hr : h.Rooted) (hchain : h.Chain s chain) (name : String) :
    h.lookup s name = (boundIn (h.levels chain) name).map (·.value) ∧
      h.isConstant? s name = (boundIn (h.levels chain) name).map (·.constant) := by
  rw [← map_find?_eq hr hchain, Option.map_map, Option.map_map]
  exact ⟨rfl, rfl⟩

/-- From a scope, the scope `owner` is the nearest one that binds the name. -/
structure Nearest (h : Heap) (s : ScopeId) (name : String) (owner : ScopeId) (b : Binding) :
    Prop where
  first : ∃ before after, h.Chain s (before ++ owner :: after) ∧
    ∀ t ∈ before, (h.scope t).binding? name = none
  binding : (h.scope owner).binding? name = some b

theorem Rooted.nearest_of_find? (hr : h.Rooted) (hfind : h.find? s name = some (owner, b)) :
    h.Nearest s name owner b := by
  obtain ⟨chain, hchain⟩ := hr.exists_chain s
  rw [find?_eq hr hchain] at hfind
  obtain ⟨before, t, after, rfl, ht, hbefore⟩ := List.findSome?_eq_some_iff.mp hfind
  obtain ⟨b', hb', hpair⟩ := Option.map_eq_some_iff.mp ht
  cases hpair
  exact ⟨⟨before, after, hchain, fun t ht => Option.map_eq_none_iff.mp (hbefore t ht)⟩, hb'⟩

theorem Rooted.of_rebinds (hr : h.Rooted) (hb : h.Rebinds h' s name b) : h'.Rooted := by
  intro t p hp
  rw [hb.parent] at hp
  exact hr t p hp

theorem Rooted.of_adds {parent : Option ScopeId} (hr : h.Rooted) (ha : h.Adds h' parent)
    (hparent : ∀ p ∈ parent, p.index < h.scopes.size) : h'.Rooted := by
  intro t p hp
  rcases Nat.lt_trichotomy t.index h.scopes.size with hlt | heq | hgt
  · rw [parent?, ha.old t hlt] at hp
    exact hr t p hp
  · obtain rfl : t = ⟨h.scopes.size⟩ := congrArg ScopeId.mk heq
    rw [parent?, ha.new] at hp
    exact hparent p hp
  · have hout : ¬ t.index < h'.scopes.size := by
      rw [ha.size]
      omega
    simp [parent?, scope, Array.getD, hout] at hp

/-- No scope binds a name that is not in the heap. -/
theorem lt_of_binding? (hb : (h.scope s).binding? name = some b) : s.index < h.scopes.size := by
  refine Decidable.byContradiction fun hlt => ?_
  simp [scope, Array.getD, hlt, Scope.binding?] at hb

end Heap

/-! ## Operations -/

/-- What can be done to scopes. -/
inductive ScopeOperation
  /-- Makes the root of a new tree. -/
  | root
  /-- Makes a scope inside another. -/
  | child (parent : ScopeId)
  /-- Declares a variable. -/
  | define (s : ScopeId) (name : String) (value : Value)
  /-- Declares a constant. -/
  | defineConstant (s : ScopeId) (name : String) (value : Value)
  /-- Declares a variable or a constant. -/
  | declare (s : ScopeId) (name : String) (value : Value) (constant : Bool)
  /-- Assigns to the nearest binding. -/
  | assign (s : ScopeId) (name : String) (value : Value)

namespace ScopeOperation

/-- Does the operation. A new scope is its result. -/
def run : ScopeOperation → Script (Option ScopeId)
  | root => Run.change fun w =>
    let (s, heap) := w.heap.addRoot
    (some s, { w with heap })
  | child parent => do return some (← Script.childScope parent)
  | define s name value => do
    Script.define s name value
    return none
  | defineConstant s name value => do
    Script.declare s name value true
    return none
  | declare s name value constant => do
    Script.declare s name value constant
    return none
  | assign s name value => do
    Script.assign s name value
    return none

/-- The scope that an operation is done in or from. -/
def scope? : ScopeOperation → Option ScopeId
  | root => none
  | child s | define s .. | defineConstant s .. | declare s .. | assign s .. => some s

/-- What an operation declares, and where. -/
def declares? : ScopeOperation → Option (ScopeId × String × Binding)
  | define s name value => some (s, name, ⟨value, false⟩)
  | defineConstant s name value => some (s, name, ⟨value, true⟩)
  | declare s name value constant => some (s, name, ⟨value, constant⟩)
  | root | child _ | assign .. => none

/-- The scope of the operation has been made. -/
def Valid (op : ScopeOperation) (h : Heap) : Prop := ∀ s ∈ op.scope?, s.index < h.scopes.size

/-- All ways in which an operation on scopes can end. One that fails leaves the state as it was. -/
inductive Ends (w : World) : ScopeOperation → Outcome Fault (Option ScopeId) → Prop
  /-- A new root binds nothing. -/
  | root {h : Heap} (hadds : w.heap.Adds h none) :
      Ends w .root (.ok (some ⟨w.heap.scopes.size⟩) { w with heap := h })
  /-- A new scope inside another binds nothing. -/
  | child {parent : ScopeId} {h : Heap} (hadds : w.heap.Adds h (some parent)) :
      Ends w (.child parent) (.ok (some ⟨w.heap.scopes.size⟩) { w with heap := h })
  /-- A name that is not constant in the scope is bound there. -/
  | declared {op : ScopeOperation} {s : ScopeId} {name : String} {b : Binding} {h : Heap}
      (hop : op.declares? = some (s, name, b))
      (hfree : ∀ v, (w.heap.scope s).binding? name ≠ some ⟨v, true⟩)
      (hbinds : w.heap.Rebinds h s name b) : Ends w op (.ok none { w with heap := h })
  /-- A name that is constant in the scope is not declared there again. -/
  | declaredConstant {op : ScopeOperation} {s : ScopeId} {name : String} {b : Binding} {v : Value}
      (hop : op.declares? = some (s, name, b))
      (hconstant : (w.heap.scope s).binding? name = some ⟨v, true⟩) :
      Ends w op (.error (.runtime (.constantReassignment name)) w)
  /-- The nearest binding of a name has another value. -/
  | assigned {s owner : ScopeId} {name : String} {old value : Value} {h : Heap}
      (hnearest : w.heap.Nearest s name owner ⟨old, false⟩)
      (hbinds : w.heap.Rebinds h owner name ⟨value, false⟩) :
      Ends w (.assign s name value) (.ok none { w with heap := h })
  /-- The nearest binding of a name is constant. -/
  | assignedConstant {s owner : ScopeId} {name : String} {old value : Value}
      (hnearest : w.heap.Nearest s name owner ⟨old, true⟩) :
      Ends w (.assign s name value) (.error (.runtime (.constantReassignment name)) w)
  /-- No scope from this one to its root binds the name. -/
  | undefined {s : ScopeId} {name : String} {value : Value} {chain : List ScopeId}
      (hchain : w.heap.Chain s chain) (hnone : ∀ t ∈ chain, (w.heap.scope t).binding? name = none) :
      Ends w (.assign s name value) (.error (.runtime (.undefinedVariable name)) w)

variable {w w' : World} {op : ScopeOperation} {o : Outcome Fault (Option ScopeId)}

theorem declare_ends {s : ScopeId} {name : String} {value : Value} {constant : Bool}
    (hs : s.index < w.heap.scopes.size) (hop : op.declares? = some (s, name, ⟨value, constant⟩)) :
    op.Ends w ((do
      Script.declare s name value constant
      return none) w) := by
  simp only [Bind.bind, Script.declare, Heap.declareError?]
  cases hb : (w.heap.scope s).binding? name with
  | none =>
    exact .declared hop (fun v => by simp [hb]) (Heap.rebinds_bind hs name _)
  | some b =>
    obtain ⟨v, constant'⟩ := b
    cases constant' with
    | true => exact .declaredConstant hop hb
    | false =>
      exact .declared hop (fun v => by simp [hb]) (Heap.rebinds_bind hs name _)

theorem assign_ends (hr : w.heap.Rooted) (s : ScopeId) (name : String) (value : Value) :
    (assign s name value).Ends w ((assign s name value).run w) := by
  simp only [run, Bind.bind, Script.assign, Heap.assignTarget]
  cases hfind : w.heap.find? s name with
  | none =>
    obtain ⟨chain, hchain⟩ := hr.exists_chain s
    rw [Heap.find?_eq hr hchain] at hfind
    exact .undefined hchain fun t ht =>
      Option.map_eq_none_iff.mp (List.findSome?_eq_none_iff.mp hfind t ht)
  | some found =>
    obtain ⟨owner, old, constant⟩ := found
    have hnearest := hr.nearest_of_find? hfind
    cases constant with
    | true => exact .assignedConstant hnearest
    | false =>
      exact .assigned hnearest (Heap.rebinds_bind (Heap.lt_of_binding? hnearest.binding) name _)

/-- **An operation ends in one of these ways.** -/
theorem run_ends (hr : w.heap.Rooted) (hv : op.Valid w.heap) : op.Ends w (op.run w) := by
  cases op with
  | root => exact .root (Heap.adds_push none)
  | child parent => exact .child (Heap.adds_push (some parent))
  | define s name value => exact declare_ends (hv s rfl) rfl
  | defineConstant s name value => exact declare_ends (hv s rfl) rfl
  | declare s name value constant => exact declare_ends (hv s rfl) rfl
  | assign s name value => exact assign_ends hr s name value

/-! ### One operation after another -/

/-- The state that an operation leaves. -/
def after (op : ScopeOperation) (w : World) : World :=
  match op.run w with
  | .ok _ w' | .error _ w' => w'
  | .stopped _ => w

/-- The state that operations leave, whether or not some of them fail. -/
def afterAll : List ScopeOperation → World → World
  | [], w => w
  | op :: ops, w => afterAll ops (op.after w)

/-- The scope of every operation has been made when it is its turn. -/
def AllValid : List ScopeOperation → World → Prop
  | [], _ => True
  | op :: ops, w => op.Valid w.heap ∧ AllValid ops (op.after w)

instance (op : ScopeOperation) (h : Heap) : Decidable (op.Valid h) :=
  inferInstanceAs (Decidable (∀ s ∈ op.scope?, s.index < h.scopes.size))

instance AllValid.decidable : ∀ ops w, Decidable (AllValid ops w)
  | [], _ => .isTrue trivial
  | op :: ops, w =>
    have := AllValid.decidable ops (op.after w)
    inferInstanceAs (Decidable (op.Valid w.heap ∧ AllValid ops (op.after w)))

/-- What one operation leaves of a state, whichever way it ends: the scopes of before, or one more,
or the same scopes with one name bound differently that was no constant. -/
theorem after_cases (hr : w.heap.Rooted) (hv : op.Valid w.heap) :
    op.after w = w ∨
    (∃ parent, (∀ p ∈ parent, p.index < w.heap.scopes.size) ∧
      w.heap.Adds (op.after w).heap parent) ∨
    ∃ s name b, (∀ v, (w.heap.scope s).binding? name ≠ some ⟨v, true⟩) ∧
      w.heap.Rebinds (op.after w).heap s name b := by
  have he := run_ends hr hv
  unfold after
  generalize op.run w = o at he ⊢
  cases he with
  | root hadds => exact .inr (.inl ⟨none, nofun, hadds⟩)
  | child hadds => exact .inr (.inl ⟨_, hv, hadds⟩)
  | declared _ hfree hbinds => exact .inr (.inr ⟨_, _, _, hfree, hbinds⟩)
  | assigned hnearest hbinds =>
    refine .inr (.inr ⟨_, _, _, fun v => ?_, hbinds⟩)
    rw [hnearest.binding]
    exact nofun
  | declaredConstant | assignedConstant | undefined => exact .inl rfl

theorem rooted_after (hr : w.heap.Rooted) (hv : op.Valid w.heap) : (op.after w).heap.Rooted := by
  rcases after_cases hr hv with h | ⟨parent, hparent, hadds⟩ | ⟨s, name, b, -, hbinds⟩
  · rwa [h]
  · exact hr.of_adds hadds hparent
  · exact hr.of_rebinds hbinds

/-- **A constant stays** through one operation, with its value. -/
theorem constant_after {s : ScopeId} {name : String} {v : Value} (hr : w.heap.Rooted)
    (hv : op.Valid w.heap) (hc : (w.heap.scope s).binding? name = some ⟨v, true⟩) :
    ((op.after w).heap.scope s).binding? name = some ⟨v, true⟩ := by
  rcases after_cases hr hv with h | ⟨parent, -, hadds⟩ | ⟨t, other, b, hfree, hbinds⟩
  · rwa [h]
  · rwa [hadds.old s (Heap.lt_of_binding? hc)]
  · rw [hbinds.binding, if_neg, hc]
    rintro ⟨rfl, rfl⟩
    exact hfree v hc

theorem rooted_afterAll {ops : List ScopeOperation} (hr : w.heap.Rooted) (hv : AllValid ops w) :
    (afterAll ops w).heap.Rooted := by
  induction ops generalizing w with
  | nil => exact hr
  | cons op ops ih => exact ih (rooted_after hr hv.1) hv.2

theorem constant_afterAll {ops : List ScopeOperation} {s : ScopeId} {name : String} {v : Value}
    (hr : w.heap.Rooted) (hv : AllValid ops w)
    (hc : (w.heap.scope s).binding? name = some ⟨v, true⟩) :
    ((afterAll ops w).heap.scope s).binding? name = some ⟨v, true⟩ := by
  induction ops generalizing w with
  | nil => exact hc
  | cons op ops ih => exact ih (rooted_after hr hv.1) hv.2 (constant_after hr hv.1 hc)

/-- **What operations on scopes obey**, in every tree of scopes and after any operations on it. The
next operation ends in one of the ways there are: one that fails leaves the state as it was, a
declaration binds the name in its scope alone, and an assignment gives the nearest binding another
value. What was constant in a scope before all the operations is constant there still, with its
value. A name means what the first of the maps from a scope to its root binds it to. -/
theorem scopes_obey {ops : List ScopeOperation} (hr : w.heap.Rooted) (hv : AllValid ops w) :
    (∀ op : ScopeOperation, op.Valid (afterAll ops w).heap →
      op.Ends (afterAll ops w) (op.run (afterAll ops w))) ∧
    (∀ s name v, (w.heap.scope s).binding? name = some ⟨v, true⟩ →
      ((afterAll ops w).heap.scope s).binding? name = some ⟨v, true⟩) ∧
    (∀ s, ∃ chain, (afterAll ops w).heap.Chain s chain ∧ ∀ name,
      (afterAll ops w).heap.lookup s name =
        (boundIn ((afterAll ops w).heap.levels chain) name).map (·.value) ∧
      (afterAll ops w).heap.isConstant? s name =
        (boundIn ((afterAll ops w).heap.levels chain) name).map (·.constant) ∧
      Script.get s name (afterAll ops w) =
        match boundIn ((afterAll ops w).heap.levels chain) name with
        | some b => .ok b.value (afterAll ops w)
        | none => .error (.runtime (.undefinedVariable name)) (afterAll ops w)) := by
  have hrooted := rooted_afterAll hr hv
  refine ⟨fun op hop => run_ends hrooted hop, fun s name v => constant_afterAll hr hv, fun s => ?_⟩
  obtain ⟨chain, hchain⟩ := hrooted.exists_chain s
  refine ⟨chain, hchain, fun name => ?_⟩
  obtain ⟨hlookup, hconstant⟩ := hrooted.lookup_eq hchain name
  refine ⟨hlookup, hconstant, ?_⟩
  unfold Script.get
  rw [hlookup]
  cases boundIn ((afterAll ops w).heap.levels chain) name <;> rfl

/-! ### A constant and its shadow -/

/-- A constant, a scope that shadows it, and a scope inside that one, from which the shadow is
assigned to. To declare the constant again fails. -/
def shadowing : List ScopeOperation :=
  [.child globalScope, .define ⟨1⟩ "limit" (.bool true), .child ⟨1⟩,
    .assign ⟨2⟩ "limit" .null, .define globalScope "limit" .null]

/-- A scope for the globals with one constant. -/
def limited : World := (defineConstant globalScope "limit" (.string "ten")).after
  (World.initial .default 0 0)

theorem rooted_initial (settings : Settings) (clock : Float) (seed : UInt64) :
    (World.initial settings clock seed).heap.Rooted := by
  rintro ⟨_ | n⟩ p hp
  · cases hp
  · cases hp

/-- From the innermost scope the name means the shadow, which has been assigned to, and the constant
has its value. -/
theorem scopes_obey_shadowing :
    limited.heap.Rooted ∧ AllValid shadowing limited ∧
    (∃ op : ScopeOperation, op.Valid (afterAll shadowing limited).heap ∧
      op.Ends (afterAll shadowing limited)
        (.error (.runtime (.constantReassignment "limit")) (afterAll shadowing limited))) ∧
    ((afterAll shadowing limited).heap.scope globalScope).binding? "limit" =
      some ⟨.string "ten", true⟩ ∧
    (∃ chain, (afterAll shadowing limited).heap.Chain ⟨2⟩ chain ∧
      (boundIn ((afterAll shadowing limited).heap.levels chain) "limit").map (·.value) =
        some .null) := by
  have hr : limited.heap.Rooted := rooted_after (rooted_initial _ _ _) (by decide)
  have hv : AllValid shadowing limited := by decide
  obtain ⟨hends, hconstants, hchains⟩ := scopes_obey hr hv
  refine ⟨hr, hv, ⟨.define globalScope "limit" .null, by decide, hends _ (by decide)⟩,
    hconstants globalScope "limit" _ rfl, ?_⟩
  obtain ⟨chain, hchain, hnames⟩ := hchains ⟨2⟩
  exact ⟨chain, hchain, (hnames "limit").1.symm.trans rfl⟩

end ScopeOperation

end ScriptEngine
