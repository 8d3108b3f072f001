import ScriptEngine.Proofs.Budget
import ScriptEngine.Proofs.Discipline
import ScriptEngine.Proofs.LoopFree
/-!
# Nested static blocks

Calls of functions are counted, and no more than the settings allow are active at once. Static
blocks are not counted: one may make an instance of its own class, and so on without end. Without
loops this is the only way to go on for ever, which is seen by a machine that counts static blocks
too.

* `Evaluation.nested` : the machine with a limit on how many static blocks run inside one another.
* `Evaluation.nested_eq_machine` : a limit that is no smaller than the budget is none.
* `Evaluation.nested_below`, `Evaluation.machine_below` : the machines with one limit or none are
  ordered by their budgets.
* `Evaluation.nested_bounded` : with a limit, code without loops comes to an end within a budget
  that is linear in its size.
-/

namespace ScriptEngine

open Run

/-! ## The machine with a limit -/

/-- Evaluation with one more unit of budget around `again`, where static blocks are run by `inside`,
or not at all. -/
def Calls.around (rounds : Nat) (inside : Option Calls) (again : Calls) : Calls where
  evaluate e w := Script.placedAt e.span (Evaluation.valueOf again e) w
  execute s w := Script.placedAt s.span (Evaluation.step again rounds s) w
  call callee args w :=
    match callee with
    | .scriptClass id => Evaluation.instantiateBy again (baked inside) id args w
    | v => Evaluation.callValue again v args w
  callVirtual this name args w := Host.callVirtual again this name args w
  readHost this name w := Host.readHost again this name w
where
  /-- The values that a static block bakes. -/
  baked (inside : Option Calls) (k : ScriptClass) : Script Fields :=
    match inside with
    | some again => Evaluation.bakedValues again k
    | none => if k.staticBlock.isSome then Run.stuck else pure []

namespace Evaluation

/-- The machine that lets no more than `levels` static blocks run inside one another. -/
def nested : (budget levels : Nat) → Calls
  | 0, _ => .exhausted
  | budget + 1, 0 => .around budget none (nested budget 0)
  | budget + 1, levels + 1 => .around budget (some (nested budget levels))
      (nested budget (levels + 1))

theorem machine_succ (n : Nat) :
    machine (n + 1) = .around n (some (machine n)) (machine n) := by
  let limited := Calls.around n (some (machine n)) (machine n)
  have hcall : (machine (n + 1)).call = limited.call := by
    funext callee args w
    cases callee <;> rfl
  exact congrArg (fun call => { limited with call }) hcall

/-- Blocks that run inside one another use up budget, so a great limit is none. -/
theorem nested_eq_machine : ∀ {n levels : Nat}, n ≤ levels → nested n levels = machine n
  | 0, _, _ => rfl
  | n + 1, levels + 1, hle => by
    rw [nested, nested_eq_machine (Nat.le_of_succ_le_succ hle),
      nested_eq_machine (Nat.le_of_succ_le hle), ← machine_succ]

theorem around_below {again again' : Calls} {inside inside' : Option Calls} {n m : Nat}
    (h : again.Below again') (hi : ∀ k, (Calls.around.baked inside k).Below
      (Calls.around.baked inside' k)) (hle : n ≤ m) :
    (Calls.around n inside again).Below (Calls.around m inside' again') := by
  have hagree := Calls.below_iff_agree.mp h
  refine Calls.below_iff_agree.mpr ⟨fun e => ?_, fun s => ?_, fun callee args =>
    ?_, fun this name args => ?_,
    fun this name => ?_⟩
  · exact .mapError (valueOf_agrees Region.everywhere_around hagree e)
  · exact .mapError (step_agrees hagree (.inr ⟨trivial, hle⟩) s)
  · have hcall := Run.below_iff_agrees.mp (callValue_below h callee args)
    cases callee with
    | scriptClass id =>
      exact instantiateBy_agrees Region.everywhere_around hagree (fun k =>
        Run.below_iff_agrees.mp (hi k)) id args
    | _ => exact hcall
  · exact Host.callVirtual_agrees Region.everywhere_around hagree this name args
  · exact Host.readHost_agrees Region.everywhere_around hagree this name

/-- With one limit, a smaller budget is below a greater one. -/
theorem nested_below : ∀ {n m : Nat}, n ≤ m → ∀ levels, (nested n levels).Below (nested m levels)
  | 0, _, _, _ =>
    ⟨fun _ => .exhausted _, fun _ => .exhausted _, fun _ _ => .exhausted _,
      fun _ _ _ => .exhausted _, fun _ _ => .exhausted _⟩
  | n + 1, m + 1, hle, levels => by
    have hle := Nat.le_of_succ_le_succ hle
    cases levels with
    | zero => exact around_below (nested_below hle 0) (fun _ => .refl _) hle
    | succ levels =>
      exact around_below (nested_below hle (levels + 1))
        (fun k => Run.below_iff_agrees.mpr
          (bakedValues_agrees (Calls.below_iff_agree.mp (nested_below hle levels)) k))
        hle

/-- **A smaller budget is below a greater one**, for whatever is started. -/
theorem machine_below {n m : Nat} (hle : n ≤ m) : (machine n).Below (machine m) := by
  rw [← nested_eq_machine hle, ← nested_eq_machine (Nat.le_refl m)]
  exact nested_below hle m

end Evaluation

/-! ## The discipline of code without loops -/

theorem Heap.mem_of_mem_firstOfEach {m : HostMethod} : ∀ {ms : List HostMethod} {seen},
    m ∈ Heap.firstOfEach seen ms → m ∈ ms
  | [], _, h => h
  | m' :: ms, seen, h => by
    unfold Heap.firstOfEach at h
    simp only at h
    split at h
    · exact List.mem_cons_of_mem _ (Heap.mem_of_mem_firstOfEach h)
    · rcases List.mem_cons.mp h with rfl | h
      · exact List.mem_cons_self
      · exact List.mem_cons_of_mem _ (Heap.mem_of_mem_firstOfEach h)

/-- Statements without loops, none greater than `size`. -/
def LoopFree (size : Nat) (body : List Stmt) : Prop := ∀ s ∈ body, s.loopFree ∧ sizeOf s ≤ size

/-- The methods of a host class that the library has: they look at bytes and start nothing. -/
def HostMethod.LooksAtBytes (m : HostMethod) : Prop :=
  m.kind ≠ .virtual ∧ (m.body = .byteCount ∨ m.body = .byteAt)

/-- Code without loops on an engine with the library alone: no scheduler, no native function and no
host class but those of the library, and no more than `calls` calls active at once. -/
def Discipline.bounded (size calls : Nat) : Discipline where
  function d := LoopFree size d.body
  staticBlock block := LoopFree size block
  native body := (∃ b, body = .builtin b) ∨ ∃ v, body = .constant v
  hostClass k := ∀ m ∈ k.methods, m.LooksAtBytes
  environment e := e.schedulers = [] ∧ e.settings.maxCallDepth = calls
  stops s := s = .stuck
  stuck := rfl
  constant v := .inr ⟨v, rfl⟩
  extension h script base hk m hm := by
    obtain ⟨m', hm', -⟩ := List.mem_map.mp hm
    obtain ⟨hmem, hvirtual⟩ := List.mem_filter.mp (Heap.mem_of_mem_firstOfEach hm')
    obtain ⟨k, hlooks, hmk⟩ := Host.exists_table_of_mem_allMethods hk hmem
    exact absurd (by simpa using hvirtual) (hlooks m' hmk).1

namespace Evaluation

/-! ## Budgets -/

/-- A budget for all that may be started inside: as many starts as calls and static blocks may still
nest, each of a statement no greater than `size`. -/
def cost (size starts : Nat) : Nat := starts * (size + 2)

theorem cost_succ (size starts : Nat) : cost size (starts + 1) = cost size starts + size + 2 := by
  unfold cost
  rw [Nat.succ_mul]
  omega

variable {size calls levels c n : Nat}

/-- Where there is room for a call, there is one start more before it than inside it. -/
theorem starts_of_room (h : (Discipline.bounded size calls).Room c) :
    levels + (calls - c) = levels + (calls - (c + 1)) + 1 := by
  obtain ⟨e, he, hlt⟩ := h
  have := he.2
  omega

/-- What the budget of `again` is enough for, when `c` calls are active and so many static blocks
may still nest. -/
structure Bounded (size calls levels c n : Nat) (again : Calls) : Prop where
  evaluate : ∀ f e, e.loopFree → sizeOf e ≤ size →
    cost size (levels + (calls - c)) + sizeOf e + 2 ≤ n →
    (again.evaluate e).Orderly (.bounded size calls) f c
  execute : ∀ f s, s.loopFree → sizeOf s ≤ size →
    cost size (levels + (calls - c)) + sizeOf s + 2 ≤ n →
    (again.execute s).Yields (.bounded size calls) f c (Flow.Allowed f)
  call : ∀ f callee args, cost size (levels + (calls - c)) + 1 ≤ n →
    (again.call callee args).Orderly (.bounded size calls) f c

variable {again : Calls} {f : Frame} {heap : Heap}

/-- What the budget is enough for obeys the law, in which nothing is said of values. -/
theorem Bounded.blocks (h : Bounded size calls levels c n again) {body : List Stmt}
    (hb : LoopFree size body) (hn : cost size (levels + (calls - c)) + size + 2 ≤ n) :
    Blocks (Discipline.bounded size calls).law (f, c) heap again Empty.elim body := by
  rintro s hs ⟨f', c'⟩ hq -
  obtain rfl : c' = c := Discipline.calls_of_within _ hq
  obtain ⟨hfree, hsize⟩ := hb s hs
  exact (h.execute f' s hfree hsize (by omega)).obeys.mono fun _ _ _ hflow =>
    ⟨hflow, fun _ _ => trivial⟩

section Calls

variable (h : ∀ c, Bounded size calls levels c n again) (hn : cost size (levels + (calls - c)) ≤ n)
include h hn

/-- A call takes one start. -/
theorem Bounded.function (id : FunctionId) {this : Option Value} {args : List Value} :
    (callFunction again id this args).Obeys (Discipline.bounded size calls).law (f, c) heap
      (fun _ _ => True) fun i => callFunction (Empty.elim i) id this args := by
  have body (room : (Discipline.bounded size calls).Room c) (decl : FunctionDecl)
      (hd : LoopFree size decl.body) :
      Blocks (Discipline.bounded size calls).law (f, c + 1) heap again Empty.elim decl.body := by
    rw [starts_of_room room, cost_succ] at hn
    exact (h (c + 1)).blocks hd (by omega)
  exact callFunction_obeys (L := (Discipline.bounded size calls).law) (p := (f, c)) rfl body id
    (fun _ _ => trivial) fun _ _ => trivial

theorem Bounded.serves :
    Calls.Serves (L := (Discipline.bounded size calls).law) (f, c) again Empty.elim where
  function id _ _ _ _ := Bounded.function h hn id
  fromHost id _ _ _ _ := Bounded.function h hn id
  method hk m hm this args := by
    rcases (hk m hm).2 with hbody | hbody
    · rw [hbody]; exact Host.byteCount_tame this args
    · rw [hbody]; exact Host.byteAt_tame this args

/-- The library calls nothing but schedulers, of which there are none. -/
theorem Bounded.native (id : NativeId) (args : List Value) :
    (callNative again id args).Orderly (.bounded size calls) f c := by
  have hserves := Bounded.serves (f := f) h hn
  have body {w w' m} (hw : (Discipline.bounded size calls).law.Holds (f, c) w w')
      (hb : (Discipline.bounded size calls).native m) :
      (runNative again m args).ObeysAt (Discipline.bounded size calls).law (f, c) (fun _ _ => True)
        (fun i => runNative (Empty.elim i) m args) w w' := by
    refine runNative_obeysAt hw hb (fun _ _ => trivial) (fun _ _ => trivial) (fun _ => hserves)
      (fun hcall => ?_) fun _ => ?_
    · rw [hcall] at hb
      rcases hb with ⟨_, hb⟩ | ⟨_, hb⟩ <;> cases hb
    · intro name scheduler task _ hlookup
      rw [hw.governs.environment.1] at hlookup
      cases hlookup
  exact Run.yields_of_obeysAt (fun _ _ _ => trivial) fun w w' hw =>
    callNative_obeysAt hw fun m hm => body hw (hw.governs.natives m (Array.mem_of_getElem? hm))

/-- An instance is made within the budget if its static block is run within it. -/
theorem Bounded.instance {bake : ScriptClass → Script Fields}
    (hi : ∀ k, (∀ block ∈ ScriptClass.staticBlock k, LoopFree size block) →
      (bake k).Orderly (.bounded size calls) f c) (id : ClassId) (args : List Value) :
    (instantiateBy again bake id args).Orderly (.bounded size calls) f c := by
  have baked {w w' k} (hw : (Discipline.bounded size calls).law.Holds (f, c) w w')
      (hk : w.heap.scriptClass? id = some k) :
      (bake k).ObeysAt (Discipline.bounded size calls).law (f, c) (fun _ _ => True)
        (fun i => (i.elim : ScriptClass → Script Fields) k) w w' :=
    (hi k (hw.governs.staticBlocks k (Array.mem_of_getElem? hk))).obeys (h := w.heap) w w' hw
      trivial
  exact Run.yields_of_obeysAt (fun _ _ _ => trivial) fun w w' hw =>
    instantiateBy_obeysAt hw trivial (fun _ _ => trivial) (Bounded.serves h hn) fun k hk =>
      baked hw hk

theorem Bounded.callValue {callee : Value} (hc : ∀ id, callee ≠ .scriptClass id)
    (args : List Value) :
    (callValue again callee args).Orderly (.bounded size calls) f c := by
  have natives id {w w'} (hw : (Discipline.bounded size calls).law.Holds (f, c) w w') :
      (callNative again id args).ObeysAt (Discipline.bounded size calls).law (f, c)
        (fun _ _ => True)
        (fun i => callNative (Empty.elim i) id args) w w' :=
    (Bounded.native h hn id args).obeys (h := w.heap) w w' hw trivial
  exact Run.yields_of_obeysAt (fun _ _ _ => trivial) fun w w' hw =>
    callValue_obeysAt hw (fun _ _ => trivial) (Bounded.serves h hn) (fun id _ => natives id hw)
      fun id hid => absurd hid (hc id)

end Calls

/-- The parts of a statement are within the budget if the statement is. -/
theorem Bounded.covered (h : Bounded size calls levels c n again) {s : Stmt} (hfree : s.loopFree)
    (hsize : sizeOf s ≤ size) (hn : cost size (levels + (calls - c)) + sizeOf s + 2 ≤ n + 1) :
    s.Covered (Discipline.bounded size calls).law (f, c) heap again Empty.elim := by
  obtain ⟨hloop, hexprs, hinner, hfunctions, hblocks⟩ := s.loopFree_iff.mp hfree
  refine ⟨?_, ?_, fun d hd s' hs' => ?_, fun block hb s' hs' => ?_, fun _ _ =>
    ⟨fun _ => trivial, id⟩,
    fun _ _ _ _ _ => trivial, fun hl => ?_⟩
  · rintro e he ⟨f', c'⟩ hq
    obtain rfl : c' = c := Discipline.calls_of_within _ hq
    have := Stmt.sizeOf_lt_of_mem_exprs he
    exact (h.evaluate f' e (hexprs e he) (by omega) (by omega)).obeys
  · rintro s' hs' ⟨f', c'⟩ hq -
    obtain rfl : c' = c := Discipline.calls_of_within _ hq
    have := Stmt.sizeOf_lt_of_mem_inner hs'
    exact (h.execute f' s' (hinner s' hs') (by omega) (by omega)).obeys.mono
      fun _ _ _ hflow => ⟨hflow, fun _ _ => trivial⟩
  · have := Stmt.sizeOf_lt_of_mem_functions hd
    have := FunctionDecl.sizeOf_lt_of_mem_body hs'
    exact ⟨hfunctions d hd s' hs', by omega⟩
  · have := Stmt.sizeOf_lt_of_mem_staticBlocks hb
    have := List.sizeOf_lt_of_mem hs'
    exact ⟨hblocks block hb s' hs', by omega⟩
  · rw [hloop] at hl
    cases hl

/-- **One more unit of budget** is enough for what is greater by one. -/
theorem around_bounded {inside : Option Calls} (h : ∀ c, Bounded size calls levels c n again)
    (hi : ∀ c f k, cost size (levels + (calls - c)) ≤ n →
      (∀ block ∈ ScriptClass.staticBlock k, LoopFree size block) →
      (Calls.around.baked inside k).Orderly (.bounded size calls) f c) (c : Nat) :
    Bounded size calls levels c (n + 1) (.around n inside again) where
  evaluate f e hfree hsize hn := by
    obtain ⟨hchildren, hfunctions⟩ := e.loopFree_iff.mp hfree
    have covered heap :
        e.Covered (Discipline.bounded size calls).law (f, c) heap again Empty.elim := by
      refine ⟨fun e' he' => ?_, fun d hd s hs => ⟨hfunctions d hd s hs, ?_⟩, fun _ _ => trivial⟩
      · have := Expr.sizeOf_lt_of_mem_children he'
        exact ((h c).evaluate f e' (hchildren e' he') (by omega) (by omega)).obeys
      · have := Expr.sizeOf_lt_of_mem_functions hd
        have := FunctionDecl.sizeOf_lt_of_mem_body hs
        omega
    have hserves := Bounded.serves (f := f) h (c := c) (by omega)
    exact .mapError (Run.yields_of_obeys (fun _ _ _ => trivial) fun heap =>
      valueOf_obeys hserves (fun _ _ => ((h c).call f _ _ (by omega)).obeys) (covered heap))
  execute f s hfree hsize hn := by
    have covered heap :
        s.Covered (Discipline.bounded size calls).law (f, c) heap again Empty.elim :=
      (h c).covered hfree hsize hn
    exact .mapError (Run.yields_of_obeys (fun _ _ hends => hends.allowed) fun _ =>
      step_obeys (m := fun _ => n) (fun _ => id) (fun _ => .inl rfl) fun heap _ => covered heap)
  call f callee args hn := by
    have hn : cost size (levels + (calls - c)) ≤ n := by omega
    have hcall (hc : ∀ id, callee ≠ .scriptClass id) := Bounded.callValue (f := f) h hn hc args
    cases callee with
    | scriptClass id => exact Bounded.instance h hn (fun k => hi c f k hn) id args
    | _ => exact hcall nofun

/-- **With a limit on static blocks, code without loops comes to an end**: within a budget of so
many starts, each of the size of the code, nothing that is started is exhausted. -/
theorem nested_bounded : ∀ n levels c, Bounded size calls levels c n (nested n levels)
  | 0, _, _ => ⟨fun _ _ _ _ hn => by omega, fun _ _ _ _ hn => by omega, fun _ _ _ hn => by omega⟩
  | n + 1, 0, c => by
    refine around_bounded (nested_bounded n 0) (fun c f k _ _ => ?_) c
    unfold Calls.around.baked
    simp only
    split
    · exact fun _ _ => rfl
    · exact fun w hw => ⟨trivial, hw⟩
  | n + 1, levels + 1, c => by
    refine around_bounded (nested_bounded n (levels + 1)) (fun c f k hn hk => ?_) c
    rw [Nat.succ_add, cost_succ] at hn
    have blocks (w : World) : ∀ block ∈ k.staticBlock,
        Blocks (Discipline.bounded size calls).law (f, c) w.heap (nested n levels)
          Empty.elim block :=
      fun block hblock => (nested_bounded n levels c).blocks (hk block hblock) (by omega)
    exact Run.yields_of_obeysAt (fun _ _ _ => trivial) fun w w' hw =>
      bakedValues_obeysAt hw (blocks w) fun _ _ => id

end Evaluation

end ScriptEngine
