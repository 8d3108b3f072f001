import ScriptEngine.Engine
import ScriptEngine.Proofs.Nesting
import ScriptEngine.Proofs.Steps
/-!
# Programs that come to an end

A program without loops on a new engine comes to an end exactly if its static blocks nest no deeper
than some limit and it is never stuck. The limit on calls is of no help with static blocks, which
are not counted among them.

* `Outcome.Finished`, `Evaluation.Ends` : a value or an error, within every budget from some one on.
* `Engine.create_at` : a new engine is governed by the discipline of code without loops.
* `Evaluation.ends_iff` : when a program without loops comes to an end.
* `Evaluation.selfMaking_exhausted` : a class whose static block makes an instance of the class uses
  up every budget.

Loops are out of scope, since a loop may go on by itself; a static block is the only other thing
that starts script code without being counted as a call (`run_static_block`).
-/

namespace ScriptEngine

open Run

/-- A value or an error. -/
def Outcome.Finished {ε α : Type} : Outcome ε α → Prop
  | .ok .. | .error .. => True
  | .stopped _ => False

theorem Outcome.finished_of_ne {ε α : Type} {o : Outcome ε α} (he : o ≠ .stopped .exhausted)
    (hs : o ≠ .stopped .stuck) : o.Finished := by
  cases o with
  | ok | error => trivial
  | stopped s =>
    cases s with
    | exhausted => exact absurd rfl he
    | stuck => exact absurd rfl hs

/-! ## New engines -/

namespace Library

variable {D : Discipline} {c : Nat} {f : Frame}

theorem declare_orderly (s : ScopeId) (name : String) (v : Value) (constant : Bool) :
    (Script.declare s name v constant).Orderly D f c :=
  Run.yields_of_obeys (fun _ _ _ => trivial) fun _ => Script.declare_obeys trivial trivial constant

theorem defineNative_orderly {n : Native} (hn : D.native n.body) :
    (defineNative n).Orderly D f c := by
  refine .bind (.step fun w hw => ?_) fun _ => declare_orderly _ _ _ _
  refine ⟨⟨hw.governs.functions, hw.governs.staticBlocks, fun n' hn' => ?_,
    hw.governs.hostClasses, hw.governs.environment⟩, hw.frame, hw.calls⟩
  rcases Array.mem_push.mp hn' with hn' | rfl
  · exact hw.governs.natives n' hn'
  · exact hn

theorem install_orderly (hD : ∀ b, D.native (.builtin b)) : install.Orderly D f c :=
  .bind (.collect _ fun b _ => defineNative_orderly (hD b)) fun _ =>
    .bind (declare_orderly _ _ _ _) fun _ => declare_orderly _ _ _ _

end Library

/-- A new engine holds no code but the library. -/
theorem Discipline.at_create {D : Discipline} {settings : Settings} {clock : Float} {seed : UInt64}
    (hD : ∀ b, D.native (.builtin b))
    (hinitial : D.At (.top globalScope) 0 (World.initial settings clock seed)) :
    D.At (.top globalScope) 0 (Engine.create settings clock seed) := by
  have hinstall : Library.install.Orderly D (.top globalScope) 0 := Library.install_orderly hD
  unfold Engine.create
  -- the library is not to be installed while the terms are compared
  generalize Library.install = r at *
  simp only
  split
  · have h := hinstall _ hinitial
    cases hr : r (World.initial settings clock seed) with
    | ok a w => rw [hr] at h; exact h.2
    | error e w => rw [hr] at h; exact h
    | stopped s => exact hinitial
  · exact hinitial

theorem World.initial_at (size : Nat) (settings : Settings) (clock : Float) (seed : UInt64) :
    (Discipline.bounded size settings.maxCallDepth).At (.top globalScope) 0
      (World.initial settings clock seed) := by
  refine ⟨⟨fun g hg => ?_, fun k hk => ?_, fun n hn => ?_, fun k hk m hm => ?_, rfl, rfl⟩, rfl, rfl⟩
  · simp [World.initial, Heap.initial] at hg
  · simp [World.initial, Heap.initial] at hk
  · simp [World.initial, Heap.initial] at hn
  · simp only [World.initial, Heap.initial, List.mem_toArray, List.mem_singleton] at hk
    subst hk
    simp only [List.mem_cons, List.not_mem_nil, or_false] at hm
    rcases hm with rfl | rfl
    · exact ⟨by decide, .inl rfl⟩
    · exact ⟨by decide, .inr rfl⟩

/-- The code of a new engine is without loops. -/
theorem Engine.create_at (size : Nat) (settings : Settings) (clock : Float) (seed : UInt64) :
    (Discipline.bounded size settings.maxCallDepth).At (.top globalScope) 0
      (Engine.create settings clock seed) :=
  Discipline.at_create (fun b => .inl ⟨b, rfl⟩) (World.initial_at size settings clock seed)

/-! ## Programs -/

namespace Evaluation

/-- A program at the top of the globals. -/
def atTop (again : Calls) (program : List Stmt) : Script Value :=
  Run.inFrame (fun _ => .top globalScope) (interpret again program)

/-- What an engine runs is the program at the top, within its budget. -/
theorem runProgram_eq_atTop (program : List Stmt) :
    Engine.runProgram program = atTop (machine budget) program := rfl

/-- From some budget on, the program has a value or an error, and always the same. -/
def Ends (program : List Stmt) (w : World) : Prop :=
  ∃ n o, o.Finished ∧ ∀ m, n ≤ m → atTop (machine m) program w = o

theorem atTop_below {again again' : Calls} (h : again.Below again') (program : List Stmt) :
    (atTop again program).Below (atTop again' program) := by
  unfold atTop
  exact Run.below_iff_agrees.mpr
    (.inFrame (interpretAfter_agrees (Calls.below_iff_agree.mp h) program .null))

/-- With a limit on static blocks, a program without loops is not exhausted within a budget that is
linear in its size. -/
theorem atTop_nested_ne_exhausted {program : List Stmt} (hfree : ∀ s ∈ program, s.loopFree)
    {calls levels n : Nat}
    (hn : cost (sizeOf program) (levels + calls) + sizeOf program + 1 ≤ n) {f : Frame} {w : World}
    (hw : (Discipline.bounded (sizeOf program) calls).At f 0 w) :
    atTop (nested n levels) program w ≠ .stopped .exhausted := by
  have hbounded : Bounded (sizeOf program) calls levels 0 n (nested n levels) :=
    nested_bounded n levels 0
  have hruns : (atTop (nested n levels) program).Orderly (.bounded (sizeOf program) calls) f 0 := by
    have expression e (he : .expr e ∈ program) :
        ((nested n levels).evaluate e).Orderly (.bounded (sizeOf program) calls)
          (.top globalScope) 0 := by
      obtain ⟨-, hexprs, -⟩ := (Stmt.expr e).loopFree_iff.mp (hfree _ he)
      have hsize := List.sizeOf_lt_of_mem he
      have hexpr : sizeOf e < sizeOf (Stmt.expr e) := Stmt.sizeOf_lt_of_mem_exprs List.mem_cons_self
      exact hbounded.evaluate _ e (hexprs e List.mem_cons_self) (by omega) (by simp; omega)
    have statement s (hs : s ∈ program) :
        ((nested n levels).execute s).Yields (.bounded (sizeOf program) calls) (.top globalScope) 0
          (Flow.Allowed (.top globalScope)) := by
      have hsize := List.sizeOf_lt_of_mem hs
      exact hbounded.execute _ s (hfree s hs) (by omega) (by simp; omega)
    have runs heap : (interpret (nested n levels) program).Obeys
        (Discipline.bounded (sizeOf program) calls).law (.top globalScope, 0) heap (fun _ _ => True)
        fun i => interpret (Empty.elim i) program :=
      interpretAfter_obeys program (fun e he => (expression e he).obeys)
        (fun s hs => (statement s hs).obeys.mono fun _ _ _ hflow => ⟨hflow, fun _ _ => trivial⟩)
          trivial
    exact .inFrame (.top globalScope) (Run.yields_of_obeys (fun _ _ => id) runs)
  intro h
  have := hruns w hw
  rw [h] at this
  cases this

/-! ## A program that never ends -/

/-- Makes an instance of the class `A`. -/
def making (span : Span) : Expr := .call (.var "A" span) [] span

/-- A class whose static block makes an instance of the class, and an instance of it. -/
def selfMaking (span : Span) : List Stmt :=
  [.classDecl (.mk "A" none [] (some [.expr (making span)]) span), .expr (making span)]

theorem loopFree_making (span : Span) : (making span).loopFree := by
  have hvar : (Expr.var "A" span).loopFree := (Expr.loopFree_iff _).mpr ⟨nofun, nofun⟩
  refine (Expr.loopFree_iff _).mpr ⟨fun e he => ?_, nofun⟩
  obtain rfl := List.mem_singleton.mp he
  exact hvar

theorem loopFree_selfMaking (span : Span) : ∀ s ∈ selfMaking span, s.loopFree := by
  have hexpr := Stmt.loopFree_expr (loopFree_making span)
  intro s hs
  rcases List.mem_cons.mp hs with rfl | hs
  · refine (Stmt.loopFree_iff _).mpr ⟨rfl, nofun, nofun, nofun, fun block hb s hs => ?_⟩
    obtain rfl := List.mem_singleton.mp hb
    obtain rfl := List.mem_singleton.mp hs
    exact hexpr
  · obtain rfl := List.mem_singleton.mp hs
    exact hexpr

/-- The class stands in the heap, and the globals and the current scope know it. -/
structure Making (span : Span) (id : ClassId) (w : World) : Prop where
  block : ∃ k, w.heap.scriptClass? id = some k ∧ k.staticBlock = some [.expr (making span)]
  global : ∃ b, (w.heap.scope globalScope).binding? "A" = some b ∧ b.value = .scriptClass id
  size : 0 < w.heap.scopes.size
  here : w.heap.lookup w.frame.scope "A" = some (.scriptClass id)

theorem execute_making {span : Span} {w : World} {n : Nat}
    (h : ∀ m < n, (machine m).evaluate (making span) w = .stopped .exhausted) :
    (machine n).execute (.expr (making span)) w = .stopped .exhausted := by
  match n with
  | 0 => rfl
  | n + 1 => exact mapError_of_stopped (bind_of_stopped (h n (Nat.lt_succ_self n)))

theorem evaluate_var {name : String} {span : Span} {w : World} {v : Value}
    (h : w.heap.lookup w.frame.scope name = some v) (n : Nat) :
    (machine (n + 1)).evaluate (.var name span) w = .ok v w := by
  have hget : Script.get w.frame.scope name w = .ok v w := by
    unfold Script.get
    rw [h]
  show Run.mapError _ (Script.get w.frame.scope name) w = .ok v w
  unfold Run.mapError
  rw [hget]

/-- The state in which the static block of a class is executed. -/
def insideBlock (w : World) : World :=
  { w with
    heap := (w.heap.addChild globalScope).2
    frame := .top (w.heap.addChild globalScope).1 }

/-- In the static block the class stands as before. -/
theorem Making.inside {span : Span} {id : ClassId} {w : World} (h : Making span id w) :
    Making span id (insideBlock w) := by
  obtain ⟨b, hb, hv⟩ := h.global
  refine ⟨h.block, ⟨b, ?_, hv⟩, ?_, ?_⟩
  · exact (congrArg (Scope.binding? · "A") (Heap.scope_addChild_global h.size)).trans hb
  · exact Nat.lt_of_lt_of_eq (Nat.succ_pos _) (Array.size_push _).symm
  · rw [← hv]
    exact Heap.lookup_addChild hb h.size

theorem bakedValues_of_stopped {again : Calls} {k : ScriptClass} {block : List Stmt} {w : World}
    {s : Stop} (hk : k.staticBlock = some block)
    (h : executeAll again block (insideBlock w) = .stopped s) :
    bakedValues again k w = .stopped s := by
  unfold bakedValues
  rw [hk]
  have hchild : Script.childScope globalScope w = .ok (w.heap.addChild globalScope).1
      { w with heap := (w.heap.addChild globalScope).2 } := rfl
  exact (bind_of_ok hchild).trans (bind_of_stopped (mapError_of_stopped (inFrame_of_stopped h)))

theorem call_making {span : Span} {id : ClassId} {w : World} (h : Making span id w) {n : Nat}
    (hn : ∀ m < n, (machine m).evaluate (making span) (insideBlock w) = .stopped .exhausted) :
    (machine n).call (.scriptClass id) [] w = .stopped .exhausted := by
  obtain ⟨k, hk, hblock⟩ := h.block
  match n with
  | 0 => rfl
  | n + 1 =>
    have hread : (Script.heap (·.scriptClass? id) : Script _) w = .ok (some k) w := by
      rw [← hk]
      rfl
    have hexecute : executeAll (machine n) [.expr (making span)] (insideBlock w) =
        .stopped .exhausted := by
      have hsignal : signalOf (machine n) (.expr (making span)) (insideBlock w) =
          .stopped .exhausted :=
        bind_of_stopped (execute_making fun m hm => hn m (Nat.lt_succ_of_lt hm))
      unfold executeAll Run.forEach
      rw [hsignal]
    exact (bind_of_ok hread).trans (bind_of_stopped (bakedValues_of_stopped hblock hexecute))

theorem evaluate_making {span : Span} {id : ClassId} (n : Nat) :
    ∀ w, Making span id w → (machine n).evaluate (making span) w = .stopped .exhausted := by
  induction n using Nat.strongRecOn with
  | ind n ih =>
    intro w h
    match n with
    | 0 | 1 => rfl
    | n + 2 =>
      have hcall : (machine (n + 1)).call (.scriptClass id) [] w = .stopped .exhausted :=
        call_making h fun m hm => ih m (Nat.lt_succ_of_lt hm) _ h.inside
      have hvalue : valueOf (machine (n + 1)) (making span) w = .stopped .exhausted :=
        (bind_of_ok (evaluate_var h.here n)).trans ((bind_of_ok (a := []) rfl).trans hcall)
      exact mapError_of_stopped hvalue

/-- Where `A` may be declared among the globals, declaring it puts the class into the heap. -/
theorem execute_classDecl (span : Span) {w : World} (hframe : w.frame.scope = globalScope)
    (hsize : 0 < w.heap.scopes.size) (hfree : w.heap.declareError? globalScope "A" = none)
    (n : Nat) :
    ∃ id w', Making span id w' ∧ (machine (n + 1)).execute
      (.classDecl (.mk "A" none [] (some [.expr (making span)]) span)) w = .ok .normal w' := by
  let k : ScriptClass := ⟨"A", [], none, none, some [.expr (making span)], none⟩
  let id : ClassId := (w.heap.addClass k).1
  let b : Binding := ⟨.scriptClass id, false⟩
  let w₁ : World := { w with heap := (w.heap.addClass k).2 }
  let w₂ : World := { w₁ with heap := w₁.heap.bind globalScope "A" b }
  have hbound : (w₂.heap.scope globalScope).binding? "A" = some b :=
    Heap.binding_bind_self (h := w₁.heap) hsize "A" b
  have hdefine : Script.define w.frame.scope "A" (.scriptClass id) w₁ = .ok () w₂ := by
    rw [hframe]
    have : w₁.heap.declareError? globalScope "A" = none := hfree
    unfold Script.define Script.declare
    rw [this]
  have hexecute : (machine (n + 1)).execute
      (.classDecl (.mk "A" none [] (some [.expr (making span)]) span)) w = .ok .normal w₂ := by
    show Run.mapError _ (_ >>= fun _ => pure Flow.normal : Script Flow) w = _
    unfold Run.mapError
    have : declareClass (.mk "A" none [] (some [.expr (making span)]) span) w = .ok () w₂ := hdefine
    rw [bind_of_ok this]
    rfl
  refine ⟨id, w₂, ⟨⟨k, ?_, rfl⟩, ⟨b, hbound, rfl⟩, ?_, ?_⟩, hexecute⟩
  · exact Array.getElem?_push_size
  · exact Nat.lt_of_lt_of_eq hsize Array.size_modify.symm
  · show w₂.heap.lookup w.frame.scope "A" = _
    rw [hframe]
    unfold Heap.lookup Heap.find? Heap.findFrom
    simp only [hbound]
    rfl

/-- **Static blocks are not counted.** Where `A` may be declared, the program is exhausted within
every budget, whatever the limit on calls. -/
theorem selfMaking_exhausted (span : Span) {w : World} (hsize : 0 < w.heap.scopes.size)
    (hfree : w.heap.declareError? globalScope "A" = none) :
    ∀ n, atTop (machine n) (selfMaking span) w = .stopped .exhausted
  | 0 => rfl
  | n + 1 => by
    obtain ⟨id, w', hmaking, hclass⟩ := execute_classDecl span
      (w := { w with frame := .top globalScope }) rfl hsize hfree n
    refine inFrame_of_stopped ((bind_of_ok hclass).trans (bind_of_stopped ?_))
    exact evaluate_making (n + 1) w' hmaking

/-! ## Which programs come to an end -/

/-- **When a program without loops comes to an end** on a new engine: exactly if no more than some
number of its static blocks ever run inside one another, which is to say that a limit to that number
makes no difference, and it is never stuck. -/
theorem ends_iff (settings : Settings) (clock : Float) (seed : UInt64) {program : List Stmt}
    (hfree : ∀ s ∈ program, s.loopFree) :
    Ends program (Engine.create settings clock seed) ↔
      (∃ levels, ∀ n, atTop (nested n levels) program (Engine.create settings clock seed) =
        atTop (machine n) program (Engine.create settings clock seed)) ∧
      ∀ n, atTop (machine n) program (Engine.create settings clock seed) ≠ .stopped .stuck := by
  have hcreate := Engine.create_at (sizeOf program) settings clock seed
  generalize Engine.create settings clock seed = w at *
  constructor
  · rintro ⟨n, o, hfinished, hn⟩
    have hne : atTop (machine n) program w ≠ .stopped .exhausted := by
      rw [hn n (Nat.le_refl n)]
      rintro rfl
      exact hfinished
    refine ⟨⟨n, fun m => ?_⟩, fun m hm => ?_⟩
    · rcases Nat.le_total m n with hle | hle
      · rw [nested_eq_machine hle]
      · have hbelow := atTop_below (nested_below hle n) program
        rw [nested_eq_machine (Nat.le_refl n)] at hbelow
        rw [← hbelow.eq_of_ne hne, hn n (Nat.le_refl n), hn m hle]
    · rcases Nat.le_total m n with hle | hle
      · have hstuck := (atTop_below (machine_below hle) program).eq_of_ne (w := w)
          (by rw [hm]; nofun)
        rw [hn n (Nat.le_refl n), hm] at hstuck
        subst hstuck
        exact hfinished
      · rw [hn m hle] at hm
        subst hm
        exact hfinished
  · rintro ⟨⟨levels, hlevels⟩, hstuck⟩
    let n := cost (sizeOf program) (levels + settings.maxCallDepth) + sizeOf program + 1
    have hne : atTop (machine n) program w ≠ .stopped .exhausted := by
      rw [← hlevels n]
      exact atTop_nested_ne_exhausted hfree (Nat.le_refl n) hcreate
    refine ⟨n, atTop (machine n) program w, Outcome.finished_of_ne hne (hstuck n), fun m hle => ?_⟩
    exact ((atTop_below (machine_below hle) program).eq_of_ne hne).symm

/-- Of the class that makes itself no number of static blocks is enough, and the program never
ends. -/
theorem selfMaking_nests_without_limit :
    (∀ s ∈ selfMaking ⟨0, 0, 1, 1⟩, s.loopFree) ∧
    ¬ Ends (selfMaking ⟨0, 0, 1, 1⟩) (Engine.create .default 0 0) ∧
    ¬ ∃ levels, ∀ n,
      atTop (nested n levels) (selfMaking ⟨0, 0, 1, 1⟩) (Engine.create .default 0 0) =
        atTop (machine n) (selfMaking ⟨0, 0, 1, 1⟩) (Engine.create .default 0 0) := by
  have hfree := loopFree_selfMaking ⟨0, 0, 1, 1⟩
  have hdeclare : (Engine.create .default 0 0).heap.declareError? globalScope "A" = none :=
    Option.isNone_iff_eq_none.mp (by decide +kernel)
  have hsize : 0 < (Engine.create .default 0 0).heap.scopes.size := by decide +kernel
  have hexhausted := selfMaking_exhausted ⟨0, 0, 1, 1⟩ hsize hdeclare
  have hends : ¬ Ends (selfMaking ⟨0, 0, 1, 1⟩) (Engine.create .default 0 0) := by
    rintro ⟨n, o, hfinished, hn⟩
    rw [← hn n (Nat.le_refl n), hexhausted n] at hfinished
    exact hfinished
  refine ⟨hfree, hends, fun hlevels => hends ?_⟩
  exact (ends_iff .default 0 0 hfree).mpr ⟨hlevels, fun n => by rw [hexhausted n]; nofun⟩

end Evaluation

end ScriptEngine
