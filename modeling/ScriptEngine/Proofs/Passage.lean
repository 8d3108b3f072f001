import ScriptEngine.Proofs.Declarations
import ScriptEngine.Proofs.Discipline
/-!
# Errors on their way out

A run is compared with runs in which one thing that it waits for is cut off, for whatever reason a
run may stop. Either the cut is not met, and all of them end alike: then the errors are fit and the
code in the heap is what it should be. Or the cut is met, and where the others stop, the run ends
with an error that is carried. This is a law with a case for each reason to stop, so it says both
where errors are placed and how they pass by.

* `Passage` : what is asked of trees and of errors, and which errors are carried.
* `Outcome.Passes`, `Run.Passes`, `Calls.Pass` : the comparison.
* `Passage.law`, `Passage.grammar` : the law, with the trees that it is about.
* `Run.passes_iff`, `Calls.pass_iff` : the comparison is what the law says.
* `Evaluation.Escapes`, `Evaluation.Unchanged` : the error that meets the cut is neither taken nor
  wrapped.
* `Evaluation.valueOf_passes`, `Evaluation.step_passes`, `Evaluation.callValue_passes`, … : what the
  walk comes to.

What takes errors is `step` at `Stmt.attempt` (a handler and a cleanup), `bakedValues` (a static
block wraps them) and `runJob` (the error of a job is written down). Errors of the host that no code
of a script sees are out of scope.
-/

namespace ScriptEngine

open Run
open Faulty (fault)

/-- What is asked of the nodes of trees and of errors. Errors that are not placed are fit, and so
are fit errors that such a node places. Errors that are carried are carried on when they are
placed. -/
structure Passage where
  expr : Expr → Prop
  stmt : Stmt → Prop
  fits : Fault → Prop
  carries : Fault → Prop
  fits_fresh : ∀ {f : Fault}, f.span = none → fits f
  fits_expr : ∀ {e : Expr} {f : Fault}, expr e → fits f → fits (f.orSpan e.span)
  fits_stmt : ∀ {s : Stmt} {f : Fault}, stmt s → fits f → fits (f.orSpan s.span)
  fits_mention : ∀ {decl : ClassDecl} {mention : String × Span} {f : Fault},
    stmt (.classDecl decl) →
    mention ∈ decl.superclass → fits f → fits (f.orSpan mention.2)
  fits_static : ∀ {name : String} {f : Fault}, fits f → fits (Evaluation.staticFault name f)
  fits_source : ∀ {source : String} {f : Fault}, Parser.programOf? source = .error f → fits f
  source : ∀ {source : String} {program : List Stmt}, Parser.programOf? source = .ok program →
    ∀ s ∈ program, s.Throughout expr stmt
  carries_orSpan : ∀ {f : Fault} (span : Span), carries f → carries (f.orSpan span)

namespace Passage

variable (P : Passage)

/-- The code in the heap is made of such nodes. -/
def discipline : Discipline where
  function decl := ∀ s ∈ decl.body, s.Throughout P.expr P.stmt
  staticBlock block := ∀ s ∈ block, s.Throughout P.expr P.stmt
  native _ := True
  hostClass _ := True
  environment _ := True
  stops _ := True
  stuck := trivial
  constant _ := trivial
  extension _ _ _ _ := trivial

/-- All code in the state is made of such nodes. -/
abbrev Governs (w : World) : Prop := P.discipline.Governs w

end Passage

variable {P : Passage} {ε δ α β : Type} [Faulty ε] [Faulty δ]

/-! ## Outcomes -/

/-- The state that was left has such code, and the error is fit, if there is one. -/
def Outcome.Fine (P : Passage) : Outcome ε α → Prop
  | .ok _ w => P.Governs w
  | .error e w => P.Governs w ∧ P.fits (fault e)
  | .stopped _ => True

/-- Either the cut was not met, and the outcome is fine; or it was, and an error is carried. -/
inductive Outcome.Passes (P : Passage) (o : Outcome ε α) (cut : Stop → Outcome ε α) : Prop
  | same (hcut : ∀ s, cut s = o) (hfine : o.Fine P)
  | carried (hcut : ∀ s, cut s = .stopped s) (e : ε) (w : World) (ho : o = .error e w)
      (he : P.carries (fault e))

/-- A run that is the same in all cases does not stop for two reasons. -/
theorem Outcome.not_cut {ε α : Type} {o : Outcome ε α} : ¬∀ s : Stop, o = .stopped s := fun h => by
  cases (h .stuck).symm.trans (h .exhausted)

namespace Outcome.Passes

variable {o : Outcome ε α} {cut : Stop → Outcome ε α}

theorem fine (h : o.Passes P cut) (hcut : ¬∀ s, cut s = .stopped s) :
    (∀ s, cut s = o) ∧ o.Fine P := by
  cases h with
  | same hsame hfine => exact ⟨hsame, hfine⟩
  | carried hstop => exact absurd hstop hcut

theorem carries (h : o.Passes P cut) (hcut : ∀ s, cut s = .stopped s) :
    ∃ e w, o = .error e w ∧ P.carries (fault e) := by
  cases h with
  | same hsame => exact absurd (fun s => (hsame s).symm.trans (hcut s)) Outcome.not_cut
  | carried _ e w ho he => exact ⟨e, w, ho, he⟩

end Outcome.Passes

theorem Passage.Governs.of_heap {w v : World} (hw : P.Governs w) (hheap : v.heap = w.heap) :
    P.Governs v :=
  ⟨hheap ▸ hw.functions, hheap ▸ hw.staticBlocks, hheap ▸ hw.natives, hheap ▸ hw.hostClasses,
    trivial⟩

/-- Started in a state with such code, the run passes by the cut. -/
def Run.Passes (P : Passage) (r : Run ε α) (cut : Stop → Run ε α) : Prop :=
  ∀ w, P.Governs w → (r w).Passes P fun s => cut s w

/-- Everything that a step may start again passes by the cut. -/
structure Calls.Pass (P : Passage) (again : Calls) (cut : Stop → Calls) : Prop where
  evaluate : ∀ e : Expr, e.Throughout P.expr P.stmt → (again.evaluate e).Passes P fun s =>
    (cut s).evaluate e
  execute : ∀ st : Stmt, st.Throughout P.expr P.stmt → (again.execute st).Passes P fun s =>
    (cut s).execute st
  call : ∀ callee args, (again.call callee args).Passes P fun s => (cut s).call callee args
  callVirtual : ∀ this name args,
    (again.callVirtual this name args).Passes P fun s => (cut s).callVirtual this name args
  readHost : ∀ this name, (again.readHost this name).Passes P fun s => (cut s).readHost this name

/-! ## The law -/

namespace Passage

variable (P)

/-- **The law of a passage**: the others are in the same state, unless they are cut off. -/
def law : Law where
  Case := Stop
  Place := Unit
  Holds _ w w' := w' = (fun _ => w) ∧ P.Governs w
  Keeps _ _ _ := True
  function := P.discipline.function
  staticBlock := P.discipline.staticBlock
  fits := P.fits
  carries := P.carries
  cut s := s
  near := by
    rintro _ w _ ⟨rfl, -⟩ _
    exact ⟨w.queues, w.frame.functionDepth, rfl, Iff.rfl⟩
  alters := by
    rintro _ w _ _ ⟨rfl, hw⟩ ha
    exact ⟨⟨rfl, hw.withHeap id id ha⟩, trivial⟩
  aside := by
    rintro _ w _ ⟨rfl, hw⟩ _ _ _
    exact ⟨rfl, hw.of_heap rfl⟩
  enter _ _ := ()
  holds_enter := by
    rintro _ w _ shift ⟨rfl, hw⟩ -
    exact ⟨rfl, hw.of_heap rfl⟩
  holds_leave := by
    rintro _ w _ v _ _ ⟨rfl, -⟩ ⟨rfl, hv⟩ -
    exact ⟨rfl, hv.of_heap rfl⟩
  holds_child := by
    rintro _ w _ _ ⟨rfl, hw⟩ -
    exact ⟨rfl, hw.functions, hw.staticBlocks, hw.natives, hw.hostClasses, trivial⟩
  Inside _ _ := True
  holds_call := by
    rintro _ _ w _ - ⟨rfl, hw⟩ -
    exact ⟨rfl, hw.of_heap rfl⟩
  holds_return := by
    rintro _ _ w _ - ⟨rfl, hw⟩
    exact ⟨rfl, hw.of_heap rfl⟩
  Beside _ _ := True
  holds_thread := by
    rintro _ _ w _ - ⟨rfl, hw⟩
    exact ⟨rfl, hw.of_heap rfl⟩
  holds_join := by
    rintro _ _ w _ v _ - ⟨rfl, -⟩ ⟨rfl, hv⟩ -
    exact ⟨rfl, hv.of_heap rfl⟩
  function_at hw := hw.2.functions
  staticBlock_at hw := hw.2.staticBlocks
  native_at _ _ _ _ _ := trivial
  hostClass_at _ _ _ := trivial
  fits_fresh := P.fits_fresh
  fits_static := P.fits_static
  fits_source := P.fits_source

/-- The trees whose nodes are what they should be. -/
def grammar : Grammar P.law where
  expr e := e.Throughout P.expr P.stmt
  stmt s := s.Throughout P.expr P.stmt
  expr_places he := ⟨P.fits_expr (Expr.throughout_iff.mp he).1, P.carries_orSpan _⟩
  stmt_places hs := ⟨P.fits_stmt (Stmt.throughout_iff.mp hs).1, P.carries_orSpan _⟩
  mention_places {s} hs mention hm := by
    refine ⟨fun hf => ?_, P.carries_orSpan _⟩
    cases s with
    | classDecl decl =>
      have hm : mention ∈ decl.superclass := Option.mem_toList.mp hm
      exact P.fits_mention (Stmt.throughout_iff.mp hs).1 hm hf
    | _ => cases hm
  children he := (Expr.throughout_iff.mp he).2.1
  lambdas he := (Expr.throughout_iff.mp he).2.2
  exprs hs := (Stmt.throughout_iff.mp hs).2.1
  inner hs := (Stmt.throughout_iff.mp hs).2.2.1
  functions hs := (Stmt.throughout_iff.mp hs).2.2.2.1
  staticBlocks hs := (Stmt.throughout_iff.mp hs).2.2.2.2
  branches _ _ _ _ _ _ _ _ _ _ := trivial
  bodies := id
  blocks := id
  stops := trivial

end Passage

variable {heap : Heap} {w : World}

/-- Ends that the law allows are ends of runs that pass by the cut. -/
theorem Outcome.passes_of_obeys {o : Outcome ε α} {cut : P.law.Case → Outcome ε α}
    {Q : Heap → α → Prop} (ho : o.Obeys P.law () heap Q cut) : o.Passes P cut := by
  cases ho with
  | ok hv =>
    obtain ⟨rfl, hv⟩ := hv
    exact .same (fun _ => rfl) hv
  | error hv _ he =>
    obtain ⟨rfl, hv⟩ := hv
    exact .same (fun _ => rfl) ⟨hv, he⟩
  | stopped => exact .same (fun _ => rfl) trivial
  | exhausted hlax => exact hlax.elim
  | carried _ he => exact .carried (fun _ => rfl) _ _ rfl he

theorem Outcome.Passes.obeys {o : Outcome ε α} {cut : Stop → Outcome ε α} (ho : o.Passes P cut) :
    o.Obeys P.law () heap (fun _ _ => True) cut := by
  obtain ⟨hsame, hfine⟩ | ⟨hstop, e, w, rfl, he⟩ := ho
  · obtain rfl : cut = fun _ => o := funext hsame
    cases o with
    | ok a w => exact .ok ⟨rfl, hfine⟩ trivial trivial
    | error e w => exact .error ⟨rfl, hfine.1⟩ trivial hfine.2
    | stopped s => exact .stopped trivial
  · obtain rfl : cut = fun s => .stopped s := funext hstop
    exact .carried w he

/-- The comparison is what the law says. -/
theorem Run.passes_iff {r : Run ε α} {cut : Stop → Run ε α} :
    r.Passes P cut ↔ ∀ h, r.Obeys P.law () h (fun _ _ => True) cut := by
  refine ⟨fun hr h w w' hw _ => ?_, fun hr w hw => ?_⟩
  · obtain ⟨rfl, hw⟩ := hw
    exact (hr w hw).obeys
  · exact Outcome.passes_of_obeys (hr w.heap w (fun _ => w) ⟨rfl, hw⟩ trivial)

theorem Calls.pass_iff {again : Calls} {cut : Stop → Calls} :
    again.Pass P cut ↔ Calls.Obey P.grammar (.all _) (.all _) again cut := by
  refine ⟨fun h => ⟨fun _ he => ?_, fun _ hs _ => ?_, fun _ _ _ => ?_, fun _ _ _ _ =>
    ?_, fun _ _ _ => ?_⟩,
    fun h => ⟨fun e he => ?_, fun s hs => ?_, fun callee args => ?_, fun this name args => ?_,
      fun this name => ?_⟩⟩
  · exact Run.passes_iff.mp (h.evaluate _ he) _
  · exact (Run.passes_iff.mp (h.execute _ hs) _).mono fun _ _ _ _ => ⟨trivial, fun _ _ => trivial⟩
  · exact Run.passes_iff.mp (h.call _ _) _
  · exact Run.passes_iff.mp (h.callVirtual _ _ _) _
  · exact Run.passes_iff.mp (h.readHost _ _) _
  · exact Run.passes_iff.mpr fun _ => h.evaluate trivial he
  · exact Run.passes_iff.mpr fun _ => (h.execute trivial hs fun _ _ _ _ _ => trivial).tame
  · exact Run.passes_iff.mpr fun _ => h.call trivial trivial fun _ _ => trivial
  · exact Run.passes_iff.mpr fun _ => h.callVirtual this name args trivial
  · exact Run.passes_iff.mpr fun _ => h.readHost this name trivial

/-! ## Rules -/

namespace Run.Passes

variable {r : Run ε α} {cut : Stop → Run ε α}

theorem obeysAt (hr : (r w).Passes P fun s => cut s w) :
    r.ObeysAt P.law () (fun _ _ => True) cut w fun _ => w :=
  hr.obeys

theorem value (a : α) : (Pure.pure a : Run ε α).Passes P fun _ => Pure.pure a :=
  fun _ hw => .same (fun _ => rfl) hw

theorem exhausted : (Run.exhausted : Run ε α).Passes P fun _ => Run.exhausted :=
  fun _ _ => .same (fun _ => rfl) trivial

/-- One run after another, from one state. -/
theorem bind_at {k : α → Run ε β} {cut' : Stop → α → Run ε β} (hr : (r w).Passes P fun s => cut s w)
    (hk : ∀ a v, r w = .ok a v → P.Governs v → (k a v).Passes P fun s => cut' s a v) :
    ((r >>= k) w).Passes P fun s => (cut s >>= cut' s) w := by
  have hends : (r >>= k).ObeysAt P.law () (fun _ _ => True) (fun s => cut s >>= cut' s) w fun _ =>
      w := by
    refine .andThen (obeysAt hr) fun a v v' hrw hv _ _ => ?_
    obtain ⟨rfl, hv⟩ := hv
    exact (hk a v hrw hv).obeys
  exact Outcome.passes_of_obeys hends

theorem mapError_at {g : ε → δ} (hfits : ∀ e, P.fits (fault e) → P.fits (fault (g e)))
    (hcarries : (∀ s, cut s w = .stopped s) → ∀ e, P.carries (fault e) → P.carries (fault (g e)))
    (hr : (r w).Passes P fun s => cut s w) :
    (r.mapError g w).Passes P fun s => (cut s).mapError g w :=
  Outcome.passes_of_obeys ((obeysAt hr).mapError hfits fun e hstop => hcarries hstop e)

theorem mapError {g : ε → δ} (hfits : ∀ e, P.fits (fault e) → P.fits (fault (g e)))
    (hcarries : ∀ e, P.carries (fault e) → P.carries (fault (g e))) (hr : r.Passes P cut) :
    (r.mapError g).Passes P fun s => (cut s).mapError g :=
  fun w hw => mapError_at hfits (fun _ => hcarries) (hr w hw)

/-- **Another frame is put back**, whether the cut is met inside it or not. -/
theorem inFrame (shift : Shift) (hr : r.Passes P cut) :
    (Run.inFrame shift.apply r).Passes P fun s => Run.inFrame shift.apply (cut s) :=
  passes_iff.mpr fun h => .inFrame (L := P.law) shift (fun _ _ => trivial) (passes_iff.mp hr h)

end Run.Passes

/-! ## Steps -/

variable {again : Calls} {cut : Stop → Calls}

namespace Host

variable (h : again.Pass P cut)
include h

/-- Functions and host methods pass the cut. -/
theorem serves_passes : Calls.Serves (L := P.law) () again cut :=
  (Calls.pass_iff.mp h).serves (fun _ _ => ⟨(), trivial, trivial⟩) trivial

/-- **A call of the host** passes on what it starts. -/
theorem callVirtual_passes (this : HostId) (name : String) (args : List HostData) :
    (callVirtual again this name args).Passes P fun s => callVirtual (cut s) this name args :=
  passes_iff.mpr fun _ => callVirtual_tame (serves_passes h) this name args

/-- **A read of the host** passes on what it starts. -/
theorem readHost_passes (this : HostId) (name : String) :
    (readHost again this name).Passes P fun s => readHost (cut s) this name :=
  passes_iff.mpr fun _ => readHost_tame (serves_passes h) this name

end Host

namespace Evaluation

/-- The error that meets the cut is not taken by the statement. -/
structure Escapes (again : Calls) (cut : Stop → Calls) (stmt : Stmt) (w : World) : Prop where
  /-- There is no handler for it. -/
  uncaught : ∀ body clause cleanup span, stmt = .attempt body (some clause) cleanup span →
    ¬∀ s, executeBlock (cut s) body w = .stopped s
  /-- A cleanup after it ends normally. -/
  kept : ∀ body handler block span, stmt = .attempt body handler (some block) span →
    (∀ s, guarded (cut s) body handler w = .stopped s) →
    ∀ f v, guarded again body handler w = .error f v →
      ∃ v', executeBlock again block v = .ok .normal v'

/-- No job that is started with this heap meets the cut. -/
def JobsPass (cut : Stop → Calls) (w : World) : Prop :=
  ∀ job v, v.heap = w.heap → ¬∀ s, runTask (cut s) job v = .stopped s

/-- The call schedules a job. -/
def Schedules (w : World) (id : NativeId) : Prop :=
  ∃ n, w.heap.native? id = some n ∧ n.body = .builtin .runOn

/-- The error that meets the cut is neither taken by a job nor wrapped by a static block in such a
way that it is not carried any more. -/
structure Unchanged (P : Passage) (cut : Stop → Calls) (callee : Value) (w : World) : Prop where
  unscheduled : ∀ id, callee = .native id → Schedules w id → JobsPass cut w
  wrapped : ∀ id k, callee = .scriptClass id → w.heap.scriptClass? id = some k →
    (∀ s, bakedValues (cut s) k w = .stopped s) → ∀ f, P.carries f →
      P.carries (staticFault k.name f)

section Steps

variable (h : again.Pass P cut)
include h

/-- Blocks of such code. -/
theorem blocks_pass {body : List Stmt} (hb : ∀ s ∈ body, s.Throughout P.expr P.stmt) :
    Blocks P.law () heap again cut body :=
  (Calls.pass_iff.mp h).blocks hb trivial

theorem executeBlock_passes {body : List Stmt} (hb : ∀ s ∈ body, s.Throughout P.expr P.stmt) :
    (executeBlock again body).Passes P fun s => executeBlock (cut s) body :=
  passes_iff.mpr fun _ => (executeBlock_obeys (blocks_pass h hb)).tame

/-- **Expressions** pass a cut. -/
theorem valueOf_passes {e : Expr} (he : e.Throughout P.expr P.stmt) :
    (valueOf again e).Passes P fun s => valueOf (cut s) e :=
  passes_iff.mpr fun _ => (Calls.pass_iff.mp h).valueOf (fun _ _ => ⟨(), trivial, trivial⟩) trivial
    he

/-- A handler passes a cut that the body does not meet. -/
theorem guarded_passes {body : List Stmt} {handler : Option (String × List Stmt)} (hw : P.Governs w)
    (hb : ∀ s ∈ body, s.Throughout P.expr P.stmt)
    (hh : ∀ s ∈ handler.elim [] fun clause => clause.2, s.Throughout P.expr P.stmt)
    (hcut : handler.isSome → ¬∀ s, executeBlock (cut s) body w = .stopped s) :
    (guarded again body handler w).Passes P fun s => guarded (cut s) body handler w :=
  Outcome.passes_of_obeys (guarded_obeysAt (L := P.law) (p := ()) ⟨rfl, hw⟩ (blocks_pass h hb)
    (blocks_pass h hh) fun hsome _ _ _ hstop => absurd hstop (hcut hsome))

/-- **Statements** pass a cut if they do not take the error. -/
theorem step_passes {stmt : Stmt} (hs : stmt.Throughout P.expr P.stmt) (rounds : Nat)
    (hw : P.Governs w) (hl : Escapes again cut stmt w) :
    (step again rounds stmt w).Passes P fun s => step (cut s) rounds stmt w := by
  have hescapes : Stmt.Releases P.law again cut stmt w fun _ => w :=
    { uncaught := fun body clause cleanup span hstmt _ _ _ hstop =>
        absurd hstop (hl.uncaught body clause cleanup span hstmt)
      kept := fun body handler block span hstmt f v herror hstop _ =>
        hl.kept body handler block span hstmt hstop f v herror }
  have hcovered := (Calls.pass_iff.mp h).covered (p := ()) (h := w.heap) trivial hs fun _ _ _ _ _ =>
    trivial
  have hholds : P.law.Holds () w fun _ => w := ⟨rfl, hw⟩
  exact Outcome.passes_of_obeys (step_obeysAt (m := fun _ => rounds) hholds (fun _ => .inl rfl)
    hcovered
    hescapes)

theorem interpretAfter_passes {program : List Stmt} (last : Value)
    (hs : ∀ s ∈ program, s.Throughout P.expr P.stmt) :
    (interpretAfter again last program).Passes P fun s => interpretAfter (cut s) last program :=
  passes_iff.mpr fun _ => (Calls.pass_iff.mp h).interpretAfter (p := ()) trivial hs (fun _ _ _ _ =>
    trivial)
    trivial

/-! ### Jobs -/

theorem perform_passes (task : Task) :
    (perform again task).Passes P fun s => perform (cut s) task :=
  passes_iff.mpr fun heap => perform_obeys (fun callee _ => passes_iff.mp (h.call callee []) heap)
    fun _ _ _ hprogram => passes_iff.mp (interpretAfter_passes h .null (P.source hprogram)) heap

theorem runTask_passes (job : Job) : (runTask again job).Passes P fun s => runTask (cut s) job :=
  .inFrame (.top job.scope) (perform_passes h job.task)

/-- **A job** takes the errors of its task, so it passes a cut that the task does not meet. -/
theorem runJob_passes {job : Job} (hw : P.Governs w)
    (htask : ¬∀ s, runTask (cut s) job w = .stopped s) :
    (runJob again job).ObeysAt P.law () (fun _ _ => True)
      (fun s => runJob (cut s) job) w fun _ => w :=
  runJob_obeysAt (Run.Passes.obeysAt (runTask_passes h job w hw)) fun _ _ _ hstop =>
    absurd hstop htask

theorem schedulers_pass {args : List Value} (hw : P.Governs w) (hjobs : JobsPass cut w) :
    SchedulersObey P.law () again cut args w fun _ => w := by
  intro name scheduler task _ _ _
  refine schedule_obeysAt ⟨rfl, hw⟩ (fun _ => ?_) (fun _ => ⟨(), trivial, fun _ => ?_⟩)
    fun _ => ⟨rfl, hw.of_heap rfl⟩
  · exact runJob_passes h hw (hjobs _ w rfl)
  · exact runJob_passes h (hw.of_heap rfl) (hjobs _ _ rfl)

/-! ### Calls -/

theorem callNative_passes {id : NativeId} (args : List Value) (hw : P.Governs w)
    (hjobs : Schedules w id → JobsPass cut w) :
    (callNative again id args).ObeysAt P.law () (fun _ _ => True)
      (fun s => callNative (cut s) id args) w
      fun _ => w := by
  refine callNative_obeysAt ⟨rfl, hw⟩ fun n hn => ?_
  exact runNative_obeysAt ⟨rfl, hw⟩ trivial (fun _ _ => trivial) (fun _ _ => trivial)
    (fun _ => Host.serves_passes h)
      (fun _ _ callee args _ _ => passes_iff.mp (h.call callee args) _)
    fun hbody => schedulers_pass h hw (hjobs ⟨n, hn, hbody⟩)

/-- **Calls** pass a cut. -/
theorem callValue_passes {callee : Value} {args : List Value} (hw : P.Governs w)
    (hu : Unchanged P cut callee w) :
    (callValue again callee args w).Passes P fun s => callValue (cut s) callee args w := by
  have hholds : P.law.Holds () w fun _ => w := ⟨rfl, hw⟩
  refine Outcome.passes_of_obeys (callValue_obeysAt hholds (fun _ _ => trivial)
    (Host.serves_passes h)
    (fun id hid => callNative_passes h args hw (hu.unscheduled id hid)) fun id hid => ?_)
  refine instantiateBy_obeysAt hholds trivial (fun _ _ => trivial) (Host.serves_passes h)
    fun k hk => ?_
  have hblocks := hw.staticBlocks k (Array.mem_of_getElem? hk)
  exact bakedValues_obeysAt hholds (fun block hb => blocks_pass h (hblocks block hb))
    (hu.wrapped id k hid hk)

end Steps

end Evaluation

end ScriptEngine
