import ScriptEngine.Proofs.ErrorPaths
import ScriptEngine.Proofs.ParsedPlaces
import ScriptEngine.Proofs.QueueOrder
import ScriptEngine.Proofs.Termination
/-!
# The places of errors

All code that an engine is given in texts stands on lines, and every expression and statement places
the errors that it ends with. So whatever an engine executes fails at a line, and whatever goes out
from there keeps its place: to the one who asked the engine, or to a handler, which is told the line
and the message.

* `Passage.lines`, `World.OnLines` : code on lines, and errors that are placed on one if they are
  placed.
* `World.Supplied`, `World.Supplied.onLines` : the states of engines that are given code in texts.
* `Evaluation.Starts`, `Evaluation.Starts.onLines` : what an engine starts in the course of a
  request.
* `Evaluation.handle_eq` : the object that a handler is given.
* **`Evaluation.errors_keep_places`** : where errors are placed, and what becomes of their places.

An error is placed by the innermost expression or statement around it (`or_span`), and what a
handler sees is made by `error_value`. Code that a host puts together without a text stands on no
line, and is out of scope.
-/

namespace ScriptEngine

open Run Evaluation Engine
open Faulty (fault)

variable {α β : Type} {w w' v u : World} {f : Fault} {n m : Nat} {a b c : Activity}

/-! ## Code on lines -/

/-- If the fault is placed, then on a line. -/
def Fault.PlacedOnLine (f : Fault) : Prop := ∀ span, f.span = some span → 1 ≤ span.line

theorem Fault.PlacedOnLine.orSpan (hf : f.PlacedOnLine) {span : Span} (hspan : 1 ≤ span.line) :
    (f.orSpan span).PlacedOnLine := by
  intro other h
  rw [Fault.orSpan] at h
  cases hf' : f.span with
  | none =>
    rw [hf'] at h
    cases h
    exact hspan
  | some place =>
    rw [hf'] at h
    cases h
    exact hf _ hf'

theorem Fault.OnLine.placedOnLine (hf : f.OnLine) : f.PlacedOnLine := by
  obtain ⟨place, hplace, hline⟩ := hf
  intro span hspan
  cases hplace.symm.trans hspan
  exact hline

/-- All nodes stand on lines, and errors that are placed are on one. Nothing is carried. -/
def Passage.lines : Passage where
  expr := Expr.Sourced
  stmt := Stmt.Sourced
  fits := Fault.PlacedOnLine
  carries _ := False
  fits_fresh hf _ hspan := by cases hf.symm.trans hspan
  fits_expr he hf := hf.orSpan he.line
  fits_stmt hs hf := hf.orSpan hs.line
  fits_mention hs hmention hf := hf.orSpan (hs.superclass _ rfl _ hmention)
  fits_static hf := hf
  fits_source hread := ((Parser.sourced_of_programOf? _).2 _ hread).placedOnLine
  source hread := (Parser.sourced_of_programOf? _).1 _ hread
  carries_orSpan _ hf := hf

/-- All code in the heap stands on lines. -/
abbrev World.OnLines (w : World) : Prop := Passage.lines.Governs w

/-- The code of the activity stands on lines. -/
abbrev Activity.OnLines (a : Activity) : Prop := a.Conforms .lines

namespace Run.Passes

variable {P : Passage} {ε : Type} [Faulty ε] {r : Run ε α}

/-- A run that is compared with itself leaves code as it should be. -/
theorem governs_of_endsIn (hr : r.Passes P fun _ => r) (hw : P.Governs w) (hend : (r w).EndsIn w') :
    P.Governs w' := by
  obtain ⟨-, hfine⟩ := (hr w hw).fine Outcome.not_cut
  rcases hend with ⟨a, hend⟩ | ⟨e, hend⟩
  · rw [hend] at hfine
    exact hfine
  · rw [hend] at hfine
    exact hfine.1

/-- And its errors are fit. -/
theorem fits_of_error {e : ε} (hr : r.Passes P fun _ => r) (hw : P.Governs w)
    (hend : r w = .error e w') :
    P.fits (fault e) := by
  obtain ⟨-, hfine⟩ := (hr w hw).fine Outcome.not_cut
  rw [hend] at hfine
  exact hfine.2

end Run.Passes

/-! ## Errors that are placed -/

/-- All errors of the run are placed. -/
def Run.Placing (r : Script α) : Prop := ∀ w f u, r w = .error f u → ∃ span, f.span = some span

namespace Run.Placing

variable {r : Script α}

theorem placedAt (span : Span) (r : Script α) : (Script.placedAt span r).Placing := by
  intro w f u h
  simp only [Script.placedAt, Run.mapError] at h
  cases hr : r w with
  | ok a v => rw [hr] at h; cases h
  | stopped s => rw [hr] at h; cases h
  | error e v =>
    rw [hr] at h
    cases h
    rw [Fault.orSpan]
    cases e.span with
    | none => exact ⟨span, rfl⟩
    | some place => exact ⟨place, rfl⟩

/-- Errors may be told more. -/
theorem mapError {g : Fault → Fault} (hg : ∀ e, (g e).span = e.span) (hr : r.Placing) :
    (r.mapError g).Placing := by
  intro w f u h
  simp only [Run.mapError] at h
  cases hrw : r w with
  | ok a v => rw [hrw] at h; cases h
  | stopped s => rw [hrw] at h; cases h
  | error e v =>
    rw [hrw] at h
    cases h
    rw [hg]
    exact hr w _ _ hrw

/-- There are none. -/
theorem never (h : ∀ w f u, r w ≠ .error f u) : r.Placing := fun w f u hr => absurd hr (h w f u)

theorem bind {k : α → Script β} (hr : r.Placing) (hk : ∀ a, (k a).Placing) : (r >>= k).Placing := by
  intro w f u h
  simp only [Bind.bind] at h
  cases hrw : r w with
  | ok a v =>
    rw [hrw] at h
    exact hk a v f u h
  | error e v =>
    rw [hrw] at h
    cases h
    exact hr w _ _ hrw
  | stopped s => rw [hrw] at h; cases h

theorem inFrame {g : Frame → Frame} (hr : r.Placing) : (Run.inFrame g r).Placing := by
  intro w f u h
  rw [inFrame_eq] at h
  cases hrw : r { w with frame := g w.frame } with
  | ok a v => rw [hrw] at h; cases h
  | stopped s => rw [hrw] at h; cases h
  | error e v =>
    rw [hrw] at h
    cases h
    exact hr _ _ _ hrw

theorem forEach {r : β → Script (Option α)} {final : α} (hr : ∀ b, (r b).Placing) :
    ∀ bs : List β, (Run.forEach r final bs).Placing
  | [] => .never fun _ _ _ h => by cases h
  | b :: bs => by
    rw [forEach_cons]
    refine .bind (hr b) fun o => ?_
    cases o with
    | some a => exact .never fun _ _ _ h => by cases h
    | none => exact forEach hr bs

theorem collect {r : β → Script α} (hr : ∀ b, (r b).Placing) :
    ∀ bs : List β, (Run.collect r bs).Placing
  | [] => .never fun _ _ _ h => by cases h
  | b :: bs => .bind (hr b) fun _ => .bind (collect hr bs) fun _ => .never fun _ _ _ h => by cases h

/-- Placing errors that are placed changes nothing. -/
theorem placedAt_eq (hr : r.Placing) (span : Span) : Script.placedAt span r = r := by
  funext w
  cases hw : r w with
  | ok a v => exact mapError_of_ok hw
  | stopped s => exact mapError_of_stopped hw
  | error f v =>
    obtain ⟨place, hplace⟩ := hr w f v hw
    exact (mapError_of_error hw).trans (by rw [Fault.orSpan_of_span hplace])

end Run.Placing

namespace Evaluation

theorem evaluate_placing (e : Expr) : ∀ n, ((machine n).evaluate e).Placing
  | 0 => .never fun _ _ _ h => by cases h
  | _ + 1 => .placedAt _ _

theorem execute_placing (stmt : Stmt) : ∀ n, ((machine n).execute stmt).Placing
  | 0 => .never fun _ _ _ h => by cases h
  | _ + 1 => .placedAt _ _

theorem executeIn_placing (n : Nat) (scope : ScopeId) (body : List Stmt) :
    (executeIn (machine n) scope body).Placing := by
  have hsignal (stmt : Stmt) : (signalOf (machine n) stmt).Placing :=
    .bind (execute_placing stmt n)
      fun flow => by cases flow <;> exact .never fun _ _ _ h => by cases h
  unfold executeIn Script.inScope
  exact .inFrame (.forEach hsignal body)

theorem executeBlock_placing (n : Nat) (body : List Stmt) :
    (executeBlock (machine n) body).Placing :=
  .bind (.never fun _ _ _ h => by cases h) fun _ =>
    .bind (.never fun _ _ _ h => by cases h) fun scope => executeIn_placing n scope body

theorem interpretAfter_placing (n : Nat) : ∀ (program : List Stmt) (last : Value),
    (interpretAfter (machine n) last program).Placing
  | [], _ => .never fun _ _ _ h => by cases h
  | stmt :: program, last => by
    cases stmt with
    | expr e => exact .bind (evaluate_placing e n) fun v => interpretAfter_placing n program v
    | _ => exact .bind (execute_placing _ n) fun _ => interpretAfter_placing n program .null

/-- **A block fails at a line.** -/
theorem onLine_of_executeBlock {body : List Stmt} (hv : v.OnLines) (hbody : ∀ s ∈ body, s.Traced)
    (hfails : executeBlock (machine n) body v = .error f u) : f.OnLine := by
  obtain ⟨span, hspan⟩ := executeBlock_placing n body v f u hfails
  have hpasses := executeBlock_passes (machine_pass .lines n) hbody
  exact ⟨span, hspan, hpasses.fits_of_error hv hfails span hspan⟩

end Evaluation

/-! ## Engines that are given code in texts -/

/-- What an engine is asked for: a request, whose program was read from a text if it has one, or a
job that waited. -/
inductive Entry : (Calls → Script Unit) → Prop
  | execute (source : String) : Entry fun again => (sourceBy again source).ending
  | runProgram {source : String} {program : List Stmt}
      (hread : Parser.programOf? source = .ok program) :
    Entry fun again => (programIn again globalScope program).ending
  | call (callee : Value) (args : List Value) :
    Entry fun again => (Run.inFrame (fun _ => .top globalScope) (again.call callee args)).ending
  | job (job : Job) : Entry fun again => (runTask again job).ending
  | callVirtual (this : HostId) (name : String) (args : List HostData) :
    Entry fun again => (again.callVirtual this name args).ending
  | readHost (this : HostId) (name : String) : Entry fun again => (again.readHost this name).ending

/-- The states of engines that are given code in texts alone. Between requests the host may change
everything but the script functions and classes in the heap. -/
inductive World.Supplied : World → Prop
  | created (settings : Settings) (clock : Float) (seed : UInt64) :
      Supplied (Engine.create settings clock seed)
  | entered {start : Calls → Script Unit} {w w' : World} (hstart : Entry start) (hw : Supplied w)
      (hend : (start calls w).EndsIn w') : Supplied w'
  | beside {w w' : World} (hw : Supplied w) (hfunctions : w'.heap.functions = w.heap.functions)
      (hclasses : w'.heap.classes = w.heap.classes) : Supplied w'

/-- What is asked for leaves code on lines if it finds such code. -/
theorem Entry.passes {start : Calls → Script Unit} (hstart : Entry start) {again : Calls}
    {cut : Stop → Calls} (h : again.Pass .lines cut) :
    (start again).Passes .lines fun s => start (cut s) := by
  intro w hw
  cases hstart with
  | execute source =>
    refine ending_passes ?_
    cases hread : Parser.programOf? source with
    | error f =>
      have hfails (again : Calls) : sourceBy again source w = .error f w := by
        simp only [sourceBy, hread]
        rfl
      simp only [hfails]
      exact .same (fun _ => rfl) ⟨hw, Passage.lines.fits_source hread⟩
    | ok program =>
      have hruns (again : Calls) : sourceBy again source w =
          (programIn again globalScope program).mapError (·.withSource source) w := by
        simp only [sourceBy, hread]
      simp only [hruns]
      have hprogram : (programIn again globalScope program).Passes .lines
          fun s => programIn (cut s) globalScope program :=
        .inFrame (.top globalScope) (interpretAfter_passes h .null (Passage.lines.source hread))
      refine Run.Passes.mapError_at (fun f hf span hspan => hf span ?_) (fun _ _ hf => hf)
        (hprogram w hw)
      exact (f.span_withSource source).symm.trans hspan
  | runProgram hread =>
    exact ending_passes (Run.Passes.inFrame (.top globalScope)
      (interpretAfter_passes h .null (Passage.lines.source hread)) w hw)
  | call callee args =>
    exact ending_passes (Run.Passes.inFrame (.top globalScope) (h.call callee args) w hw)
  | job job => exact ending_passes (runTask_passes h job w hw)
  | callVirtual this name args => exact ending_passes (h.callVirtual this name args w hw)
  | readHost this name => exact ending_passes (h.readHost this name w hw)

namespace World

theorem onLines_initial (settings : Settings) (clock : Float) (seed : UInt64) :
    (initial settings clock seed).OnLines where
  functions g hg := by simp [initial, Heap.initial] at hg
  staticBlocks k hk := by simp [initial, Heap.initial] at hk
  natives _ _ := trivial
  hostClasses _ _ := trivial
  environment := trivial

/-- **All code of such engines stands on lines.** -/
theorem Supplied.onLines (hw : w.Supplied) : w.OnLines := by
  induction hw with
  | created settings clock seed =>
    exact (Discipline.at_create (D := Passage.lines.discipline) (fun _ => trivial)
      ⟨onLines_initial settings clock seed, rfl, rfl⟩).governs
  | entered hstart _ hend ih =>
    exact (hstart.passes (machine_pass .lines budget)).governs_of_endsIn ih hend
  | beside _ hfunctions hclasses ih =>
    exact ⟨hfunctions ▸ ih.functions, hclasses ▸ ih.staticBlocks, fun _ _ => trivial, fun _ _ =>
      trivial, trivial⟩

end World

/-- A run that ends with a value or an error, but for its value. -/
theorem Run.endsIn_ending {ε : Type} [Faulty ε] {r : Run ε α} (hend : (r w).EndsIn w') :
    (r.ending w).EndsIn w' := by
  rcases hend with ⟨a, hend⟩ | ⟨e, hend⟩
  · exact .inl ⟨(), bind_of_ok (mapError_of_ok hend)⟩
  · exact .inr ⟨_, ending_of_error hend⟩

namespace World.Supplied

/-- Executing a source text leads from one such state to another, whether it fails or not. -/
theorem execute {source : String} (hw : w.Supplied) (hend : (Engine.execute source w).EndsIn w') :
    w'.Supplied :=
  .entered (.execute source) hw (endsIn_ending hend)

theorem call {callee : Value} {args : List Value} (hw : w.Supplied)
    (hend : (Engine.call callee args w).EndsIn w') :
    w'.Supplied :=
  .entered (.call callee args) hw (endsIn_ending hend)

theorem handOff {task : Task} (hw : w.Supplied) (hend : (Engine.handOff task w).EndsIn w') :
    w'.Supplied :=
  .entered (.job ⟨globalScope, task⟩) hw (endsIn_ending hend)

theorem runJob {job : Job} (hw : w.Supplied) (hend : Evaluation.runJob calls job w = .ok () w') :
    w'.Supplied := by
  rw [runJob_eq] at hend
  cases hrun : runTask calls job w with
  | ok a v =>
    rw [hrun] at hend
    cases hend
    exact .entered (.job job) hw (endsIn_ending (.inl ⟨a, hrun⟩))
  | error f v =>
    rw [hrun] at hend
    cases hend
    exact .beside (.entered (.job job) hw (endsIn_ending (.inr ⟨f, hrun⟩))) rfl rfl
  | stopped s => rw [hrun] at hend; cases hend

/-- And so does draining a queue. -/
theorem runPending {queue : String} {jobs : Nat} (hw : w.Supplied)
    (hend : Engine.runPending queue w = .ok jobs w') :
    w'.Supplied := by
  obtain ⟨started, hdrains, -⟩ := drain_eq_ok_iff.mp hend
  clear hend
  induction hdrains with
  | done => exact hw
  | next htake hrun _ ih =>
    have hheap := congrArg World.heap (pending_takeJob htake).1
    exact ih ((hw.beside (congrArg Heap.functions hheap) (congrArg Heap.classes hheap)).runJob hrun)

end World.Supplied

/-! ## What is started in the course of it -/

namespace Evaluation

/-- What is started in the course of a run that an engine is asked for, in which state and within
which budget. -/
inductive Starts (start : Calls → Script Unit) (w : World) : Nat → Activity → World → Prop
  | first {b : Activity} {v : World} (h : calls.Awaits start w b v) : Starts start w budget b v
  | next {n : Nat} {a b : Activity} {v u : World} (ha : Starts start w (n + 1) a v)
      (h : (machine n).Awaits (a.step n ·) v b u) : Starts start w n b u

/-- **All that is started** is code on lines, and in its state there is no other. -/
theorem Starts.onLines {start : Calls → Script Unit} (hstart : Entry start) (hw : w.Supplied)
    (h : Starts start w n b v) : b.OnLines ∧ v.OnLines := by
  induction h with
  | first h =>
    exact h.conforms (fun _ => id) (machine_pass .lines budget) fun cut hcut =>
      hstart.passes hcut w hw.onLines
  | @next n a b v u _ h ih =>
    obtain ⟨ha, hv⟩ := ih
    exact h.conforms (fun _ => id) (machine_pass .lines n) fun cut hcut =>
      a.step_passes hcut ha n hv (Activity.letsPass_of_never (fun _ => id) hcut ha hv)

/-! ## Handlers -/

/-- What a handler is told of an error. -/
def reportOf (f : Fault) (line : Nat) : Fields :=
  [("message", .string f.message), ("line", .number (Float.ofNat line))]

/-- In a new scope a name is bound, and looked up at once. -/
theorem define_addChild (h : Heap) (parent : ScopeId) (name : String) (value : Value) (w : World) :
    Script.define (h.addChild parent).1 name value { w with heap := (h.addChild parent).2 } =
        .ok ()
          { w with heap := (h.addChild parent).2.bind (h.addChild parent).1 name ⟨value, false⟩ } ∧
      ((h.addChild parent).2.bind (h.addChild parent).1 name ⟨value, false⟩).lookup
        (h.addChild parent).1 name =
          some value := by
  have hnew : (h.addChild parent).2.scope (h.addChild parent).1 = ⟨some parent, []⟩ := by
    simp [Heap.scope, Heap.addChild, Array.getD]
  have hfree : (h.addChild parent).2.declareError? (h.addChild parent).1 name = none := by
    unfold Heap.declareError?
    rw [hnew]
    rfl
  have hbound := Heap.binding_bind_self (h := (h.addChild parent).2) (s := (h.addChild parent).1)
    (by simp [Heap.addChild]) name ⟨value, false⟩
  constructor
  · simp only [Script.define, Script.declare, hfree]
  · unfold Heap.lookup Heap.find? Heap.findFrom
    simp only [hbound]
    rfl

/-- The scope and the state in which a handler starts: its name is bound in a new scope to a new
object of the given fields. -/
def handlerStart (name : String) (fields : Fields) (w : World) : ScopeId × World :=
  let (e, heap) := w.heap.addFields fields
  let (scope, inner) := heap.addChild w.frame.scope
  (scope, { w with heap := inner.bind scope name ⟨e, false⟩ })

/-- Nothing can fail on the way from an error into its handler. -/
theorem handle_eq_executeIn (again : Calls) (name : String) (handler : List Stmt) (f : Fault)
    (w : World) :
    handle again name handler f w =
      executeIn again (handlerStart name (reportOf f f.line) w).1 handler
        (handlerStart name (reportOf f f.line) w).2 := by
  let heap := (w.heap.addFields (reportOf f f.line)).2
  have hobject : errorObject f w = .ok (w.heap.addFields (reportOf f f.line)).1 { w with heap } :=
    rfl
  have hcurrent : Script.currentScope { w with heap } = .ok w.frame.scope { w with heap } := rfl
  have hscope : Script.childScope w.frame.scope { w with heap } =
      .ok (heap.addChild w.frame.scope).1 { w with heap := (heap.addChild w.frame.scope).2 } := rfl
  have hdefine := (define_addChild heap w.frame.scope name (w.heap.addFields (reportOf f f.line)).1
    w).1
  rw [handle, bind_of_ok hobject, bind_of_ok hcurrent, bind_of_ok hscope]
  exact bind_of_ok hdefine

/-- **A handler** is executed in a new scope, in which its name is bound to a new object that holds
the message and the line of the error. -/
theorem handle_eq (again : Calls) (name : String) (handler : List Stmt) {span : Span}
    (hf : f.span = some span) (w : World) :
    ∃ scope object v, handle again name handler f w = executeIn again scope handler v ∧
      v.heap.lookup scope name = some (.object object) ∧ (v.heap.object object).fields =
        reportOf f span.line := by
  have hline : f.line = span.line := by simp [Fault.line, hf]
  have hlookup := (define_addChild (w.heap.addFields (reportOf f f.line)).2 w.frame.scope name
    (w.heap.addFields (reportOf f f.line)).1 w).2
  refine ⟨_, _, _, handle_eq_executeIn again name handler f w, hlookup, ?_⟩
  rw [hline]
  simp [handlerStart, Heap.addFields, Heap.addObject, Heap.object, Heap.bind, Heap.addChild]

/-- A cleanup after an error: the error goes on after one that ends normally, and any other one
decides how the whole ends. -/
theorem attempt_of_error {again : Calls} {body block : List Stmt}
    {handler : Option (String × List Stmt)} (hfails : guarded again body handler w = .error f v) :
    attempt again body handler (some block) w =
      (executeBlock again block >>= fun flow =>
        if flow = .normal then Run.raise f else pure flow : Script Flow) v := by
  have hattempt : (Run.attempt (guarded again body handler) : Script (Except Fault Flow)) w =
      .ok (.error f) v := by
    simp only [Run.attempt, hfails]
  refine (bind_of_ok hattempt).trans ?_
  simp only [Bind.bind]
  cases executeBlock again block v with
  | ok flow u => cases flow <;> rfl
  | error e u => rfl
  | stopped s => rfl

/-- Where errors are placed, and what becomes of their places. -/
structure PlacesKept : Prop where
  /-- An execution fails at a line. -/
  returned : ∀ {source : String} {w w' : World} {f : Fault}, w.Supplied →
    Engine.execute source w = .error f w' → f.OnLine
  /-- Expressions fail at a place. -/
  expression : ∀ {n : Nat} {e : Expr} {w u : World} {f : Fault}, (machine n).evaluate e w =
    .error f u →
    ∃ span, f.span = some span
  /-- So do statements. -/
  statement : ∀ {n : Nat} {stmt : Stmt} {w u : World} {f : Fault}, (machine n).execute stmt w =
    .error f u →
    ∃ span, f.span = some span
  /-- An error is placed at most once on its way, and nothing else is done to it if no static block
  is on the way. -/
  placed_once : ∀ {n m : Nat} {a c : Activity} {w u w' : World} {f : Fault}, Encloses True n a w m c
    u →
    c.run (machine m) u = .error f w' →
      ∃ f' u', a.run (machine n) w = .error f' u' ∧ (f' = f ∨ ∃ span, f' = f.orSpan span)
  /-- Expressions, statements, loops, calls, members of the host and static blocks around an error
  that is placed fail at the same place, and with no static block between them with the same
  error. -/
  passed_on : ∀ {bare : Prop} {n m : Nat} {a c : Activity} {w u w' : World} {f : Fault}
    {span : Span},
    Encloses bare n a w m c u → c.run (machine m) u = .error f w' → f.span = some span →
      ∃ f' u', a.run (machine n) w = .error f' u' ∧ f'.span = some span ∧ (bare → f' = f)
  /-- And so does an execution, which shows the line of the text. -/
  executed : ∀ {bare : Prop} {source : String} {program : List Stmt} {m : Nat} {b c : Activity}
    {w v u w' : World} {f : Fault} {span : Span}, Parser.programOf? source = .ok program →
    calls.Awaits (programIn · globalScope program) w b v → Encloses bare budget b v m c u →
    c.run (machine m) u = .error f w' → f.span = some span →
      ∃ f' u', Engine.execute source w = .error f' u' ∧ f'.span = some span ∧
        (bare → f' = f.withSource source)
  /-- After an error a cleanup that ends normally passes it on. Any other end of the cleanup is the
  end of all. -/
  cleaned_up : ∀ {n : Nat} {body block : List Stmt} {handler : Option (String × List Stmt)}
    {w v : World} {f : Fault},
    guarded (machine n) body handler w = .error f v →
      attempt (machine n) body handler (some block) w =
        (executeBlock (machine n) block >>= fun flow =>
          if flow = .normal then Run.raise f else pure flow : Script Flow) v
  /-- What is inside the body of a try statement and fails at a place, that is what the body fails
  with. -/
  heard : ∀ {bare : Prop} {n m : Nat} {body : List Stmt} {b c : Activity} {w v u w' : World}
    {f : Fault} {span : Span},
    (machine n).Awaits (executeBlock · body) w b v → Encloses bare n b v m c u →
    c.run (machine m) u = .error f w' → f.span = some span →
      ∃ f' u', executeBlock (machine n) body w = .error f' u' ∧ f'.span = some span ∧
        (bare → f' = f)
  /-- Wherever the body of a try statement with a handler fails, it fails at a line, and the handler
  is executed with its name bound to an object that holds the message and the line of the error. -/
  caught : ∀ {start : Calls → Script Unit} {n : Nat} {body handler : List Stmt} {name : String}
    {cleanup : Option (List Stmt)} {place : Span} {w v u : World}
    {f : Fault}, Entry start → w.Supplied →
    Starts start w (n + 1) (.execute (.attempt body (some (name, handler)) cleanup place)) v →
    executeBlock (machine n) body v = .error f u →
      ∃ span scope object u', f.span = some span ∧ 1 ≤ span.line ∧
        guarded (machine n) body (some (name, handler)) v = executeIn (machine n) scope handler u' ∧
        u'.heap.lookup scope name = some (.object object) ∧
        (u'.heap.object object).fields =
          [("message", .string f.message), ("line", .number (Float.ofNat span.line))]

theorem onLine_of_execute {source : String} (hw : w.Supplied)
    (hfails : Engine.execute source w = .error f w') :
    f.OnLine := by
  have hfits : f.PlacedOnLine :=
    ((Entry.execute source).passes (machine_pass .lines budget)).fits_of_error hw.onLines
      (ending_of_error hfails)
  suffices hplaced : ∃ span, f.span = some span by
    obtain ⟨span, hspan⟩ := hplaced
    exact ⟨span, hspan, hfits span hspan⟩
  have hfails : sourceBy calls source w = .error f w' := hfails
  unfold sourceBy at hfails
  cases hread : Parser.programOf? source with
  | error e =>
    rw [hread] at hfails
    cases hfails
    obtain ⟨span, hspan, -⟩ := (Parser.sourced_of_programOf? source).2 _ hread
    exact ⟨span, hspan⟩
  | ok program =>
    rw [hread] at hfails
    have hplacing : (programIn calls globalScope program).Placing :=
      .inFrame (interpretAfter_placing _ program .null)
    exact hplacing.mapError (·.span_withSource source) w f w' hfails

/-- **Errors keep their places.** -/
theorem errors_keep_places : PlacesKept where
  returned := onLine_of_execute
  expression h := evaluate_placing _ _ _ _ _ h
  statement h := execute_placing _ _ _ _ _ h
  placed_once h hc := h.placed_once hc
  passed_on h hc hf := h.kept hc hf
  executed {_ source program _ _ _ w _ _ _ f span} hread hawaits hinner hc hf := by
    obtain ⟨f', u', hruns, hspan, hsame⟩ :=
      ((interpret_passesOn program).inFrame (.top globalScope)).kept hawaits hinner hc hf
    refine ⟨f'.withSource source, u', ?_, (f'.span_withSource source).trans hspan, fun hbare => ?_⟩
    · have hexecute : Engine.execute source w = (programIn calls globalScope program).mapError
          (·.withSource source) w := by
        unfold Engine.execute
        rw [hread]
        rfl
      rw [hexecute]
      exact mapError_of_error hruns
    · exact congrArg (·.withSource source) (hsame hbare)
  cleaned_up := attempt_of_error
  heard hawaits hinner hc hf := (executeBlock_passesOn _).kept hawaits hinner hc hf
  caught {_ n body handler name cleanup place w v u f} hstart hw hstarts hfails := by
    obtain ⟨htry, hv⟩ := hstarts.onLines hstart hw
    obtain ⟨span, hspan, hline⟩ :=
      onLine_of_executeBlock hv (fun s hs => (Stmt.throughout_iff.mp htry).2.2.1 s
      (List.mem_append_left _ (List.mem_append_left _ hs))) hfails
    obtain ⟨scope, object, u', heq, hlookup, hfields⟩ := handle_eq (machine n) name handler hspan u
    exact ⟨span, scope, object, u', hspan, hline, (guarded_of_error hfails).trans heq, hlookup,
      hfields⟩

/-- A function that reads a name that is not bound, on its second line, and a call of it on the
fourth. -/
def widthText : String := "fun inner() \x7b\n  return width\n\x7d\ninner()"

/-- The line of the error that a run ends with. -/
def lineOf? {α : Type} : Outcome Fault α → Option Nat
  | .error f _ => some f.line
  | _ => none

/-- The text fails at its second line. -/
theorem errors_keep_places_widthText :
    ∃ f w', Engine.execute widthText (Engine.create .default 0 0) = .error f w' ∧
    f.line = 2 ∧ f.OnLine := by
  have hline : lineOf? (Engine.execute widthText (Engine.create .default 0 0)) =
    some 2 := by decide +kernel
  generalize hrun : Engine.execute widthText (Engine.create .default 0 0) = o at hline ⊢
  cases o with
  | error f w' =>
    exact ⟨f, w', rfl, Option.some.inj hline, errors_keep_places.returned (.created ..) hrun⟩
  | ok v w' => cases hline
  | stopped s => cases hline

end Evaluation

end ScriptEngine
