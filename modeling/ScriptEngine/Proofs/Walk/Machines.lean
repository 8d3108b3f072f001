import ScriptEngine.Evaluation.Machine
import ScriptEngine.Proofs.Walk.Calls
/-!
# Machines under a law

The walk over the machine is closed here. A grammar says which expressions and statements a law is
about; it passes from a tree to the parts of the tree, from functions to their bodies and from
source text to programs. If all that a step starts again obeys the law on trees of the grammar, so
does every step, and so by induction on the budget does the machine.

* `Grammar` : the trees that a law is about.
* `Law.Zone` : places that code does not leave but by calls and threads.
* `Calls.Obey` : what a step starts again obeys the law, the statements of functions in a zone of
  their own.
* `Calls.Obey.serves`, `Calls.Obey.valueOf`, `Calls.Obey.step`, … : every step.
* `Grammar.Closed` : what is known of threads and jobs.
* `Evaluation.machine_obeys` : the machine, by induction on its budget.
-/

namespace ScriptEngine

open Run

/-- Trees that a law is about. -/
structure Grammar (L : Law) where
  expr : Expr → Prop := fun _ => True
  stmt : Stmt → Prop := fun _ => True
  expr_places : ∀ {e}, expr e → L.Places e.span
  stmt_places : ∀ {s}, stmt s → L.Places s.span
  mention_places : ∀ {s}, stmt s → ∀ mention ∈ s.mentions, L.Places mention.2
  children : ∀ {e}, expr e → ∀ e' ∈ e.children, expr e' := by intros; trivial
  lambdas : ∀ {e}, expr e → ∀ decl ∈ e.functions, L.function decl
  reads : ∀ {e}, expr e → ∀ name ∈ e.reads, L.readable name := by intros; trivial
  exprs : ∀ {s}, stmt s → ∀ e ∈ s.exprs, expr e := by intros; trivial
  inner : ∀ {s}, stmt s → ∀ s' ∈ s.inner, stmt s' := by intros; trivial
  functions : ∀ {s}, stmt s → ∀ decl ∈ s.functions, L.function decl
  staticBlocks : ∀ {s}, stmt s → ∀ block ∈ s.staticBlocks, L.staticBlock block
  /-- Branches and bodies of loops, which stand in the scope around them. -/
  branches : ∀ {s}, stmt s → s.opens = false → ∀ s' ∈ s.inner, ∀ name, s'.Binds name →
    ∀ p, L.Declares p name
  bodies : ∀ {decl}, L.function decl → ∀ s ∈ decl.body, stmt s := by intros; trivial
  blocks : ∀ {block}, L.staticBlock block → ∀ s ∈ block, stmt s := by intros; trivial
  stops : L.stops .exhausted

/-- All trees, for a law that asks nothing of them. -/
def Grammar.every {L : Law} (hplaces : ∀ span, L.Places span) (hfunction : ∀ decl, L.function decl)
    (hblock : ∀ block, L.staticBlock block) (hreadable : ∀ name, L.readable name)
    (hdeclares : ∀ p name, L.Declares p name) (hstops : L.stops .exhausted) : Grammar L where
  expr_places _ := hplaces _
  stmt_places _ := hplaces _
  mention_places _ _ _ := hplaces _
  lambdas _ decl _ := hfunction decl
  reads _ name _ := hreadable name
  functions _ decl _ := hfunction decl
  staticBlocks _ block _ := hblock block
  branches _ _ _ _ name _ p := hdeclares p name
  stops := hstops

/-- Places that code does not leave but by calls and threads. -/
structure Law.Zone (L : Law) where
  Mem : L.Place → Prop
  enter : ∀ {p} shift, Mem p → Mem (L.enter shift p)
  child : ∀ {p} s, Mem p → Mem (L.child p s)

namespace Law.Zone

variable {L : Law}

/-- All places. -/
def all (L : Law) : L.Zone := ⟨fun _ => True, fun _ => id, fun _ => id⟩

theorem within {Z : L.Zone} {p q : L.Place} (hp : Z.Mem p) (hq : L.Within p q) : Z.Mem q := by
  induction hq with
  | refl => exact hp
  | enter _ shift ih => exact Z.enter shift ih
  | child _ s ih => exact Z.child s ih

/-- Inside of a call that is made in the first zone there is a place of the second one. -/
def Opens (Z Z' : L.Zone) : Prop := ∀ p, Z.Mem p → ∃ q, L.Inside p q ∧ Z'.Mem q

end Law.Zone

variable {L : Law} {G : Grammar L} {Z Z' : L.Zone} {p q : L.Place} {h : Heap} {w : World}
    {w' : L.Case → World}
  {again : Calls} {again' : L.Case → Calls}

/-- What a step starts again obeys the law on the trees of the grammar, in the first zone, but for
statements, which are executed in the second one. -/
structure Calls.Obey (G : Grammar L) (Z Z' : L.Zone) (again : Calls) (again' : L.Case → Calls) :
    Prop where
  evaluate : ∀ {p h e}, Z.Mem p → G.expr e → Evaluates L p h again again' e
  execute : ∀ {q h s}, Z'.Mem q → G.stmt s → (∀ name, s.Binds name → L.Declares q name) →
    Executes L q h again again' s
  call : ∀ {p h callee} {args : List Value}, Z.Mem p → L.Known h callee →
    (∀ v ∈ args, L.Known h v) →
    (again.call callee args).Obeys L p h L.Known fun i => (again' i).call callee args
  callVirtual : ∀ {p h} this name args, Z.Mem p →
    (again.callVirtual this name args).Obeys L p h (fun _ _ => True) fun i =>
      (again' i).callVirtual this name args
  readHost : ∀ {p h} this name, Z.Mem p →
    (again.readHost this name).Obeys L p h (fun _ _ => True) fun i => (again' i).readHost this name

namespace Calls.Obey

/-! ## Steps -/

section Steps

variable (ho : Calls.Obey G Z Z' again again')
include ho

/-- Statements of the grammar in scopes of their own. -/
theorem blocks {body : List Stmt} (hb : ∀ s ∈ body, G.stmt s) (hq : Z'.Mem q) :
    Blocks L q h again again' body :=
  fun s hs _ hin hd => ho.execute (Z'.within hq hin) (hb s hs) fun name _ => hd name

theorem callFunction (hopens : Z.Opens Z') (hp : Z.Mem p) (id : FunctionId) {this : Option Value}
    {args : List Value} (ht : ∀ v ∈ this, L.Known h v) (ha : ∀ v ∈ args, L.Known h v) :
    (Evaluation.callFunction again id this args).Obeys L p h L.Known
      fun i => Evaluation.callFunction (again' i) id this args := by
  obtain ⟨q, hin, hq⟩ := hopens p hp
  exact Evaluation.callFunction_obeys hin (fun _ _ hdecl => ho.blocks (G.bodies hdecl) hq) id ht ha

/-- **Functions and host methods** obey the law. -/
theorem serves (hopens : Z.Opens Z') (hp : Z.Mem p) : Calls.Serves L p again again' where
  function := ho.callFunction hopens hp
  method _ m _ this args := Host.runBody_tame (ho.callFunction hopens (Z.enter _ hp))
    (fun _ _ _ => ho.callVirtual _ _ _ hp) (fun _ _ => ho.readHost _ _ hp) this args m.body
  fromHost := ho.callFunction hopens (Z.enter _ hp)

/-- **Expressions** obey the law. -/
theorem valueOf (hopens : Z.Opens Z') (hp : Z.Mem p) {e : Expr} (he : G.expr e) :
    (Evaluation.valueOf again e).Obeys L p h L.Known fun i => Evaluation.valueOf (again' i) e :=
  Evaluation.valueOf_obeys (ho.serves hopens hp) (ho.call hp)
    ⟨fun e' he' => ho.evaluate hp (G.children he e' he'), G.lambdas he, G.reads he⟩

omit ho in
/-- The parts of a statement obey the law. -/
theorem covered (ho : Calls.Obey G Z Z again again') (hp : Z.Mem p) {s : Stmt} (hs : G.stmt s)
    (hd : ∀ name, s.Binds name → L.Declares p name) : s.Covered L p h again again' where
  exprs e he q hq := ho.evaluate (Z.within hp hq) (G.exprs hs e he)
  inner s' hs' q hq hopen := by
    refine ho.execute (Z.within hp hq) (G.inner hs s' hs') fun name hbinds => ?_
    cases hopens : s.opens with
    | true => exact hopen hopens name
    | false => exact G.branches hs hopens s' hs' name hbinds q
  functions := G.functions hs
  staticBlocks := G.staticBlocks hs
  mentions := G.mention_places hs
  binds := hd
  stops _ := G.stops

omit ho in
/-- **Statements** obey the law if no errors are carried. -/
theorem step (ho : Calls.Obey G Z Z again again') (hcarries : ∀ f, ¬L.carries f) (hp : Z.Mem p)
    {n : Nat} {m : L.Case → Nat} (hn : ∀ i, L.Rounds n (m i)) {s : Stmt} (hs : G.stmt s)
    (hd : ∀ name, s.Binds name → L.Declares p name) :
    (Evaluation.step again n s).Obeys L p h (L.Ends p)
      fun i => Evaluation.step (again' i) (m i) s :=
  Evaluation.step_obeys hcarries hn fun _ _ => ho.covered hp hs hd

omit ho in
/-- **Programs** obey the law where all names may be bound. -/
theorem interpretAfter (ho : Calls.Obey G Z Z again again') (hp : Z.Mem p) {program : List Stmt}
    (hs : ∀ s ∈ program, G.stmt s) (hd : ∀ name, L.Declares p name) {last : Value}
    (hlast : L.Known h last) :
    (Evaluation.interpretAfter again last program).Obeys L p h L.Known
      fun i => Evaluation.interpretAfter (again' i) last program :=
  Evaluation.interpretAfter_obeys program
    (fun e he => ho.evaluate hp (G.exprs (hs _ he) e List.mem_cons_self))
    (fun s hmem => ho.execute hp (hs s hmem) fun name _ => hd name) hlast

/-- **Static blocks** obey the law if what they wrap is carried on. -/
theorem bakedValues (hw : L.Holds p w w') (hp : Z'.Mem p) {k : ScriptClass}
    (hk : ∀ block ∈ k.staticBlock, L.staticBlock block)
    (hcut : (∀ i, Evaluation.bakedValues (again' i) k (w' i) = .stopped (L.cut i)) →
      ∀ f, L.carries f → L.carries (Evaluation.staticFault k.name f)) :
    (Evaluation.bakedValues again k).ObeysAt L p L.Bakes
      (fun i => Evaluation.bakedValues (again' i) k) w w' :=
  Evaluation.bakedValues_obeysAt hw (fun block hb => ho.blocks (G.blocks (hk block hb)) hp) hcut

end Steps

end Calls.Obey

/-! ## Machines -/

/-- Whatever is started from within obeys the law too. What concerns jobs alone is needed only where
the law is about the native function that hands tasks over. -/
structure Grammar.Closed (G : Grammar L) : Prop where
  uncarried : ∀ f, ¬L.carries f
  inside : ∀ p, ∃ q, L.Inside p q
  beside : ∀ p, ∃ q, L.Beside p q
  /-- Jobs may wait that run in a scope which is there. -/
  queued : L.native (.builtin .runOn) → ∀ {p w w'} name {job : Job}, L.Holds p w w' →
    L.There w.heap (.scope job.scope) → L.KnownTask w.heap job.task →
    L.Holds p { w with queues := Evaluation.enqueue name job w.queues }
      fun i => { w' i with queues := Evaluation.enqueue name job (w' i).queues }
  sources : L.native (.builtin .runOn) → ∀ {text program}, Parser.programOf? text = .ok program →
    ∀ s ∈ program, G.stmt s
  /-- At the top of a scope all names may be bound. -/
  declares_top : L.native (.builtin .runOn) → ∀ p s name, L.Declares (L.enter (.top s) p) name

namespace Grammar.Closed

variable (hG : G.Closed)
include hG

theorem opens : (Law.Zone.all L).Opens (.all L) :=
  fun p _ => (hG.inside p).imp fun _ hin => ⟨hin, trivial⟩

variable (ho : Calls.Obey G (.all L) (.all L) again again')
include ho

/-- **Jobs** of a scope that is there. -/
theorem runTask (hrun : L.native (.builtin .runOn)) {job : Job} (hs : L.There h (.scope job.scope))
    (ht : L.KnownTask h job.task) :
    (Evaluation.runTask again job).Obeys L p h L.Known fun i => Evaluation.runTask
      (again' i) job := by
  refine Evaluation.runTask_obeys hs (Evaluation.perform_obeys (fun callee heq => ?_)
    fun text program _ hok => ?_)
  · rw [heq] at ht
    exact ho.call trivial ht nofun
  · exact ho.interpretAfter trivial (hG.sources hrun hok) (hG.declares_top hrun p job.scope)
      L.known_null

theorem schedule (hrun : L.native (.builtin .runOn)) {name : String} {scheduler : Scheduler}
    {job : Job} (hw : L.Holds p w w') (hs : L.There w.heap (.scope job.scope))
    (ht : L.KnownTask w.heap job.task) :
    (Evaluation.schedule again name scheduler job).ObeysAt L p (fun _ _ => True)
      (fun i => Evaluation.schedule (again' i) name scheduler job) w w' := by
  have done {q : L.Place} {v : World} {v' : L.Case → World} (hv : L.Holds q v v')
      (hheap : v.heap = w.heap) :
      (Evaluation.runJob again job).ObeysAt L q (fun _ _ => True)
        (fun i => Evaluation.runJob (again' i) job) v v' := by
    rw [← hheap] at hs ht
    exact Evaluation.runJob_obeysAt (hG.runTask ho hrun hs ht v v' hv (L.later_refl _))
      fun f _ _ _ => hG.uncarried f
  refine Evaluation.schedule_obeysAt hw (fun _ => done hw rfl) (fun _ => ?_) fun _ =>
    hG.queued hrun name hw hs ht
  obtain ⟨q, hq⟩ := hG.beside p
  exact ⟨q, hq, fun hv => done hv rfl⟩

/-- **Native functions** that may be about. -/
theorem callNative {id : NativeId} {args : List Value} (hw : L.Holds p w w')
    (hid : L.Known w.heap (.native id)) (ha : ∀ v ∈ args, L.Known w.heap v) :
    (Evaluation.callNative again id args).ObeysAt L p L.Known
      (fun i => Evaluation.callNative (again' i) id args)
      w w' := by
  refine Evaluation.callNative_obeysAt hw fun n hn => ?_
  refine Evaluation.runNative_obeysAt hw (L.native_at hw hid hn) (fun v =>
    L.constant_known hw hid hn) ha
    (fun _ => ho.serves hG.opens trivial) (fun _ => ho.call trivial) fun hbody => ?_
  have hrun : L.native (.builtin .runOn) := hbody ▸ L.native_at hw hid hn
  intro name scheduler task _ _ htask
  exact hG.schedule ho hrun hw (L.scope_there hw)
    (Evaluation.knownTask_of_taskOf htask (Evaluation.known_argumentAt ha 1))

theorem instantiate {id : ClassId} {args : List Value} (hw : L.Holds p w w')
    (hid : L.Known w.heap (.scriptClass id)) (ha : ∀ v ∈ args, L.Known w.heap v) :
    (Evaluation.instantiate again id args).ObeysAt L p L.Known
      (fun i => Evaluation.instantiate (again' i) id args) w w' := by
  refine Evaluation.instantiateBy_obeysAt hw hid ha (ho.serves hG.opens trivial) fun k hk => ?_
  exact ho.bakedValues hw trivial (L.staticBlock_at hw k (Array.mem_of_getElem? hk))
    fun _ f hf => absurd hf (hG.uncarried f)

/-- **Calls** of values that may be about. -/
theorem callValue {callee : Value} {args : List Value} (hc : L.Known h callee)
    (ha : ∀ v ∈ args, L.Known h v) :
    (Evaluation.callValue again callee args).Obeys L p h L.Known
      fun i => Evaluation.callValue (again' i) callee args := by
  intro w w' hw hl
  have hc := L.known_later hl hc
  have ha v hv := L.known_later hl (ha v hv)
  refine Evaluation.callValue_obeysAt hw ha (ho.serves hG.opens trivial) ?_ ?_
  · rintro id rfl
    exact hG.callNative ho hw hc ha
  · rintro id rfl
    exact hG.instantiate ho hw hc ha

end Grammar.Closed

namespace Evaluation

/-- **Whatever runs obeys the law**, within every budget. -/
theorem machine_obeys (hG : G.Closed) :
    ∀ n, Calls.Obey G (.all L) (.all L) (machine n) fun _ => machine n
  | 0 => ⟨fun _ _ _ _ _ _ => .stopped G.stops, fun _ _ _ _ _ _ _ => .stopped G.stops,
      fun _ _ _ _ _ _ _ => .stopped G.stops, fun _ _ _ _ _ _ _ _ => .stopped G.stops,
      fun _ _ _ _ _ _ _ => .stopped G.stops⟩
  | n + 1 => by
    have ho := machine_obeys hG n
    have placed {α : Type} {span : Span} {p : L.Place} {h : Heap} {Q : Heap → α → Prop}
        {r : Script α}
        (hs : L.Places span) (hr : r.Lawful L p h Q) : (Script.placedAt span r).Lawful L p h Q :=
      .mapError hr (fun _ => hs.fits) fun _ => hs.carries
    exact {
      evaluate := fun _ he => placed (G.expr_places he) (ho.valueOf hG.opens trivial he)
      execute := fun _ hs hd =>
        placed (G.stmt_places hs) (ho.step hG.uncarried trivial (fun _ => .inl rfl) hs hd)
      call := fun _ hc ha => hG.callValue ho hc ha
      callVirtual := fun this name args _ => Host.callVirtual_tame (ho.serves hG.opens trivial) this
        name args
      readHost := fun this name _ => Host.readHost_tame (ho.serves hG.opens trivial) this name }

end Evaluation

end ScriptEngine
