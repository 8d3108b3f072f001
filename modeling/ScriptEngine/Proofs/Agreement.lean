import ScriptEngine.Proofs.Walk.Machines
/-!
# Runs that agree

Two runs agree in a region if, started on its two sides, they end alike and in the region again. The
two sides differ in what waits in the queues alone; a region says how, and which environments and
numbers of active calls it is about. Where that is allowed the first run may be exhausted instead.
Agreement is a law, whose places are the regions, and so every step agrees that starts nothing but
what agrees.

* `Region` : a region, with `Region.Relates` for the states on its two sides and `Region.Around` and
  `Region.Beside` for what is inside a call and on another thread.
* `Run.Agrees`, `Calls.Agree` : agreement, of runs and of what a step may start again.
* `Run.agrees_single_iff` : agreement where the two sides are one.
* `Law.agreement`, `Run.agrees_iff`, `Calls.agree_iff` : the law.
* `Evaluation.valueOf_agrees`, `Evaluation.step_agrees` : expressions and statements.
* `Evaluation.schedule_agrees`, `Evaluation.runNative_agrees` : jobs and native functions.
* `Evaluation.instantiateBy_agrees`, `Evaluation.callValue_agrees` : instances and calls.
-/

namespace ScriptEngine

/-! ## Regions -/

/-- Some environments and some numbers of active calls, and how the queues on two sides compare. -/
structure Region where
  holds : Environment → Nat → Prop
  queues : Queues → Queues → Prop

namespace Region

/-- The state lies in the region. -/
def Holds (R : Region) (w : World) : Prop := R.holds w.environment w.callDepth

/-- The states on the two sides: but for the queues they are one. -/
inductive Relates (R : Region) (w : World) : World → Prop
  | sides (queues : Queues) (hR : R.Holds w) (hq : R.queues w.queues queues) :
      Relates R w (w.withQueues queues)

theorem relates_iff {R : Region} {w w' : World} :
    R.Relates w w' ↔ ∃ queues, w' = w.withQueues queues ∧ R.Holds w ∧ R.queues w.queues queues := by
  constructor
  · rintro ⟨queues, hR, hq⟩
    exact ⟨queues, rfl, hR, hq⟩
  · rintro ⟨queues, rfl, hR, hq⟩
    exact ⟨queues, hR, hq⟩

/-- Inside a call that is made in `R` the second region holds, and after it `R` again. -/
structure Around (R Q : Region) : Prop where
  enter : ∀ {e c}, R.holds e c → c < e.settings.maxCallDepth → Q.holds e (c + 1)
  leave : ∀ {e c}, Q.holds e c → R.holds e (c - 1)
  queues : Q.queues = R.queues

/-- On a thread that is started in `R` the second region holds, and after it `R` again. -/
structure Beside (R T : Region) : Prop where
  enter : ∀ {e c}, R.holds e c → T.holds e 0
  leave : ∀ {e e' c c'}, R.holds e c → T.holds e' c' → R.holds e' c
  queues : T.queues = R.queues

/-- The region whose two sides are one, with the states of some environments and numbers of active
calls. -/
def single (holds : Environment → Nat → Prop) : Region := ⟨holds, Eq⟩

end Region

variable {ε δ α β : Type} {lax : Prop} {R Q T : Region}

/-! ## Outcomes -/

/-- If the run came back, with a value or with an error, this holds of the state it left. -/
def Outcome.Leaves (P : World → Prop) : Outcome ε α → Prop
  | .ok _ w | .error _ w => P w
  | .stopped _ => True

theorem Outcome.Leaves.imp {P P' : World → Prop} (h : ∀ w, P w → P' w) {o : Outcome ε α}
    (ho : o.Leaves P) :
    o.Leaves P' := by
  cases o with
  | ok a w => exact h w ho
  | error e w => exact h w ho
  | stopped s => trivial

/-- Two runs ended alike and left related states; or the first one was exhausted, if that is
allowed. -/
inductive Outcome.Agrees (lax : Prop) (S : World → World → Prop) : Outcome ε α → Outcome ε α → Prop
  | ok (a : α) {w w' : World} (h : S w w') : Agrees lax S (.ok a w) (.ok a w')
  | error (e : ε) {w w' : World} (h : S w w') : Agrees lax S (.error e w) (.error e w')
  | stopped (s : Stop) : Agrees lax S (.stopped s) (.stopped s)
  | exhausted (h : lax) {o : Outcome ε α} : Agrees lax S (.stopped .exhausted) o

/-- What is restored after both runs. -/
theorem Outcome.Agrees.mapWorld {S S' : World → World → Prop} {g g' : World → World}
    (hg : ∀ w w', S w w' → S' (g w) (g' w')) {o o' : Outcome ε α} (h : o.Agrees lax S o') :
    (o.mapWorld g).Agrees lax S' (o'.mapWorld g') := by
  cases h with
  | ok a hw => exact .ok a (hg _ _ hw)
  | error e hw => exact .error e (hg _ _ hw)
  | stopped s => exact .stopped s
  | exhausted hlax => exact .exhausted hlax

/-! ## Runs -/

/-- Started on the two sides of the region, the runs end alike and on its two sides; or the first
one is exhausted, if that is allowed. -/
def Run.Agrees (lax : Prop) (R : Region) (r r' : Run ε α) : Prop :=
  ∀ w w', R.Relates w w' → (r w).Agrees lax R.Relates (r' w')

/-- Where the two sides are one, runs that agree do the same. -/
theorem Run.agrees_single_iff {holds : Environment → Nat → Prop} {r r' : Run ε α} :
    r.Agrees lax (.single holds) r' ↔ ∀ w, (Region.single holds).Holds w →
      (lax ∧ r w = .stopped .exhausted) ∨ r w = r' w ∧
        (r w).Leaves (Region.single holds).Holds := by
  constructor
  · intro h w hw
    have hends := h w w ⟨w.queues, hw, rfl⟩
    generalize r w = o, r' w = o' at hends
    cases hends with
    | ok a hv =>
      obtain ⟨_, hv, rfl⟩ := hv
      exact .inr ⟨rfl, hv⟩
    | error e hv =>
      obtain ⟨_, hv, rfl⟩ := hv
      exact .inr ⟨rfl, hv⟩
    | stopped s => exact .inr ⟨rfl, trivial⟩
    | exhausted hlax => exact .inl ⟨hlax, rfl⟩
  · rintro h w _ ⟨_, hw, rfl⟩
    have hsides {v : World} (hv : (Region.single holds).Holds v) :
        (Region.single holds).Relates v v :=
      ⟨v.queues, hv, rfl⟩
    show (r w).Agrees lax (Region.single holds).Relates (r' w)
    rcases h w hw with ⟨hlax, hr⟩ | ⟨hr, hends⟩
    · rw [hr]
      exact .exhausted hlax
    · rw [← hr]
      cases hrw : r w with
      | ok a v =>
        rw [hrw] at hends
        exact .ok a (hsides hends)
      | error e v =>
        rw [hrw] at hends
        exact .error e (hsides hends)
      | stopped s => exact .stopped s

theorem Run.Agrees.eq_of_single {holds : Environment → Nat → Prop} {r r' : Run ε α}
    (h : r.Agrees False (.single holds) r') {w : World} (hw : (Region.single holds).Holds w) :
    r w = r' w ∧ (r w).Leaves (Region.single holds).Holds :=
  (agrees_single_iff.mp h w hw).resolve_left And.left

/-- Two runs that use up their budget at once. -/
theorem Run.Agrees.used : (Run.exhausted : Run ε α).Agrees lax R Run.exhausted :=
  fun _ _ _ => .stopped _

/-- What the first calls start in `R` agrees with what the second ones start, and so do statements
in `Q`. -/
structure Calls.Agree (lax : Prop) (R Q : Region) (again again' : Calls) : Prop where
  evaluate : ∀ e, (again.evaluate e).Agrees lax R (again'.evaluate e)
  execute : ∀ s, (again.execute s).Agrees lax Q (again'.execute s)
  call : ∀ callee args, (again.call callee args).Agrees lax R (again'.call callee args)
  callVirtual : ∀ this name args,
    (again.callVirtual this name args).Agrees lax R (again'.callVirtual this name args)
  readHost : ∀ this name, (again.readHost this name).Agrees lax R (again'.readHost this name)

/-! ## The law -/

/-- **The law of agreement**: the states on the two sides of a region. -/
def Law.agreement (lax : Prop) : Law where
  Case := Unit
  Place := Region
  Holds R w w' := ∃ queues, w' () = w.withQueues queues ∧ R.Holds w ∧ R.queues w.queues queues
  Keeps _ _ _ := True
  lax := lax
  near := by
    rintro R w w' ⟨queues, hw, -, -⟩ ⟨⟩
    exact ⟨queues, w.frame.functionDepth, hw, Iff.rfl⟩
  keeps_refl _ _ := trivial
  alters := by
    rintro R w w' h ⟨queues, hw, hR, hq⟩ -
    exact ⟨⟨queues, congrArg (World.withHeap · h) hw, hR, hq⟩, trivial⟩
  aside := by
    rintro R w w' ⟨queues, hw, hR, hq⟩ output clock seed
    exact ⟨queues, congrArg (fun v : World => { v with output, clock, seed }) hw, hR, hq⟩
  enter _ R := R
  holds_enter := by
    rintro R w w' shift ⟨queues, hw, hR, hq⟩ -
    exact ⟨queues, congrArg (fun v : World => { v with frame := shift.apply v.frame }) hw, hR, hq⟩
  holds_leave := by
    rintro R w w' v v' shift ⟨_, hw, -, -⟩ ⟨queues, hv, hR, hq⟩ -
    exact ⟨queues, congrArg₂ (fun v u : World => { v with frame := u.frame }) hv hw, hR, hq⟩
  child R _ := R
  holds_child := by
    rintro R w w' parent ⟨queues, hw, hR, hq⟩ -
    exact ⟨queues, congrArg (World.withHeap · (w.heap.addChild parent).2) hw, hR, hq⟩
  Inside := Region.Around
  holds_call := by
    rintro R Q w w' hQ ⟨queues, hw, hR, hq⟩ hroom
    exact ⟨queues, congrArg (fun v : World => { v with callDepth := v.callDepth + 1 }) hw,
      hQ.enter hR hroom, hQ.queues ▸ hq⟩
  holds_return := by
    rintro R Q w w' hQ ⟨queues, hw, hR, hq⟩
    exact ⟨queues, congrArg (fun v : World => { v with callDepth := v.callDepth - 1 }) hw,
      hQ.leave hR, hQ.queues ▸ hq⟩
  Beside := Region.Beside
  holds_thread := by
    rintro R T w w' hT ⟨queues, hw, hR, hq⟩
    exact ⟨queues, congrArg (fun v : World => { v with callDepth := 0 }) hw, hT.enter hR,
      hT.queues ▸ hq⟩
  holds_join := by
    rintro R T w w' v v' hT ⟨_, hw, hR, -⟩ ⟨queues, hv, hv', hq⟩ -
    exact ⟨queues, congrArg₂ (fun v u : World => { v with callDepth := u.callDepth }) hv hw,
      hT.leave hR hv', hT.queues ▸ hq⟩
  function_at _ _ _ := trivial
  staticBlock_at _ _ _ _ _ := trivial
  native_at _ _ _ _ _ := trivial
  hostClass_at _ _ _ := trivial

namespace Law

/-- The law is about all trees. -/
def agreementGrammar (lax : Prop) : Grammar (agreement lax) :=
  .every (fun _ => ⟨fun _ => trivial, id⟩) (fun _ => trivial) (fun _ => trivial) (fun _ => trivial)
    (fun _ _ _ _ _ => trivial) trivial

/-- One region, which code does not leave but by calls and threads. -/
def regionOf (lax : Prop) (R : Region) : (agreement lax).Zone := ⟨(· = R), fun _ => id, fun _ => id⟩

theorem opens_of_around (hQ : R.Around Q) : (regionOf lax R).Opens (regionOf lax Q) := by
  rintro _ rfl
  exact ⟨Q, hQ, rfl⟩

end Law

open Law Run

section Faulty

variable [Faulty ε] [Faulty δ]

/-- Ends agree as the law says. -/
theorem Outcome.agrees_iff {o o' : Outcome ε α} {h : Heap} :
    o.Agrees lax R.Relates o' ↔ o.Obeys (agreement lax) R h (fun _ _ => True) fun _ => o' := by
  constructor
  · rintro (⟨a, hv⟩ | ⟨e, hv⟩ | s | hlax)
    · exact .of_ok (fun _ => rfl) (Region.relates_iff.mp hv) trivial trivial
    · exact .of_error (fun _ => rfl) (Region.relates_iff.mp hv) trivial trivial
    · exact .stopped trivial
    · exact .exhausted hlax _
  · intro ho
    generalize hends : (fun _ => o') = ends at ho
    obtain rfl : ends () = o' := (congrFun hends ()).symm
    cases ho with
    | ok hv => exact .ok _ (Region.relates_iff.mpr hv)
    | error hv => exact .error _ (Region.relates_iff.mpr hv)
    | stopped => exact .stopped _
    | exhausted hlax => exact .exhausted hlax
    | carried _ he => exact he.elim

namespace Run

variable {r r' : Run ε α} {h : Heap}

/-- Runs agree as the law says. -/
theorem agrees_iff :
    r.Agrees lax R r' ↔ ∀ h, r.Obeys (agreement lax) R h (fun _ _ => True) fun _ => r' :=
  ⟨fun hr _ w w' hw _ => Outcome.agrees_iff.mp (hr w (w' ()) (Region.relates_iff.mpr hw)),
    fun hr w w' hw => Outcome.agrees_iff.mpr (hr w.heap w (fun _ => w') (Region.relates_iff.mp hw)
      trivial)⟩

theorem Agrees.obeys (hr : r.Agrees lax R r') :
    r.Obeys (agreement lax) R h (fun _ _ => True) fun _ => r' :=
  agrees_iff.mp hr h

namespace Agrees

omit [Faulty ε] in
theorem raise (e : ε) : (Run.raise e : Run ε α).Agrees lax R (Run.raise e) :=
  fun _ _ hw => .error e hw

theorem mapError {g : ε → δ} (hr : r.Agrees lax R r') :
    (r.mapError g).Agrees lax R (r'.mapError g) :=
  agrees_iff.mpr fun _ => .mapError hr.obeys (fun _ => id) fun _ => id

omit [Faulty ε] in
/-- Frames make no difference. -/
theorem inFrame {g : Frame → Frame} (hr : r.Agrees lax R r') :
    (Run.inFrame g r).Agrees lax R (Run.inFrame g r') := by
  rintro w _ ⟨q, hR, hq⟩
  rw [Run.inFrame_eq, Run.inFrame_eq]
  refine (hr { w with frame := g w.frame } _ ⟨q, hR, hq⟩).mapWorld ?_
  rintro v _ ⟨q, hR, hq⟩
  exact ⟨q, hR, hq⟩

end Agrees

end Run

end Faulty

/-- What is checked first agrees if what follows does. -/
theorem Run.Agrees.ofExcept {x : Except RuntimeError α} {k k' : α → Script β}
    (hk : ∀ a, x = .ok a → (k a).Agrees lax R (k' a)) :
    (Script.ofExcept x >>= k).Agrees lax R (Script.ofExcept x >>= k') :=
  agrees_iff.mpr fun h w w' hw hl => Script.checked hw
    fun a ha => (hk a ha).obeys (h := h) w w' hw hl

/-- Agreement of calls is that of the law. -/
theorem Calls.agree_iff {again again' : Calls} : again.Agree lax R Q again' ↔
    Calls.Obey (agreementGrammar lax) (regionOf lax R) (regionOf lax Q) again fun _ => again' := by
  constructor
  · intro h
    exact {
      evaluate := by rintro _ _ e rfl -; exact (h.evaluate e).obeys
      execute := by
        rintro _ _ s rfl - -
        exact (h.execute s).obeys.mono fun _ _ _ _ => ⟨trivial, fun _ _ => trivial⟩
      call := by rintro _ _ callee args rfl - -; exact (h.call callee args).obeys
      callVirtual := by rintro _ _ this name args rfl; exact (h.callVirtual this name args).obeys
      readHost := by rintro _ _ this name rfl; exact (h.readHost this name).obeys }
  · intro h
    exact {
      evaluate := fun e => Run.agrees_iff.mpr fun _ => h.evaluate rfl trivial
      execute := fun s => Run.agrees_iff.mpr fun _ => (h.execute rfl trivial fun _ _ _ _ _ =>
        trivial).tame
      call := fun callee args => Run.agrees_iff.mpr fun _ => h.call rfl trivial fun _ _ => trivial
      callVirtual := fun this name args => Run.agrees_iff.mpr fun _ => h.callVirtual this name args
        rfl
      readHost := fun this name => Run.agrees_iff.mpr fun _ => h.readHost this name rfl }

/-! ## Steps -/

variable {again again' : Calls}

section Steps

variable (hQ : R.Around Q) (h : again.Agree lax R Q again')
include hQ h

/-- What is called agrees. -/
theorem Calls.Agree.serves : Calls.Serves (L := agreement lax) R again fun _ => again' :=
  (Calls.agree_iff.mp h).serves (opens_of_around hQ) rfl

theorem Host.callVirtual_agrees (this : HostId) (name : String) (args : List HostData) :
    (callVirtual again this name args).Agrees lax R (callVirtual again' this name args) :=
  agrees_iff.mpr fun _ => callVirtual_tame (h.serves hQ) this name args

theorem Host.readHost_agrees (this : HostId) (name : String) :
    (readHost again this name).Agrees lax R (readHost again' this name) :=
  agrees_iff.mpr fun _ => readHost_tame (h.serves hQ) this name

namespace Evaluation

theorem valueOf_agrees (e : Expr) : (valueOf again e).Agrees lax R (valueOf again' e) :=
  agrees_iff.mpr fun _ => (Calls.agree_iff.mp h).valueOf (opens_of_around hQ) rfl trivial

/-- An instance agrees if what is baked into it does. -/
theorem instantiateBy_agrees {bake bake' : ScriptClass → Script Fields}
    (hb : ∀ k, (bake k).Agrees lax R (bake' k)) (id : ClassId) (args : List Value) :
    (instantiateBy again bake id args).Agrees lax R (instantiateBy again' bake' id args) :=
  agrees_iff.mpr fun _ w w' hw hl => instantiateBy_obeysAt hw trivial (fun _ _ => trivial)
    (h.serves hQ)
    fun k _ => (hb k).obeys (h := w.heap) w w' hw hl

/-- **Calls** agree if native functions and instances do. -/
theorem callValue_agrees {callee : Value} (args : List Value)
    (hn : ∀ id, callee = .native id → (callNative again id args).Agrees lax R
      (callNative again' id args))
    (hi : ∀ id, callee = .scriptClass id → (instantiate again id args).Agrees lax R
      (instantiate again' id args)) :
    (callValue again callee args).Agrees lax R (callValue again' callee args) :=
  agrees_iff.mpr fun _ w w' hw hl => callValue_obeysAt hw (fun _ _ => trivial) (h.serves hQ)
    (fun id hid => (hn id hid).obeys (h := w.heap) w w' hw hl)
    fun id hid => (hi id hid).obeys (h := w.heap) w w' hw hl

end Evaluation

end Steps

namespace Evaluation

section Bodies

variable (h : again.Agree lax R R again')
include h

/-- The parts of code that is executed in the region. -/
theorem blocks_agree (body : List Stmt) {heap : Heap} :
    Blocks (agreement lax) R heap again (fun _ => again') body :=
  (Calls.agree_iff.mp h).blocks (fun _ _ => trivial) rfl

theorem enterFunction_agrees (id : FunctionId) (this : Option Value) (args : List Value) :
    (enterFunction again id this args).Agrees lax R (enterFunction again' id this args) :=
  agrees_iff.mpr fun _ => enterFunction_obeys (fun _ _ => blocks_agree h _) id (fun _ _ => trivial)
    fun _ _ => trivial

theorem partText_agrees (p : Part) : (partText again p).Agrees lax R (partText again' p) :=
  agrees_iff.mpr fun _ => partText_tame fun _ _ => (Calls.agree_iff.mp h).evaluate rfl trivial

theorem step_agrees {n m : Nat} (hrounds : n = m ∨ lax ∧ n ≤ m) (s : Stmt) :
    (step again n s).Agrees lax R (step again' m s) :=
  agrees_iff.mpr fun _ => ((Calls.agree_iff.mp h).step (fun _ => id) rfl (fun _ => hrounds) trivial
    fun _ _ _ _ _ => trivial).tame

theorem interpretAfter_agrees (program : List Stmt) (last : Value) :
    (interpretAfter again last program).Agrees lax R (interpretAfter again' last program) :=
  agrees_iff.mpr fun _ => (Calls.agree_iff.mp h).interpretAfter rfl (fun _ _ => trivial)
    (fun _ _ _ _ => trivial) trivial

theorem bakedValues_agrees (k : ScriptClass) :
    (bakedValues again k).Agrees lax R (bakedValues again' k) :=
  agrees_iff.mpr fun _ _ _ hw _ =>
    Outcome.Obeys.imp (bakedValues_obeysAt hw (fun _ _ => blocks_agree h _)
    fun _ _ => id) (fun _ _ hv hk => ⟨hv, hk⟩) fun _ _ _ _ => trivial

/-! ## Jobs -/

theorem perform_agrees (task : Task) : (perform again task).Agrees lax R (perform again' task) :=
  agrees_iff.mpr fun _ => perform_obeys (fun callee _ => (h.call callee []).obeys)
    fun _ program _ _ => (interpretAfter_agrees h program .null).obeys

theorem runJob_agrees (job : Job) : (runJob again job).Agrees lax R (runJob again' job) :=
  agrees_iff.mpr fun heap w w' hw hl => runJob_obeysAt
    (runTask_obeys (h := heap) trivial (perform_agrees h job.task).obeys w w' hw hl) fun _ _ _ _ =>
      id

end Bodies

/-- A task runs on the thread that schedules it, on another one, or later. -/
theorem schedule_agrees (name : String) (s : Scheduler) (job : Job)
    (hnow : s = .now → again.Agree lax R R again')
    (hthread : s = .thread → ∃ T : Region, R.Beside T ∧ again.Agree lax T T again')
    (hqueue : s = .queue → ∀ {q q'}, R.queues q q' →
      R.queues (enqueue name job q) (enqueue name job q')) :
    (schedule again name s job).Agrees lax R (schedule again' name s job) := by
  refine agrees_iff.mpr fun heap w w' hw hl => schedule_obeysAt hw (fun hs => ?_) (fun hs => ?_)
    fun hs => ?_
  · exact (runJob_agrees (hnow hs) job).obeys (h := heap) w w' hw hl
  · obtain ⟨T, hT, h⟩ := hthread hs
    exact ⟨T, hT, fun hv => (runJob_agrees h job).obeys (h := heap) _ _ hv hl⟩
  · obtain ⟨queues, hw, hR, hq⟩ := hw
    exact ⟨_, congrArg (fun v : World => { v with queues := enqueue name job v.queues }) hw, hR,
      hqueue hs hq⟩

/-! ## Native functions -/

/-- The scheduler that these arguments hand a task to agrees. -/
def SchedulersAgree (lax : Prop) (R : Region) (again again' : Calls) (args : List Value) : Prop :=
  ∀ e c name s task, R.holds e c → Library.stringAt "runOn" args 0 = .ok name →
    e.schedulers.lookup name = some s → Library.taskOf (Library.argumentAt args 1) = .ok task →
    ∀ scope,
      (schedule again name s ⟨scope, task⟩).Agrees lax R (schedule again' name s ⟨scope, task⟩)

variable {args : List Value}

/-- A native function agrees if the tasks it schedules do, and what else it starts. -/
theorem runNative_agrees (body : NativeBody)
    (hs : body = .builtin .runOn → SchedulersAgree lax R again again' args)
    (h : (∀ b, body ≠ .builtin b) → ∃ Q : Region, R.Around Q ∧ again.Agree lax R Q again') :
    (runNative again body args).Agrees lax R (runNative again' body args) := by
  refine agrees_iff.mpr fun heap w w' hw hl => runNative_obeysAt hw trivial (fun _ _ => trivial)
    (fun _ _ => trivial) (fun hno => ?_) (fun hcall => ?_) fun hbody => ?_
  · obtain ⟨Q, hQ, h⟩ := h hno
    exact h.serves hQ
  · obtain ⟨Q, -, h⟩ := h fun b hb => nomatch hcall.symm.trans hb
    exact fun _ _ => (h.call _ _).obeys
  · intro name scheduler task hname hlookup htask
    obtain ⟨-, -, hR, -⟩ := id hw
    exact (hs hbody _ _ name scheduler task hR hname hlookup htask _).obeys (h := heap) w w' hw hl

theorem callNative_agrees
    (hn : ∀ body, (runNative again body args).Agrees lax R (runNative again' body args))
    (id : NativeId) : (callNative again id args).Agrees lax R (callNative again' id args) :=
  agrees_iff.mpr fun heap w w' hw hl =>
    callNative_obeysAt hw fun n _ => (hn n.body).obeys (h := heap) w w' hw hl

end Evaluation

end ScriptEngine
