import ScriptEngine.Evaluation.Invoke
import ScriptEngine.Evaluation.Jobs
import ScriptEngine.Proofs.Walk.Statements
/-!
# Calls and jobs under a law

Native functions, new instances, jobs and whole programs obey a law if what they start does
(`call_value`, `instantiate`, `run_static_block`, `run_on`). Two of them take an error for
themselves: a job writes it down, so the error may not be carried, and a static block wraps it, so
the wrapped error has to be carried too. What is known of either depends on the state that it starts
in, and so the rules for calls are about given states.

* `Evaluation.interpretAfter_obeys` : programs.
* `Evaluation.runJob_obeysAt`, `Evaluation.schedule_obeysAt` : jobs, and the three kinds of
  schedulers.
* `Evaluation.runNative_obeysAt`, `Evaluation.callNative_obeysAt` : native functions.
* `Evaluation.bakedValues_obeysAt`, `Evaluation.instantiateBy_obeysAt` : static blocks and
  instances.
* `Evaluation.callValue_obeysAt` : calls of any value.

Out of scope: which thread a job runs on, and the time at which a queue is emptied, which a host
decides.
-/

namespace ScriptEngine.Evaluation

open Run

variable {L : Law} {p : L.Place} {h : Heap} {w : World} {w' : L.Case → World} {again : Calls}
  {again' : L.Case → Calls}

/-! ## Programs -/

/-- **A program** obeys the law if its statements do. -/
theorem interpretAfter_obeys : ∀ (program : List Stmt) {h : Heap} {last : Value},
    (∀ e, .expr e ∈ program → Evaluates L p h again again' e) →
    (∀ s ∈ program, Executes L p h again again' s) → L.Known h last →
    (interpretAfter again last program).Obeys L p h L.Known
      fun i => interpretAfter (again' i) last program
  | [], _, _, _, _, hlast => .known hlast
  | s :: program, _, _, he, hs, _ => by
    have rest {h₁ : Heap} {v : Value} (hl : L.Later _ h₁) (hv : L.Known h₁ v) :=
      interpretAfter_obeys program (fun e hmem => (he e (List.mem_cons_of_mem _ hmem)).later hl)
        (fun s hmem => (hs s (List.mem_cons_of_mem _ hmem)).later hl) hv
    cases s with
    | expr e => exact .andThen (he e List.mem_cons_self) fun _ _ hl hv => rest hl hv
    | _ => exact .andThen (hs _ List.mem_cons_self) fun _ _ hl _ => rest hl L.known_null

/-! ## Jobs -/

theorem perform_obeys {task : Task}
    (hcall : ∀ callee, task = .call callee →
      (again.call callee []).Obeys L p h L.Known fun i => (again' i).call callee [])
    (hsource : ∀ text program, task = .source text → Parser.programOf? text = .ok program →
      (interpret again program).Obeys L p h L.Known fun i => interpret (again' i) program) :
    (perform again task).Obeys L p h L.Known fun i => perform (again' i) task := by
  cases task with
  | call callee => exact hcall callee rfl
  | source text =>
    simp only [perform]
    cases hprogram : Parser.programOf? text with
    | ok program => exact hsource text program rfl hprogram
    | error f =>
      refine .andThen (Q := fun _ _ => False) (.ofExcept fun _ _ => L.fits_source hprogram) ?_
      exact fun _ _ _ hnone => hnone.elim

/-- A task is performed at the top of a scope that is there. -/
theorem runTask_obeys {job : Job} (hs : L.There h (.scope job.scope))
    (hp : (perform again job.task).Obeys L (L.enter (.top job.scope) p) h L.Known
      fun i => perform (again' i) job.task) :
    (runTask again job).Obeys L p h L.Known fun i => runTask (again' i) job := by
  refine .inFrame (.top job.scope) ?_ hp
  rintro _ ⟨⟩
  exact hs

/-- **A job** writes the error of its task down, so that error may not be carried. -/
theorem runJob_obeysAt {job : Job}
    (ht : (runTask again job).ObeysAt L p L.Known (fun i => runTask (again' i) job) w w')
    (hcut : ∀ f v, runTask again job w = .error f v →
      (∀ i, runTask (again' i) job (w' i) = .stopped (L.cut i)) → ¬L.carries f) :
    (runJob again job).ObeysAt L p (fun _ _ => True) (fun i => runJob (again' i) job) w w' := by
  refine .andThen (ObeysAt.attempt ht hcut) fun outcome v v' _ hv _ _ => ?_
  cases outcome with
  | ok _ => exact .value hv trivial
  | error f => exact Library.write_tame (h := v.heap) _ v v' hv (L.later_refl _)

/-- **Schedulers**: a job runs at once, on another thread, or it waits in a queue. -/
theorem schedule_obeysAt {name : String} {scheduler : Scheduler} {job : Job} (hw : L.Holds p w w')
    (hnow : scheduler = .now →
      (runJob again job).ObeysAt L p (fun _ _ => True) (fun i => runJob (again' i) job) w w')
    (hthread : scheduler = .thread → ∃ q, L.Beside p q ∧ (L.Holds q { w with callDepth := 0 }
        (fun i => { w' i with callDepth := 0 }) →
      (runJob again job).ObeysAt L q (fun _ _ => True) (fun i => runJob (again' i) job)
        { w with callDepth := 0 } fun i => { w' i with callDepth := 0 }))
    (hqueue : scheduler = .queue → L.Holds p { w with queues := enqueue name job w.queues }
      fun i => { w' i with queues := enqueue name job (w' i).queues }) :
    (schedule again name scheduler job).ObeysAt L p (fun _ _ => True)
      (fun i => schedule (again' i) name scheduler job) w w' := by
  cases scheduler with
  | now => exact hnow rfl
  | thread =>
    obtain ⟨q, hq, hjob⟩ := hthread rfl
    exact .onThread hq hw (hjob (L.holds_thread hq hw))
  | queue => exact .ok (hqueue rfl) (L.keeps_refl p w.heap) trivial

/-- What the queue of a name holds after a job is put in: that job, and what was there before. -/
theorem mem_enqueue {queue : String} {job : Job} :
    ∀ {queues : List (String × List Job)} {e : String × List Job},
    e ∈ enqueue queue job queues → ∀ j ∈ e.2, j = job ∨ ∃ e' ∈ queues, j ∈ e'.2
  | [], _, he, j, hj => by
    obtain rfl := List.mem_singleton.mp he
    exact .inl (List.mem_singleton.mp hj)
  | first :: rest, e, he, j, hj => by
    unfold enqueue at he
    split at he
    · rcases List.mem_cons.mp he with rfl | he
      · rcases List.mem_append.mp hj with hj | hj
        · exact .inr ⟨first, List.mem_cons_self, hj⟩
        · exact .inl (List.mem_singleton.mp hj)
      · exact .inr ⟨e, List.mem_cons_of_mem _ he, hj⟩
    · rcases List.mem_cons.mp he with rfl | he
      · exact .inr ⟨first, List.mem_cons_self, hj⟩
      · refine (mem_enqueue he j hj).imp_right ?_
        rintro ⟨e', he', hj'⟩
        exact ⟨e', List.mem_cons_of_mem _ he', hj'⟩

/-! ## Native functions -/

theorem known_argumentAt {args : List Value} (ha : ∀ v ∈ args, L.Known h v) (i : Nat) :
    L.Known h (Library.argumentAt args i) := by
  simp only [Library.argumentAt, List.getD_eq_getElem?_getD]
  cases hv : args[i]? with
  | none => exact L.known_null
  | some v => exact ha v (List.mem_of_getElem? hv)

theorem knownTask_of_taskOf {v : Value} {task : Task} (htask : Library.taskOf v = .ok task)
    (hv : L.Known h v) :
    L.KnownTask h task := by
  cases v with
  | string text =>
    cases htask
    trivial
  | _ =>
    simp only [Library.taskOf] at htask
    split at htask
    · cases htask
      exact hv
    · cases htask

/-- The scheduler that these arguments hand a task to obeys the law, whatever it does with the
task. -/
def SchedulersObey (L : Law) (p : L.Place) (again : Calls) (again' : L.Case → Calls)
    (args : List Value) (w : World) (w' : L.Case → World) : Prop :=
  ∀ name scheduler task, Library.stringAt "runOn" args 0 = .ok name →
    w.environment.schedulers.lookup name = some scheduler →
    Library.taskOf (Library.argumentAt args 1) = .ok task →
    (schedule again name scheduler ⟨w.frame.scope, task⟩).ObeysAt L p (fun _ _ => True)
      (fun i => schedule (again' i) name scheduler ⟨w.frame.scope, task⟩) w w'

/-- **A task is handed over** only once all arguments are found to be right. -/
theorem runOn_obeysAt {args : List Value} (hw : L.Holds p w w')
    (hs : SchedulersObey L p again again' args w w') :
    (Library.runOn again args).ObeysAt L p L.Known (fun i => Library.runOn (again' i) args)
      w w' := by
  refine Script.checked hw fun name hname => .looking rfl hw ?_
  cases hscheduler : w.environment.schedulers.lookup name with
  | none => exact .raise hw rfl
  | some scheduler =>
    refine Script.checked hw fun task htask => .looking rfl hw ?_
    refine .andThen (hs name scheduler task hname hscheduler htask) fun _ v v' _ hv _ _ => ?_
    exact .value hv L.known_null

/-- What is bound to the name that is spelled out. -/
theorem lookupNamed_knows (hr : ∀ name, L.readable name) (scope : ScopeId) (args : List Value) :
    (lookupNamed scope args).Knows L p h := by
  refine .reading rfl fun name => .look rfl fun w w' hw _ => ?_
  simp only
  cases hv : w.heap.lookup scope name with
  | none => exact L.known_null
  | some v => exact L.lookup_known hw hv (.inl (hr name))

/-- **Native functions** obey the law if the calls that they make do, and the tasks that they hand
over. -/
theorem runNative_obeysAt {body : NativeBody} {args : List Value} (hw : L.Holds p w w')
    (hbody : L.native body) (hconstant : ∀ v, body = .constant v → L.Known w.heap v)
    (ha : ∀ v ∈ args, L.Known w.heap v)
    (hs : (∀ b, body ≠ .builtin b) → Calls.Serves L p again again')
    (hcall : body = .call → ∀ {h callee} {args : List Value}, L.Known h callee →
      (∀ v ∈ args, L.Known h v) →
      (again.call callee args).Obeys L p h L.Known fun i => (again' i).call callee args)
    (hschedule : body = .builtin .runOn → SchedulersObey L p again again' args w w') :
    (runNative again body args).ObeysAt L p L.Known (fun i => runNative (again' i) body args)
      w w' := by
  have at_ {r : Script Value} {r' : L.Case → Script Value} (hr : r.Obeys L p w.heap L.Known r') :
      r.ObeysAt L p L.Known r' w w' := hr w w' hw (L.later_refl _)
  cases body with
  | builtin b =>
    by_cases hb : b = .runOn
    · subst hb
      exact runOn_obeysAt hw (hschedule rfl)
    · have hsame i : Library.answer (again' i) b args = Library.answer again b args :=
        Library.answer_same hb _ _ args
      simp only [runNative, hsame]
      exact at_ (Library.answer_knows hb ha)
  | constant v => exact .value hw (hconstant v rfl)
  | echo => exact at_ (Script.newList_knows fun v hv => ha v (List.mem_toArray.mp hv))
  | context =>
    refine at_ (.lookCommon rfl fun w => ?_)
    cases w.environment.context <;> trivial
  | enclosing =>
    refine at_ (.look rfl fun u u' hu _ => ?_)
    cases hv : u.environment.enclosing with
    | none => exact L.known_null
    | some v => exact L.enclosing_known hu hbody v hv
  | fail => exact .raise hw rfl
  | call =>
    exact at_ (hcall rfl (known_argumentAt ha 0) fun v hv => ha v (List.mem_of_mem_tail hv))
  | getProperty => exact at_ (.reading rfl fun name => readProperty_knows (hs nofun) false _ name)
  | setProperty =>
    refine at_ (.reading rfl fun name => ?_)
    exact .bind (writeProperty_tame (hs nofun) _ name (known_argumentAt ha 2)) fun _ =>
      .common trivial
  | lookupHere =>
    exact at_ (.reading rfl fun s => lookupNamed_knows (L.readable_of_native (.inl hbody)) s args)
  | lookupGlobal => exact at_ (lookupNamed_knows (L.readable_of_native (.inr hbody)) _ args)

theorem callNative_of_none {id : NativeId} {args : List Value} (hn : w.heap.native? id = none) :
    callNative again id args w = .ok .null w := by
  have hread : (Script.heap fun h => h.native? id) w = .ok none w := Run.read_of_eq hn
  rw [callNative, Run.bind_of_ok hread]
  rfl

theorem callNative_of_some {id : NativeId} {args : List Value} {n : Native}
    (hn : w.heap.native? id = some n) :
    callNative again id args w =
      (do Script.ofExcept (n.checkArity args.length); runNative again n.body args : Script Value)
        w := by
  have hread : (Script.heap fun h => h.native? id) w = .ok (some n) w := Run.read_of_eq hn
  rw [callNative, Run.bind_of_ok hread]

/-- **A native function** is looked up and its arguments are counted before it is called. -/
theorem callNative_obeysAt {id : NativeId} {args : List Value} (hw : L.Holds p w w')
    (hn : ∀ n, w.heap.native? id = some n → (runNative again n.body args).ObeysAt L p L.Known
      (fun i => runNative (again' i) n.body args) w w') :
    (callNative again id args).ObeysAt L p L.Known (fun i => callNative (again' i) id args)
      w w' := by
  refine .looking rfl hw ?_
  simp only
  cases hfound : w.heap.native? id with
  | none => exact .value hw L.known_null
  | some n => exact Script.checked hw fun _ _ => hn n hfound

/-! ## Instances -/

/-- **A static block** is executed at the top of a scope of its own. It wraps the error it ends
with, which has to go on being carried. -/
theorem bakedValues_obeysAt {k : ScriptClass} (hw : L.Holds p w w')
    (hb : ∀ block ∈ k.staticBlock, Blocks L p w.heap again again' block)
    (hcut : (∀ i, bakedValues (again' i) k (w' i) = .stopped (L.cut i)) →
      ∀ f, L.carries f → L.carries (staticFault k.name f)) :
    (bakedValues again k).ObeysAt L p L.Bakes (fun i => bakedValues (again' i) k) w w' := by
  unfold bakedValues at hcut ⊢
  cases hblock : k.staticBlock with
  | none =>
    have nothing : L.Bakes w.heap (bakedFrom []) := L.bakes_bakedFrom nofun
    exact .value hw nothing
  | some block =>
    simp only [hblock] at hcut
    refine .inChild hw (L.globals_there hw) fun hv hscope hinner => ?_
    have body :
        (Run.inFrame (fun _ => .top (w.heap.addChild globalScope).1) (executeAll again block)).Obeys
          L (L.child p (w.heap.addChild globalScope).1) (w.heap.addChild globalScope).2
          (fun _ _ => True) fun i => Run.inFrame (fun _ => .top (w.heap.addChild globalScope).1)
            (executeAll (again' i) block) := by
      refine (Obeys.inFrame (.top _) ?_ (executeAll_obeys fun s hs => ?_)).tame
      · rintro _ ⟨⟩
        exact hscope
      · exact (hb block hblock s hs _ ((Law.Within.refl.child _).enter (.top _))
          fun name => L.declares_enter rfl (L.binds_child p _ name)).later (L.later_child _ _)
    have wrapped := (body _ _ hv (L.later_refl _)).mapError (g := staticFault k.name)
      (fun _ => L.fits_static) fun f hstop => hcut (fun i => ?_) f
    · refine .andThen wrapped fun _ u u' _ hu hkept _ => ?_
      refine Obeys.look (h := u.heap) rfl (fun v v' hv hl => ?_) u u' hu (L.later_refl _)
      exact L.bakes_bakedFrom (L.locals_known hv
        (L.there_later (L.later_trans (L.later_of_keeps hkept) hl) hinner))
    · have hmade : Script.childScope globalScope (w' i) = .ok (w.heap.addChild globalScope).1
          ((w' i).withHeap (w.heap.addChild globalScope).2) := by
        rw [← L.heap_eq hw i]
        rfl
      exact (bind_of_ok hmade).trans (bind_of_stopped (mapError_of_stopped (hstop i)))

/-- **A new instance** gets the values that are baked for it before its constructor is called. -/
theorem instantiateBy_obeysAt {bake : ScriptClass → Script Fields}
    {bake' : L.Case → ScriptClass → Script Fields} {id : ClassId} {args : List Value}
    (hw : L.Holds p w w') (hid : L.Known w.heap (.scriptClass id))
    (ha : ∀ v ∈ args, L.Known w.heap v) (hs : Calls.Serves L p again again')
    (hbake : ∀ k, w.heap.scriptClass? id = some k →
      (bake k).ObeysAt L p L.Bakes (fun i => bake' i k) w w') :
    (instantiateBy again bake id args).ObeysAt L p L.Known
      (fun i => instantiateBy (again' i) (bake' i) id args) w w' := by
  refine .looking rfl hw ?_
  simp only
  cases hk : w.heap.scriptClass? id with
  | none => exact .value hw L.known_null
  | some k =>
    refine .andThen (hbake k hk) fun baked u u' _ hu hkept hbaked => ?_
    have hl := L.later_of_keeps hkept
    refine Obeys.andThen (h := u.heap) (newOf_knows (L.known_later hl hid) hbaked args)
      (fun h₁ v hl₁ hv => ?_)
      u u' hu (L.later_refl _)
    refine .reading rfl fun init => ?_
    cases init with
    | none => exact .known hv
    | some init =>
      have this : ∀ v' ∈ some v, L.Known h₁ v' := by
        rintro _ ⟨⟩
        exact hv
      refine .andThen (hs.function init this fun v' hv' => L.known_later (L.later_trans hl hl₁)
        (ha v' hv')) ?_
      exact fun _ _ hl₂ _ => .known (L.known_later hl₂ hv)

/-! ## All values -/

theorem known_receiverValue (receiver : Receiver) : ∀ v ∈ some receiver.value, L.Known h v := by
  rintro _ ⟨⟩
  cases receiver <;> exact L.known_common trivial

/-- **Calls** obey the law if native functions and instances do. -/
theorem callValue_obeysAt {callee : Value} {args : List Value} (hw : L.Holds p w w')
    (ha : ∀ v ∈ args, L.Known w.heap v) (hs : Calls.Serves L p again again')
    (hnative : ∀ id, callee = .native id →
      (callNative again id args).ObeysAt L p L.Known (fun i => callNative (again' i) id args) w w')
    (hinstance : ∀ id, callee = .scriptClass id →
      (instantiate again id args).ObeysAt L p L.Known (fun i => instantiate (again' i) id args)
        w w') :
    (callValue again callee args).ObeysAt L p L.Known (fun i => callValue (again' i) callee args)
      w w' := by
  have at_ {r : Script Value} {r' : L.Case → Script Value} (hr : r.Obeys L p w.heap L.Known r') :
      r.ObeysAt L p L.Known r' w w' := hr w w' hw (L.later_refl _)
  cases callee with
  | function id =>
    have noReceiver : ∀ v ∈ (none : Option Value), L.Known w.heap v := nofun
    exact at_ (hs.function id noReceiver ha)
  | native id => exact hnative id rfl
  | boundMethod receiver method => exact at_ (hs.function method (known_receiverValue receiver) ha)
  | scriptClass id => exact hinstance id rfl
  | hostClass id =>
    exact at_ (.bind (HostRun.toScript_obeys (Host.construct_tame id args)) fun _ =>
      .common trivial)
  | hostMethod target name => exact at_ (Host.callHostMethod_knows hs target name ha)
  | _ => exact .raise hw rfl

end ScriptEngine.Evaluation
