import ScriptEngine.Proofs.Walk.Expressions
/-!
# Statements under a law

A statement obeys a law if the expressions and statements in it do, and the signal that it ends with
is one that the law allows there (`execute`). Loops and switches raise a depth of the frame, and
take for themselves the signals that only the raised depth allows. A handler takes the errors of the
body that it stands behind, so none of these may be carried; a cleanup behind an error that is
carried has to end normally, or else the error is lost.

* `Stmt.exprs`, `Stmt.inner`, `Stmt.functions`, `Stmt.staticBlocks`, `Stmt.mentions` : the parts of
  a statement.
* `Stmt.Binds`, `Stmt.opens` : the names that it binds where it stands, and whether the statements
  in it stand there too.
* `Stmt.Covered`, `Stmt.Releases` : what has to be known of the parts, and of errors that are
  carried.
* `Evaluation.attempt_obeysAt` : handlers and cleanups.
* `Evaluation.step_obeysAt`, `Evaluation.step_obeys` : every statement.
-/

namespace ScriptEngine

open Run

namespace Stmt

/-- The expressions of a statement that it evaluates itself. -/
def exprs : Stmt → List Expr
  | expr e => [e]
  | binding _ initial _ _ => initial.toList
  | assign _ _ value _ => [value]
  | cond test _ _ _ | loop test _ _ => [test]
  | forIn _ iterable _ _ => [iterable]
  | switch subject cases _ => subject :: cases.flatMap fun clause => clause.values.getD []
  | ret value _ => value.toList
  | block .. | function _ | brk _ | cont _ | classDecl _ | importType .. | attempt .. => []

/-- The statements in a statement that it executes itself. -/
def inner : Stmt → List Stmt
  | block body _ => body
  | cond _ thenBranch elseBranch _ => thenBranch :: elseBranch.toList
  | loop _ body _ | forIn _ _ body _ => [body]
  | switch _ cases _ => cases.flatMap SwitchCase.body
  | attempt body handler cleanup _ =>
    body ++ (handler.elim [] fun clause => clause.2) ++ cleanup.getD []
  | expr _ | binding .. | assign .. | function _ | ret .. | brk _ | cont _ | classDecl _
  | importType .. => []

/-- The functions that a statement makes itself. -/
def functions : Stmt → List FunctionDecl
  | function decl => [decl]
  | classDecl decl => decl.methods
  | _ => []

/-- The static blocks of the classes that a statement declares. -/
def staticBlocks : Stmt → List (List Stmt)
  | classDecl decl => decl.staticBlock.toList
  | _ => []

/-- The mention of the class that a class extends. -/
def mentions : Stmt → List (String × Span)
  | classDecl decl => decl.superclass.toList
  | _ => []

/-- Whether a statement is a loop with a test. -/
def isLoop : Stmt → Bool
  | loop .. => true
  | _ => false

/-- Whether the statements in a statement are executed in scopes of their own. -/
def opens : Stmt → Bool
  | cond .. | loop .. => false
  | _ => true

/-- The statement may bind the name in the scope that it is executed in. An import of an empty path
may bind any. -/
def Binds (name : String) : Stmt → Prop
  | binding declared .. => name = declared
  | function decl => name = decl.shownName
  | classDecl decl => name = decl.name
  | importType path _ => ∀ last ∈ path.getLast?, name = last
  | _ => False

/-- The parts of a statement obey the law at all places that it leads to, and what it adds to the
heap is what the law allows. -/
structure Covered (L : Law) (p : L.Place) (h : Heap) (again : Calls) (again' : L.Case → Calls)
    (s : Stmt) :
    Prop where
  exprs : ∀ e ∈ s.exprs, ∀ q, L.Within p q → Evaluates L q h again again' e
  inner : ∀ s' ∈ s.inner, ∀ q, L.Within p q → (s.opens → ∀ name, L.Declares q name) →
    Executes L q h again again' s'
  functions : ∀ decl ∈ s.functions, L.function decl
  staticBlocks : ∀ block ∈ s.staticBlocks, L.staticBlock block
  mentions : ∀ mention ∈ s.mentions, L.Places mention.2
  binds : ∀ name, s.Binds name → L.Declares p name
  stops : s.isLoop → L.stops .exhausted

end Stmt

variable {L : Law} {p : L.Place} {h h' : Heap} {w : World} {w' : L.Case → World} {again : Calls}
  {again' : L.Case → Calls}

/-- An error that is carried is not taken by the statement. -/
structure Stmt.Releases (L : Law) (again : Calls) (again' : L.Case → Calls) (s : Stmt) (w : World)
    (w' : L.Case → World) : Prop where
  /-- There is no handler for it. -/
  uncaught : ∀ body clause cleanup span, s = .attempt body (some clause) cleanup span →
    ∀ f v, Evaluation.executeBlock again body w = .error f v →
      (∀ i, Evaluation.executeBlock (again' i) body (w' i) = .stopped (L.cut i)) → ¬L.carries f
  /-- A cleanup behind it ends normally. -/
  kept : ∀ body handler block span, s = .attempt body handler (some block) span →
    ∀ f v, Evaluation.guarded again body handler w = .error f v →
      (∀ i, Evaluation.guarded (again' i) body handler (w' i) = .stopped (L.cut i)) → L.carries f →
        ∃ v', Evaluation.executeBlock again block v = .ok .normal v'

/-- Where no errors are carried, none have to escape. -/
theorem Stmt.releases_of_none (hc : ∀ f, ¬L.carries f) (s : Stmt) :
    Stmt.Releases L again again' s w w' where
  uncaught _ _ _ _ _ f _ _ _ := hc f
  kept _ _ _ _ _ f _ _ _ hf := absurd hf (hc f)

namespace Evaluation

/-! ## Loops -/

theorem testedRound_obeys {test : Expr} {body : Stmt}
    (ht : Evaluates L (L.enter .loop p) h again again' test)
    (hb : Executes L (L.enter .loop p) h again again' body) :
    (testedRound again test body).Obeys L (L.enter .loop p) h
      (fun h' o => ∀ a ∈ o, ∀ h'', L.Later h' h'' → L.Ends p h'' a)
      fun i => testedRound (again' i) test body := by
  refine .andThen ht fun h₁ v hl _ => .andThen (.read rfl) fun h₂ truthy hl' _ => ?_
  cases truthy with
  | true =>
    refine .andThen (hb.later (L.later_trans hl hl')) fun h₃ flow _ hflow =>
      .value fun h₄ hl₄ a ha h₅ hl₅ => ?_
    exact (hflow.afterBody a ha).later (L.later_trans hl₄ hl₅)
  | false =>
    refine .value fun h₃ _ a ha h₄ _ => ?_
    cases ha
    exact .normal

theorem whileLoop_obeys {test : Expr} {body : Stmt} {n : Nat} {m : L.Case → Nat}
    (hn : ∀ i, L.Rounds n (m i)) (hs : L.stops .exhausted)
    (ht : Evaluates L (L.enter .loop p) h again again' test)
    (hb : Executes L (L.enter .loop p) h again again' body) :
    (whileLoop again n test body).Obeys L p h (L.Ends p) fun i => whileLoop (again' i)
      (m i) test body :=
  .inFrame .loop nofun (.repeatUntil hs (testedRound_obeys ht hb) hn)

/-- Each round of a loop over items has a scope of its own, with the item in it. -/
theorem itemRound_obeys (name : String) {body : Stmt} {item : Value}
    (hb : Blocks L (L.enter .loop p) h again again' [body]) (hi : L.Known h item) :
    (itemRound again name body item).Obeys L (L.enter .loop p) h
      (fun h' o => ∀ a ∈ o, ∀ h'', L.Later h' h'' → L.Ends p h'' a)
      fun i => itemRound (again' i) name body item := by
  refine .inNewScope fun h₁ s hl₁ hs _ => ?_
  have hbound := L.binds_child (L.enter .loop p) s
  refine .andThen (Script.declare_obeys (hbound name) (L.known_later hl₁ hi) false)
    fun h₂ _ hl₂ _ => ?_
  have round : Executes L (L.enter (.scope s) (L.child (L.enter .loop p) s)) h₂ again again' body :=
    (hb body List.mem_cons_self _ ((Law.Within.refl.child s).enter (.scope s))
      fun name => L.declares_enter rfl (hbound name)).later (L.later_trans hl₁ hl₂)
  refine .andThen (Obeys.inFrame (.scope s) ?_ round) fun h₃ flow _ hflow =>
    .value fun h₄ hl₄ a ha h₅ hl₅ => ?_
  · rintro _ ⟨⟩
    exact L.there_later hl₂ hs
  · exact (hflow.of_scope.of_child.afterBody a ha).later (L.later_trans hl₄ hl₅)

theorem itemLoop_obeys (name : String) {iterable : Expr} {body : Stmt}
    (he : Evaluates L p h again again' iterable)
    (hb : Blocks L (L.enter .loop p) h again again' [body]) :
    (itemLoop again name iterable body).Obeys L p h (L.Ends p)
      fun i => itemLoop (again' i) name iterable body := by
  refine .andThen he fun h₁ v hl₁ _ => .andThen (itemsOf_obeys v) fun h₂ items hl₂ hitems => ?_
  refine .inFrame .loop nofun (.forEach (fun _ _ => .normal) items fun item hitem => ?_)
  have hl := L.later_trans hl₁ hl₂
  exact itemRound_obeys name (fun s hs q hq hd => (hb s hs q hq hd).later hl) (hitems item hitem)

/-! ## Selection -/

theorem conditional_obeys {test : Expr} {thenBranch : Stmt} {elseBranch : Option Stmt}
    (ht : Evaluates L p h again again' test)
    (hb : ∀ s ∈ thenBranch :: elseBranch.toList, Executes L p h again again' s) :
    (conditional again test thenBranch elseBranch).Obeys L p h (L.Ends p)
      fun i => conditional (again' i) test thenBranch elseBranch := by
  refine .bind ht.tame fun v => .reading rfl fun truthy => ?_
  cases truthy with
  | true => exact hb thenBranch List.mem_cons_self
  | false =>
    cases elseBranch with
    | none => exact .value fun _ _ => .normal
    | some branch => exact hb branch (by simp)

theorem selects_tame {subject : Value} {clause : SwitchCase}
    (he : ∀ e ∈ clause.values.getD [], Evaluates L p h again again' e) :
    (selects again subject clause).Obeys L p h (fun _ _ => True)
      fun i => selects (again' i) subject clause := by
  unfold selects
  split
  · exact .done _
  · next values heq =>
    rw [heq] at he
    refine .forEach (fun _ _ => trivial) values fun e hmem => .bind (he e hmem).tame fun v => ?_
    exact .reading rfl fun same => .value fun _ _ _ _ _ _ => trivial

/-- The clauses that are selected are some of those there are. -/
theorem selectedFrom_obeys (subject : Value) : ∀ clauses : List SwitchCase,
    (∀ e ∈ clauses.flatMap (fun clause => clause.values.getD []), Evaluates L p h again again' e) →
      (selectedFrom? again subject clauses).Obeys L p h (fun _ o => ∀ cs ∈ o, cs ⊆ clauses)
        fun i => selectedFrom? (again' i) subject clauses
  | [], _ => .value fun _ _ => nofun
  | clause :: clauses, he => by
    refine .bind (selects_tame fun e hmem => he e (by simp [hmem])) fun found => ?_
    cases found with
    | true =>
      refine .value fun _ _ cs hcs => ?_
      cases hcs
      exact List.Subset.refl _
    | false =>
      refine (selectedFrom_obeys subject clauses fun e hmem =>
        he e (List.mem_append_right _ hmem)).mono
        fun _ o _ ho cs hcs => List.subset_cons_of_subset _ (ho cs hcs)

theorem defaultFrom_subset (clauses : List SwitchCase) : defaultFrom clauses ⊆ clauses :=
  (List.dropWhile_suffix _).subset

/-- All clauses from the selected one on are executed in one new scope. -/
theorem switch_obeys {subject : Expr} {clauses : List SwitchCase}
    (hs : Evaluates L p h again again' subject)
    (he : ∀ e ∈ clauses.flatMap (fun clause => clause.values.getD []), Evaluates L p h again again'
      e)
    (hb : Blocks L p h again again' (clauses.flatMap SwitchCase.body)) :
    (switch again subject clauses).Obeys L p h (L.Ends p) fun i =>
      switch (again' i) subject clauses := by
  refine .andThen hs fun h₁ v hl₁ _ => ?_
  refine .andThen (selectedFrom_obeys v clauses fun e hmem => (he e hmem).later hl₁)
    fun h₂ found hl₂ hfound => ?_
  have hsub : found.getD (defaultFrom clauses) ⊆ clauses := by
    cases found with
    | none => exact defaultFrom_subset clauses
    | some cs => exact hfound cs rfl
  split
  · exact .value fun _ _ => .normal
  · refine .inNewScope fun h₃ s hl₃ hscope _ => ?_
    have body :
        (executeAll again ((found.getD (defaultFrom clauses)).flatMap SwitchCase.body)).Obeys L
          (L.enter (.switch s) (L.child p s)) h₃ (L.Ends (L.enter (.switch s) (L.child p s)))
          fun i => executeAll (again' i)
            ((found.getD (defaultFrom clauses)).flatMap SwitchCase.body) := by
      refine executeAll_obeys fun stmt hstmt => ?_
      obtain ⟨clause, hclause, hmem⟩ := List.mem_flatMap.mp hstmt
      have hall := hb stmt (List.mem_flatMap.mpr ⟨clause, hsub hclause, hmem⟩) _
        ((Law.Within.refl.child s).enter (.switch s)) fun name =>
          L.declares_enter rfl (L.binds_child p s name)
      exact hall.later (L.later_trans hl₁ (L.later_trans hl₂ hl₃))
    refine .andThen (Obeys.inFrame (.switch s) ?_ body) fun h₄ flow _ hflow => .value fun h₅ hl₅ =>
      ?_
    · rintro _ ⟨⟩
      exact hscope
    · exact (Law.Ends.of_child hflow.afterSwitch).later hl₅

/-! ## Errors -/

/-- **A handler** sees the error under a name of a scope of its own. -/
theorem handle_obeys (name : String) {handler : List Stmt} (hb : Blocks L p h again again' handler)
    (f : Fault) :
    (handle again name handler f).Obeys L p h (L.Ends p)
      fun i => handle (again' i) name handler f := by
  have made : (errorObject f).Knows L p h := by
    refine Script.newObject_knows (List.forall_mem_cons.mpr ⟨?_, List.forall_mem_singleton.mpr ?_⟩)
    · exact L.known_common trivial
    · exact L.known_common trivial
  refine .andThen made fun h₁ e hl₁ he => .inNewScope fun h₂ s hl₂ hs _ => ?_
  refine .andThen (Script.declare_obeys (L.binds_child p s name) (L.known_later hl₂ he) false)
    fun h₃ _ hl₃ _ => ?_
  refine (executeIn_obeys hb (L.later_trans hl₁ (L.later_trans hl₂ hl₃))
    (L.there_later hl₃ hs)).mono ?_
  exact fun _ _ _ hflow => hflow

/-- A body without a handler is executed as it is. -/
theorem guarded_none (again : Calls) (body : List Stmt) (w : World) :
    guarded again body none w = executeBlock again body w := by
  simp only [guarded, Bind.bind, Run.attempt]
  cases executeBlock again body w <;> rfl

/-- What the handler of a body makes of its error. -/
theorem guarded_of_error {body handler : List Stmt} {name : String} {f : Fault} {v : World}
    (hbody : executeBlock again body w = .error f v) :
    guarded again body (some (name, handler)) w = handle again name handler f v := by
  simp only [guarded, Bind.bind, Run.attempt, hbody]

/-- A handler takes the errors of the body, so none of them may be carried. -/
theorem guarded_obeysAt (hw : L.Holds p w w') {body : List Stmt}
    {handler : Option (String × List Stmt)} (hb : Blocks L p w.heap again again' body)
    (hh : Blocks L p w.heap again again' (handler.elim [] fun clause => clause.2))
    (hcut : handler.isSome → ∀ f v, executeBlock again body w = .error f v →
      (∀ i, executeBlock (again' i) body (w' i) = .stopped (L.cut i)) → ¬L.carries f) :
    (guarded again body handler).ObeysAt L p (L.Ends p)
      (fun i => guarded (again' i) body handler) w w' := by
  have hbody := executeBlock_obeys hb w w' hw (L.later_refl _)
  cases handler with
  | none =>
    unfold ObeysAt
    simp only [guarded_none]
    exact hbody
  | some clause =>
    refine .andThen (ObeysAt.attempt hbody (hcut rfl)) fun outcome v v' _ hv hk htried => ?_
    cases outcome with
    | ok flow => exact .value hv htried
    | error f =>
      have hl := L.later_of_keeps hk
      exact handle_obeys clause.1 (fun s hs q hq hd => (hh s hs q hq hd).later hl) f v v' hv
        (L.later_refl _)

/-- **Handlers and cleanups**: a cleanup behind an error that is carried has to end normally. -/
theorem attempt_obeysAt (hw : L.Holds p w w') {body : List Stmt}
    {handler : Option (String × List Stmt)} {cleanup : Option (List Stmt)} {span : Span}
    (hb : Blocks L p w.heap again again' body)
    (hh : Blocks L p w.heap again again' (handler.elim [] fun clause => clause.2))
    (hc : Blocks L p w.heap again again' (cleanup.getD []))
    (hx : Stmt.Releases L again again' (.attempt body handler cleanup span) w w') :
    (attempt again body handler cleanup).ObeysAt L p (L.Ends p)
      (fun i => attempt (again' i) body handler cleanup) w w' := by
  have hguarded : (guarded again body handler).ObeysAt L p (L.Ends p)
      (fun i => guarded (again' i) body handler) w w' := by
    refine guarded_obeysAt hw hb hh fun hsome => ?_
    obtain ⟨clause, rfl⟩ := Option.isSome_iff_exists.mp hsome
    exact hx.uncaught body clause cleanup span rfl
  cases cleanup with
  | none => exact hguarded
  | some block =>
    refine .attemptThen hguarded (fun outcome v v' hv hk htried => ?_) fun f v herror hstopped hf =>
      ?_
    · have hl := L.later_of_keeps hk
      refine Obeys.andThen (h := v.heap) (executeBlock_obeys fun s hs q hq hd =>
        (hc s hs q hq hd).later hl)
        (fun h₁ flow hl₁ hflow => ?_) v v' hv (L.later_refl _)
      cases flow with
      | normal =>
        cases outcome with
        | ok flow => exact .value fun _ hl₂ => Law.Ends.later htried (L.later_trans hl₁ hl₂)
        | error f => exact .ofExcept fun _ _ => htried
      | brk | cont | ret => exact .value fun _ hl₂ => hflow.later hl₂
    · obtain ⟨u, hnormal⟩ := hx.kept body handler block span rfl f v herror hstopped hf
      exact ⟨u, (bind_of_ok hnormal).trans rfl⟩

/-! ## All statements -/

theorem evaluateOptional_knows {e : Option Expr}
    (he : ∀ e' ∈ e.toList, Evaluates L p h again again' e') :
    (evaluateOptional again e).Obeys L p h L.Known fun i => evaluateOptional (again' i) e := by
  cases e with
  | none => exact .common trivial
  | some e => exact he e (by simp)

/-- The other runs stand outside of all functions where the run does. -/
theorem functionDepth_eq_zero_iff (hw : L.Holds p w w') (i : L.Case) :
    (w' i).frame.functionDepth = 0 ↔ w.frame.functionDepth = 0 := by
  obtain ⟨queues, n, heq, halike⟩ := L.near hw i
  rw [heq]
  exact halike

/-- A function is left wherever there is one, however deep the code stands. -/
theorem leave_obeys {value : Option Expr}
    (he : ∀ e ∈ value.toList, Evaluates L p h again again' e) :
    (leave again value).Obeys L p h (L.Ends p) fun i => leave (again' i) value := by
  intro w w' hw hl
  unfold ObeysAt
  by_cases hd : w.frame.functionDepth = 0
  · have outside (again : Calls) (u : World) (hu : u.frame.functionDepth = 0) :
        leave again value u = .error (.runtime .returnOutsideFunction) u := by
      simp [leave, Bind.bind, Run.read, hu, Script.fail, Run.raise]
    simp only [outside _ w hd, outside _ _ ((functionDepth_eq_zero_iff hw _).mpr hd)]
    exact .error hw (L.keeps_refl p w.heap) (L.fits_fresh rfl)
  · have inside (again : Calls) (u : World) (hu : u.frame.functionDepth ≠ 0) :
        leave again value u =
          (do return .ret (← evaluateOptional again value) : Script Flow) u := by
      simp [leave, Bind.bind, Run.read, hu]
    simp only [inside _ w hd, inside _ _ (mt (functionDepth_eq_zero_iff hw _).mp hd)]
    have returned : (do return .ret (← evaluateOptional again value) : Script Flow).Obeys
        L p h (L.Ends p)
        fun i => do return .ret (← evaluateOptional (again' i) value) := by
      refine .andThen (evaluateOptional_knows he) fun h₁ v _ hv => .value fun h₂ hl₂ => ?_
      refine ⟨L.allowed_ret hw hd v, fun u hu => ?_⟩
      cases hu
      exact L.known_later hl₂ hv
    exact returned w w' hw hl

theorem assignName_tame (name : String) (op : AssignOp) {value : Expr}
    (he : Evaluates L p h again again' value) :
    (assignName again name op value).Obeys L p h (fun _ _ => True)
      fun i => assignName (again' i) name op value :=
  .reading rfl fun s => .andThen (assignedValue_knows (Script.get_obeys s name).tame he)
    fun _ _ _ hv =>
    Script.assign_obeys s name hv

/-- A declaration in the scope that is running. -/
theorem declared_obeys {name : String} {v : Value} (hd : L.Declares p name) (hv : L.Known h v)
    (constant : Bool) :
    (do Script.declare (← Script.currentScope) name v constant; return .normal : Script Flow).Lawful
      L p h
      (L.Ends p) :=
  .looking rfl fun w w' hw hl =>
    Obeys.bind (Script.declare_obeys (hd w w' hw) hv constant) (fun _ => .value fun _ _ => .normal)
      w w' hw hl

/-- Breaking out of a loop or a switch. -/
theorem brk_obeys {n : Nat} {m : L.Case → Nat} (span : Span) :
    (step again n (.brk span)).Obeys L p h (L.Ends p) fun i => step (again' i) (m i)
      (.brk span) := by
  let k (outside : Bool) : Script Flow := if outside then Script.fail .breakOutsideLoop else
    pure .brk
  have look {g : World → Bool} (hg : Blind g) (hk : ∀ w w', L.Holds p w w' →
      (k (g w)).ObeysAt L p (L.Ends p) (fun _ => k (g w)) w w') :
      (Run.read g >>= k).Obeys L p h (L.Ends p) fun _ => Run.read g >>= k :=
    .looking hg fun w w' hw _ => hk w w' hw
  refine look rfl fun w w' hw => ?_
  unfold k
  split
  · exact .raise hw rfl
  · next hd => exact .value hw ⟨L.allowed_brk hw (by simpa using hd), nofun⟩

theorem cont_obeys {n : Nat} {m : L.Case → Nat} (span : Span) :
    (step again n (.cont span)).Obeys L p h (L.Ends p) fun i => step (again' i) (m i)
      (.cont span) := by
  refine .looking rfl fun w w' hw _ => ?_
  split
  · exact .raise hw rfl
  · next hd => exact .value hw ⟨L.allowed_cont hw (by simpa using hd), nofun⟩

/-- **Every statement** obeys the law if its parts do, and what it takes of errors is not
carried. -/
theorem step_obeysAt (hw : L.Holds p w w') {n : Nat} {m : L.Case → Nat} (hn : ∀ i, L.Rounds n (m i))
    {s : Stmt} (hc : s.Covered L p w.heap again again') (hx : Stmt.Releases L again again' s w w') :
    (step again n s).ObeysAt L p (L.Ends p) (fun i => step (again' i) (m i) s) w w' := by
  have hrefl := L.later_refl w.heap
  have normally {r : Script Unit} {r' : L.Case → Script Unit}
      (hr : r.Obeys L p w.heap (fun _ _ => True) r') :
      (do r; return .normal : Script Flow).ObeysAt L p (L.Ends p)
      (fun i => do r' i; return .normal) w w' :=
    Obeys.bind hr (fun _ => .value fun _ _ => Law.Ends.normal) w w' hw hrefl
  cases s with
  | expr e =>
    exact Obeys.bind (hc.exprs e List.mem_cons_self p .refl).tame (fun _ => .value fun _ _ =>
      .normal)
      w w' hw hrefl
  | binding name initial constant span =>
    refine Obeys.andThen (h := w.heap) (evaluateOptional_knows fun e he => hc.exprs e he p .refl)
      (fun h₁ v _ hv => ?_) w w' hw hrefl
    exact declared_obeys (hc.binds name rfl) hv constant
  | assign name op value span =>
    exact normally (assignName_tame name op (hc.exprs value List.mem_cons_self p .refl))
  | block body span =>
    exact executeBlock_obeys (fun s hs q hq hd => hc.inner s hs q hq fun _ => hd) w w' hw hrefl
  | cond test thenBranch elseBranch span =>
    exact conditional_obeys (hc.exprs test List.mem_cons_self p .refl)
      (fun s hs => hc.inner s hs p .refl nofun) w w' hw hrefl
  | loop test body span =>
    have hin : L.Within p (L.enter .loop p) := Law.Within.refl.enter .loop
    exact whileLoop_obeys hn (hc.stops rfl) (hc.exprs test List.mem_cons_self _ hin)
      (hc.inner body List.mem_cons_self _ hin nofun) w w' hw hrefl
  | forIn name iterable body span =>
    refine itemLoop_obeys name (hc.exprs iterable List.mem_cons_self p .refl) ?_ w w' hw hrefl
    exact fun s hs q hq hd => hc.inner s hs q ((Law.Within.refl.enter .loop).trans hq) fun _ => hd
  | «switch» subject clauses span =>
    exact switch_obeys (hc.exprs subject List.mem_cons_self p .refl)
      (fun e he => hc.exprs e (List.mem_cons_of_mem subject he) p .refl)
      (fun s hs q hq hd => hc.inner s hs q hq fun _ => hd) w w' hw hrefl
  | function decl =>
    refine Obeys.bind (h := w.heap) (closure_obeys (hc.functions decl List.mem_cons_self)).tame
      (fun id => ?_)
      w w' hw hrefl
    exact declared_obeys (v := .function id) (hc.binds _ rfl) (L.known_common trivial) false
  | ret value span => exact leave_obeys (fun e he => hc.exprs e he p .refl) w w' hw hrefl
  | brk span => exact brk_obeys span w w' hw hrefl
  | cont span => exact cont_obeys span w w' hw hrefl
  | classDecl decl =>
    refine normally (declareClass_tame
      (fun mention hm => hc.mentions mention (by simpa [Stmt.mentions] using hm)) hc.functions
      (fun block hb => hc.staticBlocks block (by simpa [Stmt.staticBlocks] using hb)) ?_)
    exact hc.binds decl.name rfl
  | importType path span => exact normally (importType_tame hc.binds)
  | «attempt» body handler cleanup span =>
    have hblocks {part : List Stmt} (hsub : ∀ s ∈ part,
        s ∈ (Stmt.attempt body handler cleanup span).inner) :
        Blocks L p w.heap again again' part :=
      fun s hs q hq hd => hc.inner s (hsub s hs) q hq fun _ => hd
    refine attempt_obeysAt hw (hblocks fun s hs => ?_) (hblocks fun s hs => ?_) (hblocks fun s hs =>
      ?_) hx
    · exact List.mem_append_left _ (List.mem_append_left _ hs)
    · exact List.mem_append_left _ (List.mem_append_right _ hs)
    · exact List.mem_append_right _ hs

/-- Where no errors are carried, statements take what they take. -/
theorem step_obeys (hcarries : ∀ f, ¬L.carries f) {n : Nat} {m : L.Case → Nat}
    (hn : ∀ i, L.Rounds n (m i)) {s : Stmt}
    (hc : ∀ h', L.Later h h' → s.Covered L p h' again again') :
    (step again n s).Obeys L p h (L.Ends p) fun i => step (again' i) (m i) s :=
  fun _ _ hw hl => step_obeysAt hw hn (hc _ hl) (Stmt.releases_of_none hcarries s)

end Evaluation

end ScriptEngine
