import ScriptEngine.Proofs.Walk.Members
/-!
# Bodies under a law

Statements one after another obey a law if each of them does, a block if they do in the scope that
is made for it, and a call of a script function if the body of the function does inside the call
(`call_function`).

* `Evaluates`, `Executes`, `Blocks` : what is to be known of expressions, statements and bodies.
* `Law.Ends.later`, `Law.Ends.returned`, … : what is known of the end of a statement.
* `Evaluation.executeAll_obeys`, `Evaluation.executeBlock_obeys` : sequences.
* `Evaluation.enterFunction`, `Evaluation.callFunction_obeys` : calls of functions.
-/

namespace ScriptEngine

open Run

/-- The expression obeys the law at the place, and its value may be about. -/
abbrev Evaluates (L : Law) (p : L.Place) (h : Heap) (again : Calls) (again' : L.Case → Calls)
    (e : Expr) : Prop :=
  (again.evaluate e).Obeys L p h L.Known fun i => (again' i).evaluate e

/-- The statement obeys the law at the place, and so does the signal it ends with. -/
abbrev Executes (L : Law) (p : L.Place) (h : Heap) (again : Calls) (again' : L.Case → Calls)
    (s : Stmt) : Prop :=
  (again.execute s).Obeys L p h (L.Ends p) fun i => (again' i).execute s

/-- The statements obey the law at each place inside of the given one where all names may be
bound. -/
abbrev Blocks (L : Law) (p : L.Place) (h : Heap) (again : Calls) (again' : L.Case → Calls)
    (body : List Stmt) :
    Prop :=
  ∀ s ∈ body, ∀ q, L.Within p q → (∀ name, L.Declares q name) → Executes L q h again again' s

variable {L : Law} {p q : L.Place} {h h' : Heap} {again : Calls} {again' : L.Case → Calls}
    {α : Type}

/-! ## Ends -/

namespace Law.Ends

variable {flow : Flow} {s : ScopeId}

theorem later (hf : L.Ends p h flow) (hl : L.Later h h') : L.Ends p h' flow :=
  ⟨hf.allowed, fun v hv => L.known_later hl (hf.known v hv)⟩

theorem normal : L.Ends p h .normal := ⟨L.allowed_normal p, nofun⟩

theorem of_scope (hf : L.Ends (L.enter (.scope s) p) h flow) : L.Ends p h flow :=
  ⟨L.allowed_scope hf.allowed, hf.known⟩

theorem of_child (hf : L.Ends (L.child p s) h flow) : L.Ends p h flow :=
  ⟨L.allowed_child hf.allowed, hf.known⟩

/-- Whatever leaves a loop may leave what is around it. -/
theorem afterBody (hf : L.Ends (L.enter .loop p) h flow) :
    ∀ a ∈ Evaluation.afterBody flow, L.Ends p h a := by
  intro a ha
  refine ⟨L.allowed_loop hf.allowed a ha, fun v hv => hf.known v ?_⟩
  subst hv
  cases flow <;> cases ha
  rfl

/-- Whatever leaves a switch may leave what is around it. -/
theorem afterSwitch (hf : L.Ends (L.enter (.switch s) p) h flow) :
    L.Ends p h (Evaluation.afterSwitch flow) := by
  refine ⟨L.allowed_switch hf.allowed, fun v hv => hf.known v ?_⟩
  cases flow with
  | brk => cases hv
  | normal | cont | ret => exact hv

/-- What a function returns was known when it was returned. -/
theorem returned (hf : L.Ends p h flow) : L.Known h (Evaluation.returned flow) := by
  cases flow with
  | ret v => exact hf.known v rfl
  | normal | brk | cont => exact L.known_null

end Law.Ends

/-! ## New scopes -/

namespace Run.Obeys

/-- What holds of the states there are may be counted on. -/
theorem here {Q : Heap → α → Prop} {ε : Type} [Faulty ε] {r : Run ε α} {r' : L.Case → Run ε α}
    (hr : ∀ w w', L.Holds p w w' → L.Later h w.heap → r.Obeys L p w.heap Q r') :
    r.Obeys L p h Q r' :=
  fun w w' hw hl => hr w w' hw hl w w' hw (L.later_refl _)

/-- A new scope in the one that is running. -/
theorem inNewScope {Q : Heap → α → Prop} {k : ScopeId → Script α} {k' : L.Case → ScopeId → Script α}
    (hk : ∀ h' s, L.Later h h' → L.There h' (.scope s) → L.There h' (.inner s) →
      (k s).Obeys L (L.child p s) h' Q fun i => k' i s) :
    (Script.currentScope >>= fun parent => Script.childScope parent >>= k).Obeys L p h Q
      fun i => Script.currentScope >>= fun parent => Script.childScope parent >>= k' i :=
  .looking rfl fun w w' hw hl => inChild (L.scope_there hw)
    (fun h' s hl' => hk h' s (L.later_trans hl hl')) w w' hw (L.later_refl _)

/-- The scope of the globals is always there. -/
theorem atTop {Q : Heap → α → Prop} {ε : Type} [Faulty ε] {r : Run ε α} {r' : L.Case → Run ε α}
    (hr : r.Obeys L (L.enter (.top globalScope) p) h Q r') :
    (Run.inFrame (fun _ => .top globalScope) r).Obeys L p h Q
      fun i => Run.inFrame (fun _ => .top globalScope) (r' i) := by
  refine here fun w w' hw hl => inFrame (.top globalScope) ?_ (hr.later hl)
  rintro _ ⟨⟩
  exact L.globals_there hw

end Run.Obeys

/-! ## Sequences -/

namespace Evaluation

theorem signalOf_obeys {s : Stmt} (hs : Executes L p h again again' s) :
    (signalOf again s).Obeys L p h (fun h' o => ∀ a ∈ o, ∀ h'', L.Later h' h'' → L.Ends p h'' a)
      fun i => signalOf (again' i) s := by
  refine .andThen hs fun h' flow _ hflow => ?_
  cases flow with
  | normal => exact .value fun _ _ => nofun
  | brk | cont | ret =>
    refine .value fun h₁ hl a ha h₂ hl' => ?_
    cases ha
    exact hflow.later (L.later_trans hl hl')

theorem executeAll_obeys {body : List Stmt} (hb : ∀ s ∈ body, Executes L p h again again' s) :
    (executeAll again body).Obeys L p h (L.Ends p) fun i => executeAll (again' i) body :=
  .forEach (fun _ _ => .normal) body fun s hs => signalOf_obeys (hb s hs)

/-- Statements in a scope that was made for them. -/
theorem executeIn_obeys {body : List Stmt} (hb : Blocks L p h again again' body) {s : ScopeId}
    (hl : L.Later h h') (hs : L.There h' (.scope s)) :
    (executeIn again s body).Obeys L (L.child p s) h' (L.Ends p) fun i =>
      executeIn (again' i) s body := by
  have inside : (executeAll again body).Obeys L (L.enter (.scope s) (L.child p s)) h'
      (L.Ends (L.enter (.scope s) (L.child p s))) fun i => executeAll (again' i) body :=
    executeAll_obeys fun stmt hstmt => (hb stmt hstmt _ ((Law.Within.refl.child s).enter (.scope s))
      fun name => L.declares_enter rfl (L.binds_child p s name)).later hl
  refine (Obeys.inFrame (.scope s) ?_ inside).mono fun _ _ _ hflow => hflow.of_scope.of_child
  rintro _ ⟨⟩
  exact hs

/-- **A block** has a scope of its own. -/
theorem executeBlock_obeys {body : List Stmt} (hb : Blocks L p h again again' body) :
    (executeBlock again body).Obeys L p h (L.Ends p) fun i => executeBlock (again' i) body :=
  .inNewScope fun _ _ hl hs _ => executeIn_obeys hb hl hs

/-! ## Functions -/

/-- What a script function does once the call is counted. -/
def enterFunction (again : Calls) (id : FunctionId) (this : Option Value) (args : List Value) :
    Script Value := do
  match ← Script.heap (·.functions[id.index]?) with
  | none => return .null
  | some f =>
    let scope ← Script.childScope f.closure
    match this with
    | some v => Script.define scope "this" v
    | none => pure ()
    bindArguments scope f.decl.params args
    return returned (← Run.inFrame (functionFrame scope) (executeAll again f.decl.body))

theorem callFunction_eq (again : Calls) (id : FunctionId) (this : Option Value)
    (args : List Value) :
    callFunction again id this args = Script.asCall (enterFunction again id this args) :=
  rfl

/-- The body of a function in its scope, which was made for the call. -/
theorem functionBody_obeys {body : List Stmt} (hb : Blocks L p h again again' body) {s : ScopeId}
    (hl : L.Later h h') (hs : L.There h' (.scope s)) :
    (Run.inFrame (functionFrame s) (executeAll again body)).Obeys L (L.child p s) h'
      (L.Ends (L.enter (.function s) (L.child p s)))
      fun i => Run.inFrame (functionFrame s) (executeAll (again' i) body) := by
  refine .inFrame (.function s) ?_ ?_
  · rintro _ ⟨⟩
    exact hs
  · exact executeAll_obeys fun stmt hstmt =>
      (hb stmt hstmt _ ((Law.Within.refl.child s).enter (.function s))
      fun name => L.declares_enter rfl (L.binds_child p s name)).later hl

/-- **What a function does inside a call** obeys the law if its body does. -/
theorem enterFunction_obeys (hb : ∀ decl, L.function decl → Blocks L p h again again' decl.body)
    (id : FunctionId) {this : Option Value} (ht : ∀ v ∈ this, L.Known h v) {args : List Value}
    (ha : ∀ v ∈ args, L.Known h v) :
    (enterFunction again id this args).Obeys L p h L.Known
      fun i => enterFunction (again' i) id this args := by
  have found : (Script.heap (·.functions[id.index]?)).Lawful L p h fun h' o =>
      ∀ g ∈ o, L.function (Function.decl g) ∧ L.There h' (.scope g.closure) :=
    .look rfl fun w w' hw _ g hg => ⟨L.function_at hw g (Array.mem_of_getElem? hg),
      L.closure_there hw g (Array.mem_of_getElem? hg)⟩
  refine .andThen found fun h₁ o hl₁ hfound => ?_
  cases o with
  | none => exact .common trivial
  | some g =>
    obtain ⟨hdecl, hclosure⟩ := hfound g rfl
    refine .inChild hclosure fun h₂ scope hl₂ hscope _ => ?_
    have hl := L.later_trans hl₁ hl₂
    have body {h₃ : Heap} (hl₃ : L.Later h₂ h₃) : (do
        bindArguments scope g.decl.params args
        return returned (← Run.inFrame (functionFrame scope) (executeAll again g.decl.body)) :
        Script Value).Obeys L (L.child p scope) h₃ L.Known fun i => do
        bindArguments scope g.decl.params args
        return returned
          (← Run.inFrame (functionFrame scope) (executeAll (again' i) g.decl.body)) := by
      have hl := L.later_trans hl hl₃
      refine .andThen (bindArguments_tame (fun name => L.binds_child p scope name) _
        fun v hv => L.known_later hl (ha v hv)) fun h₄ _ hl₄ _ => ?_
      exact .andThen (functionBody_obeys (hb g.decl hdecl) (L.later_trans hl hl₄)
        (L.there_later (L.later_trans hl₃ hl₄) hscope)) fun _ flow _ hflow => .known hflow.returned
    cases this with
    | none => exact body (L.later_refl h₂)
    | some v =>
      have hbound := L.binds_child p scope "this"
      exact .andThen (Script.declare_obeys hbound (L.known_later hl (ht v rfl)) false)
        fun _ _ hl₃ _ => body hl₃

/-- **A call of a script function** obeys the law if there is no room for it, or else if the body
does. -/
theorem callFunction_obeys (hq : L.Inside p q)
    (hb : L.Room p → ∀ decl, L.function decl → Blocks L q h again again' decl.body)
    (id : FunctionId) {this : Option Value} (ht : ∀ v ∈ this, L.Known h v) {args : List Value}
    (ha : ∀ v ∈ args, L.Known h v) :
    (callFunction again id this args).Obeys L p h L.Known
      fun i => callFunction (again' i) id this args := by
  simp only [callFunction_eq]
  exact .asCall (fun _ => rfl) hq fun hroom => enterFunction_obeys (hb hroom) id ht ha

end Evaluation

end ScriptEngine
