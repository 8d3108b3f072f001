import ScriptEngine.Evaluation.Expression
import ScriptEngine.Proofs.Walk.Host
/-!
# Expressions under a law

The value of an expression obeys a law if its operands do, and the calls that it makes (`evaluate`).

* `Expr.children`, `Expr.functions`, `Expr.reads` : the operands of an expression, the functions
  that it makes, and the names that it looks up.
* `Expr.Covered` : what has to be known of them.
* `Evaluation.readProperty_knows`, `Evaluation.writeProperty_tame` : members of any value.
* `Evaluation.valueOf_obeys` : every expression.
-/

namespace ScriptEngine

open Run

/-- The expression in a piece of a template. -/
def Part.expr? : Part → Option Expr
  | .literal _ => none
  | .embedded e => some e

namespace Expr

/-- The operands of an expression. -/
def children : Expr → List Expr
  | number .. | float .. | string .. | bool .. | null .. | var .. | this .. | lambda .. => []
  | binary left _ right _ | logical left _ right _ => [left, right]
  | unary _ operand _ => [operand]
  | call callee args _ => callee :: args
  | get object _ _ => [object]
  | set object _ _ value _ => [object, value]
  | index object key _ => [object, key]
  | indexSet object key _ value _ => [object, key, value]
  | list elements _ => elements
  | map entries _ => entries.map (·.2)
  | template parts _ => parts.filterMap Part.expr?

/-- The functions that an expression makes itself. -/
def functions : Expr → List FunctionDecl
  | lambda decl _ => [decl]
  | _ => []

/-- The names that an expression looks up itself. -/
def reads : Expr → List String
  | var name _ => [name]
  | this _ => ["this"]
  | _ => []

/-- The parts of an expression obey the law, and it makes such functions and reads such names as the
law allows. -/
structure Covered (L : Law) (p : L.Place) (h : Heap) (again : Calls) (again' : L.Case → Calls)
    (e : Expr) :
    Prop where
  children : ∀ e' ∈ e.children, Evaluates L p h again again' e'
  functions : ∀ decl ∈ e.functions, L.function decl
  reads : ∀ name ∈ e.reads, L.readable name

end Expr

namespace Evaluation

variable {L : Law} {p : L.Place} {h : Heap} {again : Calls} {again' : L.Case → Calls}

/-! ## Members -/

section Served

variable (hs : Calls.Serves L p again again')
include hs

theorem readProperty_knows (strict : Bool) (v : Value) (name : String) :
    (readProperty again strict v name).Obeys L p h L.Known
      fun i => readProperty (again' i) strict v name := by
  have missing {h} := missing_knows (L := L) (p := p) (h := h) strict name
  cases v with
  | object id =>
    refine .andThen (sourceOf_obeys id name) fun h₁ source _ hsource => ?_
    cases source with
    | value v => exact .known hsource
    | getter v => exact constantGetter_knows name hsource
    | missing => exact missing
  | string s =>
    unfold readProperty
    simp only
    split
    · exact .common trivial
    · exact missing
  | list id =>
    unfold readProperty
    simp only
    split
    · exact .reading rfl fun _ => .common trivial
    · exact missing
  | host id => exact Host.getProperty_knows hs id name
  | hostClass id => exact Host.getStatic_knows id name
  | _ => exact .raise rfl

theorem writeProperty_tame (v : Value) (name : String) {value : Value} (hv : L.Known h value) :
    (writeProperty again v name value).Obeys L p h (fun _ _ => True)
      fun i => writeProperty (again' i) v name value := by
  cases v with
  | object id => exact setField_tame id name hv
  | host id => exact Host.setProperty_tame hs id name hv
  | _ => exact .raise rfl

end Served

/-! ## Expressions -/

theorem assignedValue_knows {op : AssignOp} {current : Script Value}
    {current' : L.Case → Script Value} {value : Expr}
    (hc : current.Obeys L p h (fun _ _ => True) current')
    (he : Evaluates L p h again again' value) :
    (assignedValue again op current value).Obeys L p h L.Known
      fun i => assignedValue (again' i) op (current' i) value := by
  unfold assignedValue
  split
  · exact he
  · exact .bind hc fun old => .bind he.tame fun v => Operators.binary_knows _ _ _

theorem logical_knows {left right : Expr} (op : LogicalOp) (hl : Evaluates L p h again again' left)
    (hr : Evaluates L p h again again' right) :
    (logical again left op right).Obeys L p h L.Known
      fun i => logical (again' i) left op right := by
  refine .andThen hl fun h₁ v hl₁ hv => .andThen (.read rfl) fun h₂ truthy hl₂ _ => ?_
  have hv := L.known_later hl₂ hv
  have hr := hr.later (L.later_trans hl₁ hl₂)
  cases op with
  | or =>
    cases truthy with
    | true => exact .known hv
    | false => exact hr
  | and =>
    cases truthy with
    | true => exact hr
    | false => exact .known hv

theorem partText_tame {part : Part} (he : ∀ e ∈ part.expr?, Evaluates L p h again again' e) :
    (partText again part).Obeys L p h (fun _ _ => True) fun i => partText (again' i) part := by
  cases part with
  | literal text => exact .done _
  | embedded e => exact .bind (he e rfl).tame fun v => .read rfl

theorem entry_obeys {e : String × Expr} (he : Evaluates L p h again again' e.2) :
    (entry again e).Obeys L p h (fun h' field => L.Known h' field.2) fun i => entry (again' i) e :=
  .andThen he fun _ _ _ hv => .value fun _ hl => L.known_later hl hv

theorem values_obey {es : List Expr} (he : ∀ e ∈ es, Evaluates L p h again again' e) :
    (Run.collect again.evaluate es).Obeys L p h (fun h' vs => ∀ v ∈ vs, L.Known h' v)
      fun i => Run.collect (again' i).evaluate es :=
  .collect (Q := L.Known) (fun hl => L.known_later hl) es he

/-- **Every expression** obeys the law if its operands do, and what it may call. -/
theorem valueOf_obeys (hs : Calls.Serves L p again again')
    (hcall : ∀ {h callee} {args : List Value}, L.Known h callee → (∀ v ∈ args, L.Known h v) →
      (again.call callee args).Obeys L p h L.Known fun i => (again' i).call callee args)
    {e : Expr} (hc : e.Covered L p h again again') :
    (valueOf again e).Obeys L p h L.Known fun i => valueOf (again' i) e := by
  obtain ⟨he, hd, hr⟩ := hc
  cases e with
  | number | float | string | bool | null => exact .common trivial
  | var name => exact .reading rfl fun _ => Script.get_knows _ (hr name List.mem_cons_self)
  | this => exact receiver_knows (hr "this" List.mem_cons_self)
  | binary left op right =>
    have hleft := he left (by simp [Expr.children])
    have hright := he right (by simp [Expr.children])
    exact .bind hleft.tame fun a => .bind hright.tame fun b => Operators.binary_knows _ _ _
  | logical left op right =>
    exact logical_knows op (he left (by simp [Expr.children])) (he right (by simp [Expr.children]))
  | unary op operand =>
    exact .bind (he operand (by simp [Expr.children])).tame fun v => Operators.unary_knows _ _
  | call callee args =>
    have hargs := fun e' h' => he e' (List.mem_cons_of_mem callee h')
    refine .andThen (he callee List.mem_cons_self) fun h₁ v hl₁ hv => ?_
    refine .andThen ((values_obey hargs).later hl₁) fun h₂ vs hl₂ hvs => ?_
    exact hcall (L.known_later hl₂ hv) hvs
  | lambda decl =>
    exact .bind (closure_obeys (hd decl List.mem_cons_self)).tame fun _ => .common trivial
  | get object name =>
    exact .bind (he object (by simp [Expr.children])).tame fun v => readProperty_knows hs _ _ _
  | set object name op value =>
    have hvalue := he value (by simp [Expr.children])
    refine .bind (he object (by simp [Expr.children])).tame fun target => ?_
    refine .andThen (assignedValue_knows (readProperty_knows hs true target name).tame hvalue)
      fun h₁ v _ hv => ?_
    exact .andThen (writeProperty_tame hs target name hv) fun _ _ hl _ =>
      .known (L.known_later hl hv)
  | index object key =>
    have hkey := he key (by simp [Expr.children])
    exact .bind (he object (by simp [Expr.children])).tame fun v =>
      .bind hkey.tame fun k => Operators.readIndex_knows _ _ _
  | indexSet object key op value =>
    have hkey := he key (by simp [Expr.children])
    have hvalue := he value (by simp [Expr.children])
    refine .bind (he object (by simp [Expr.children])).tame fun target => .bind hkey.tame fun k =>
      ?_
    refine .andThen (assignedValue_knows (Operators.readIndex_knows true target k).tame hvalue)
      fun h₁ v _ hv => ?_
    exact .andThen (writeIndex_tame target k hv) fun _ _ hl _ => .known (L.known_later hl hv)
  | list elements =>
    exact .andThen (values_obey he) fun _ vs _ hvs =>
      Script.newList_knows fun v hv => hvs v (List.mem_toArray.mp hv)
  | map entries =>
    refine .andThen
      (.collect (Q := fun h' field => L.Known h' field.2) (fun hl => L.known_later hl) entries ?_)
      fun h' fields _ hfields =>
        Script.newObject_knows (Fields.forall_ofPairs (P := L.Known h') hfields)
    exact fun entry hentry => entry_obeys (he entry.2 (List.mem_map_of_mem hentry))
  | template parts =>
    refine .bind (Obeys.collect (Q := fun _ _ => True) (fun _ _ => trivial) parts ?_).tame
      fun texts => .common trivial
    exact fun part hpart => partText_tame fun e' h' =>
      he e' (List.mem_filterMap.mpr ⟨part, hpart, h'⟩)

end Evaluation

end ScriptEngine
