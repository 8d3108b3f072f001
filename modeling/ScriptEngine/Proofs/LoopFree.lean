import ScriptEngine.Proofs.Walk.Statements
/-!
# Programs without loops

A program is free of loops if there is no loop with a test in it, at any depth, the functions and
static blocks in it included. Loops over items may be there.

* `Expr.loopFree`, `Stmt.loopFree` : the check.
* `Stmt.loopFree_iff`, `Expr.loopFree_iff` : it holds of a node if it holds of the parts.
* `Stmt.sizeOf_lt_of_mem_inner`, … : the parts are smaller than the node.
-/

namespace ScriptEngine

/-! ## Sizes -/

theorem FunctionDecl.sizeOf_lt_of_mem_body {d : FunctionDecl} {s : Stmt} (h : s ∈ d.body) :
    sizeOf s < sizeOf d := by
  cases d with
  | mk name params body span =>
    have := List.sizeOf_lt_of_mem h
    simp only [FunctionDecl.body, FunctionDecl.mk.sizeOf_spec] at *
    omega

theorem Part.sizeOf_lt_of_mem_expr {p : Part} {e : Expr} (h : e ∈ p.expr?) :
    sizeOf e < sizeOf p := by
  cases p with
  | literal => cases h
  | embedded e' => cases h; simp

theorem SwitchCase.sizeOf_lt_of_mem_body {k : SwitchCase} {s : Stmt} (h : s ∈ k.body) :
    sizeOf s < sizeOf k := by
  cases k with
  | mk values body span =>
    have := List.sizeOf_lt_of_mem h
    simp only [SwitchCase.body, SwitchCase.mk.sizeOf_spec] at *
    omega

theorem SwitchCase.sizeOf_lt_of_mem_values {k : SwitchCase} {e : Expr}
    (h : e ∈ k.values.getD []) : sizeOf e < sizeOf k := by
  cases k with
  | mk values body span =>
    cases values with
    | none => cases h
    | some values =>
      have := List.sizeOf_lt_of_mem (show e ∈ values from h)
      simp only [SwitchCase.mk.sizeOf_spec, Option.some.sizeOf_spec]
      omega

namespace Expr

theorem sizeOf_lt_of_mem_children {e e' : Expr} (h : e' ∈ e.children) : sizeOf e' < sizeOf e := by
  cases e with
  | number | float | string | bool | null | var | this | lambda => cases h
  | binary | logical | unary | get | set | index | indexSet =>
    simp only [children, List.mem_cons, List.not_mem_nil, or_false] at h
    rcases h with rfl | rfl | rfl <;> simp <;> omega
  | call callee args =>
    rcases List.mem_cons.mp h with rfl | h
    · simp; omega
    · have := List.sizeOf_lt_of_mem h
      simp; omega
  | list elements =>
    have := List.sizeOf_lt_of_mem (show e' ∈ elements from h)
    simp; omega
  | map entries =>
    obtain ⟨⟨name, value⟩, hentry, rfl⟩ := List.mem_map.mp h
    have := List.sizeOf_lt_of_mem hentry
    simp at *; omega
  | template parts =>
    obtain ⟨p, hp, he⟩ := List.mem_filterMap.mp h
    have := List.sizeOf_lt_of_mem hp
    have := Part.sizeOf_lt_of_mem_expr he
    simp; omega

theorem sizeOf_lt_of_mem_functions {e : Expr} {d : FunctionDecl} (h : d ∈ e.functions) :
    sizeOf d < sizeOf e := by
  cases e with
  | lambda decl =>
    obtain rfl := List.mem_singleton.mp h
    simp; omega
  | _ => cases h

end Expr

namespace Stmt

theorem sizeOf_lt_of_mem_exprs {s : Stmt} {e : Expr} (h : e ∈ s.exprs) : sizeOf e < sizeOf s := by
  cases s with
  | expr e' =>
    obtain rfl := List.mem_singleton.mp h
    simp
  | binding name initial =>
    obtain rfl := Option.mem_toList.mp h
    simp; omega
  | ret value =>
    obtain rfl := Option.mem_toList.mp h
    simp; omega
  | assign | cond | loop | forIn =>
    obtain rfl := List.mem_singleton.mp h
    simp; omega
  | switch subject clauses =>
    rcases List.mem_cons.mp h with rfl | h
    · simp; omega
    · obtain ⟨k, hk, he⟩ := List.mem_flatMap.mp h
      have := List.sizeOf_lt_of_mem hk
      have := SwitchCase.sizeOf_lt_of_mem_values he
      simp; omega
  | _ => cases h

theorem sizeOf_lt_of_mem_inner {s s' : Stmt} (h : s' ∈ s.inner) : sizeOf s' < sizeOf s := by
  cases s with
  | block body =>
    have := List.sizeOf_lt_of_mem (show s' ∈ body from h)
    simp; omega
  | cond test thenBranch elseBranch =>
    rcases List.mem_cons.mp h with rfl | h
    · simp; omega
    · obtain rfl := Option.mem_toList.mp h
      simp; omega
  | loop | forIn =>
    obtain rfl := List.mem_singleton.mp h
    simp; omega
  | switch subject clauses =>
    obtain ⟨k, hk, hs⟩ := List.mem_flatMap.mp h
    have := List.sizeOf_lt_of_mem hk
    have := SwitchCase.sizeOf_lt_of_mem_body hs
    simp; omega
  | attempt body handler cleanup =>
    simp only [inner, List.mem_append] at h
    rcases h with (h | h) | h
    · have := List.sizeOf_lt_of_mem h
      simp; omega
    · cases handler with
      | none => cases h
      | some handler =>
        obtain ⟨name, handler⟩ := handler
        have := List.sizeOf_lt_of_mem (show s' ∈ handler from h)
        simp; omega
    · cases cleanup with
      | none => cases h
      | some cleanup =>
        have := List.sizeOf_lt_of_mem (show s' ∈ cleanup from h)
        simp; omega
  | _ => cases h

theorem sizeOf_lt_of_mem_functions {s : Stmt} {d : FunctionDecl} (h : d ∈ s.functions) :
    sizeOf d < sizeOf s := by
  cases s with
  | function decl =>
    obtain rfl := List.mem_singleton.mp h
    simp
  | classDecl decl =>
    obtain ⟨name, superclass, methods, block, span⟩ := decl
    have := List.sizeOf_lt_of_mem (show d ∈ methods from h)
    simp; omega
  | _ => cases h

theorem sizeOf_lt_of_mem_staticBlocks {s : Stmt} {block : List Stmt} (h : block ∈ s.staticBlocks) :
    sizeOf block < sizeOf s := by
  cases s with
  | classDecl decl =>
    obtain ⟨name, superclass, methods, block', span⟩ := decl
    obtain rfl := Option.mem_toList.mp (show block ∈ block'.toList from h)
    simp; omega
  | _ => cases h

end Stmt

/-! ## The check -/

mutual

/-- Whether there is no loop with a test in an expression. -/
def Expr.loopFree (e : Expr) : Bool :=
  (e.children.attach.all fun ⟨e', _⟩ => e'.loopFree) &&
    e.functions.attach.all fun ⟨d, _⟩ => d.body.attach.all fun ⟨s, _⟩ => s.loopFree
termination_by sizeOf e
decreasing_by
  · exact Expr.sizeOf_lt_of_mem_children ‹_›
  · exact Nat.lt_trans (FunctionDecl.sizeOf_lt_of_mem_body ‹_›)
      (Expr.sizeOf_lt_of_mem_functions ‹_›)

/-- Whether there is no loop with a test in a statement. -/
def Stmt.loopFree (s : Stmt) : Bool :=
  !s.isLoop && (s.exprs.attach.all fun ⟨e, _⟩ => e.loopFree) &&
    (s.inner.attach.all fun ⟨s', _⟩ => s'.loopFree) &&
    (s.functions.attach.all fun ⟨d, _⟩ => d.body.attach.all fun ⟨s', _⟩ => s'.loopFree) &&
    s.staticBlocks.attach.all fun ⟨block, _⟩ => block.attach.all fun ⟨s', _⟩ => s'.loopFree
termination_by sizeOf s
decreasing_by
  · exact Stmt.sizeOf_lt_of_mem_exprs ‹_›
  · exact Stmt.sizeOf_lt_of_mem_inner ‹_›
  · exact Nat.lt_trans (FunctionDecl.sizeOf_lt_of_mem_body ‹_›)
      (Stmt.sizeOf_lt_of_mem_functions ‹_›)
  · exact Nat.lt_trans (List.sizeOf_lt_of_mem ‹_›) (Stmt.sizeOf_lt_of_mem_staticBlocks ‹_›)

end

theorem Expr.loopFree_iff (e : Expr) : e.loopFree ↔
    (∀ e' ∈ e.children, e'.loopFree) ∧ ∀ d ∈ e.functions, ∀ s ∈ d.body, s.loopFree := by
  rw [Expr.loopFree]
  simp

theorem Stmt.loopFree_iff (s : Stmt) : s.loopFree ↔
    s.isLoop = false ∧ (∀ e ∈ s.exprs, e.loopFree) ∧ (∀ s' ∈ s.inner, s'.loopFree) ∧
      (∀ d ∈ s.functions, ∀ s' ∈ d.body, s'.loopFree) ∧
      ∀ block ∈ s.staticBlocks, ∀ s' ∈ block, s'.loopFree := by
  rw [Stmt.loopFree]
  simp [and_assoc]

theorem Stmt.loopFree_expr {e : Expr} (h : e.loopFree) : (Stmt.expr e).loopFree :=
  (Stmt.loopFree_iff _).mpr
    ⟨rfl, fun e' he => by obtain rfl := List.mem_singleton.mp he; exact h, nofun, nofun, nofun⟩

end ScriptEngine
