import ScriptEngine.Proofs.Anchors
import ScriptEngine.Proofs.ParsedShapes
/-!
# Trees stand where their tokens do

Each production moves forward over its tokens and gives a tree between the place it begins at and
the place it arrives at. So the spans of a tree go from token to token, an operator spans both its
operands, and a mistake is blamed on a token or on a span between tokens.

* `Parser.Productions.Anchoring` : productions that do so.
* `Parser.lands_trailers`, `Parser.joins_operatorIn` : the nodes that go on to what stands behind an
  operand.
* `Parser.productions_anchoring` : the productions of every budget.
* **`Parser.anchored_of_readProgram`** : every span and every fault of a whole text.

The spans are those that the productions take from the tokens (`declaration_inner`, `statement`,
`expression`, `finish_call`, …). Code in templates is out of scope: it is tokenized by itself
(`parse_embedded`), so its spans are places in that code, and only what is wrong with it is blamed
on the template.
-/

namespace ScriptEngine

namespace Parser

open Token (Anchors InOrder)

variable {tokens : List Token} {s : State} {m : Nat} {span : Span}

/-- Productions that move forward and give anchored trees and faults, over the tokens of any
text. -/
structure Productions.Anchoring (again : Productions) : Prop where
  expression {tokens : List Token} (s : State) :
      Lands tokens s again.expression (Expr.Between tokens s.here)
  unary {tokens : List Token} (s : State) : Lands tokens s again.unary (Expr.Between tokens s.here)
  statement {tokens : List Token} (s : State) :
      Lands tokens s again.statement fun _ stmt => stmt.Anchored tokens
  declaration {tokens : List Token} (s : State) :
    Lands tokens s again.declaration fun _ o => ∀ stmt ∈ o, stmt.Anchored tokens

/-- A function whose statements are anchored, declared at the span. -/
def FunctionAnchored (tokens : List Token) (span : Span) (d : FunctionDecl) : Prop :=
  d.span = span ∧ ∀ s ∈ d.body, s.Anchored tokens

section Parts

variable {again : Productions} (h : again.Anchoring) (n : Nat)

/-! ### Blocks and functions -/

include h in
theorem lands_sequence (stops : Kind → Bool) (s : State) :
    Lands tokens s (sequence again n stops) fun _ body => ∀ s ∈ body, s.Anchored tokens := by
  refine lands_gather ?_ n s
  intro s
  refine .peek fun _ => .ite (.pure nofun) ((Lands.accept _).andThen ?_)
  intro t _ _
  refine .ite (.pure ?_) ((h.declaration t).andThen ?_)
  · rintro _ ⟨⟩
    exact nofun
  · intro u o ho
    refine .pure ?_
    rintro _ ⟨⟩ stmt hstmt
    exact ho stmt (Option.mem_toList.mp hstmt)

include h in
theorem lands_block (s : State) :
    Lands tokens s (block again n) fun _ body => ∀ s ∈ body, s.Anchored tokens := by
  refine (lands_sequence h n _ _).nested.andThen ?_
  intro _ body hbody
  exact .pass _ _ fun _ _ _ => .pure hbody

include h in
theorem lands_functionRest (name : Option String) (span : Span) (s : State) :
    Lands tokens s (functionRest again n name span) fun _ d => FunctionAnchored tokens span d := by
  have params (s : State) : Lands tokens s
      (separated "parameters" (expectName "expected parameter name") maxArguments)
      fun _ _ => True :=
    (lands_separated (I := fun _ _ _ => True) _ ⟨fun _ _ _ => trivial⟩
      (fun _ => .expectName _) _ s).imp fun _ _ _ => trivial
  refine .pass _ _ fun _ _ _ => (Lands.check _).andThen ?_
  intro t _ _
  refine .ite_bind (.pure trivial) (params t) ?_
  intro _ names _ _ _
  refine .pass _ _ fun _ _ _ => .ite_bind (.accept _) (.pure trivial) ?_
  intro u short _ _ _
  refine .ite ((h.expression u).andThen ?_) (.pass _ _ ?_)
  · -- a short body returns the value of its expression
    intro _ value hvalue
    have hreturn : (Stmt.ret (some value) value.span).Anchored tokens :=
      Stmt.anchored_of_parts rfl rfl rfl hvalue.anchored.anchors
        (List.forall_mem_singleton.mpr hvalue.anchored)
        nofun
    exact .pure ⟨rfl, List.forall_mem_singleton.mpr hreturn⟩
  · intro v _ _
    refine (lands_block h n v).andThen ?_
    intro _ body hbody
    exact .pure ⟨rfl, hbody⟩

/-! ### Expressions -/

include h in
/-- The code in a template is read from tokens of its own, and what is wrong with it is blamed on
the template. -/
theorem lands_embedded (code : String) (hspan : Anchors tokens span) :
    Lands tokens s (embedded again code span) fun _ e => e.AnchoredInside := by
  intro hs
  have hbad (cause : Cause) :
      Reply.Lands tokens s.here (fun _ e => Expr.AnchoredInside e)
        (.error (.placed cause span) s) :=
    ⟨hs, Nat.le_refl _, Fault.anchored_placed _ hspan⟩
  unfold embedded
  simp only
  split
  · exact hbad _
  · next inner hinner =>
    -- the same productions, but over the tokens of the code
    have hread := h.expression _ (within_ofTokens hinner)
    cases hr : again.expression (.ofTokens inner) with
    | ok e t =>
      rw [hr] at hread
      simp only
      split
      · exact hbad _
      · split
        · exact hbad _
        · exact ⟨hs, Nat.le_refl _, hinner, hread.2.2.anchored⟩
    | error f t => exact hbad _
    | exhausted => trivial

include h in
theorem lands_templateParts (hspan : Anchors tokens span) (pieces : List Template.Piece)
    (s : State) :
    Lands tokens s (templateParts again span pieces) fun _ parts =>
      ∀ p ∈ parts, ∀ e ∈ p.expr?, e.AnchoredInside := by
  induction pieces generalizing s with
  | nil => exact .nil
  | cons piece pieces ih =>
    cases piece with
    | text cs =>
      refine (ih s).andThen ?_
      intro _ parts hparts
      exact .pure (List.forall_mem_cons.mpr ⟨nofun, hparts⟩)
    | unmatched => exact .failAt _ hspan
    | code cs =>
      refine .ite (.failAt _ hspan) ((lands_embedded h _ hspan).andThen ?_)
      intro t e he
      refine (ih t).andThen ?_
      intro _ parts hparts
      refine .pure (List.forall_mem_cons.mpr ⟨?_, hparts⟩)
      rintro _ ⟨⟩
      exact he

include h in
theorem lands_listLiteral (hspan : span.Between tokens m s.here) :
    Lands tokens s (listLiteral again n span) (Expr.Between tokens m) := by
  refine .bind (.check _) ?_
  intro t _ _ hle _
  refine .ite_bind .nil (lands_trailing _ widens_between h.expression n t) ?_
  intro u elements hu hle' helements
  refine (Lands.expect _ _).andThen ?_
  intro v close hclose
  have hspan := hspan.mono (Nat.le_refl m) hle
  refine .pure (.of_children rfl rfl rfl rfl (hspan.upTo hclose hu.inOrder hle') ?_)
  intro e he
  exact (helements e he).inside hspan hclose hu.inOrder

include h in
theorem lands_mapEntry (s : State) :
    Lands tokens s (mapEntry again) fun n entry => entry.2.Between tokens s.here n := by
  have rest (t : State) (hle : s.here ≤ t.here) (key : String) : Lands tokens t (do
      let _ ← take
      let _ ← expectMark .colon "expected ':' after map key"
      return (key, ← again.expression)) fun n entry => entry.2.Between tokens s.here n := by
    refine .taking ?_
    intro _ hle' _
    refine .pass _ _ ?_
    intro u _ hle''
    refine (h.expression u).andThen ?_
    intro v e he
    exact .pure (he.mono ((hle.trans hle').trans hle'') (Nat.le_refl _))
  refine .peek fun _ => ?_
  split
  · exact .bind (.pure (P := fun _ _ => True) trivial) fun t key _ hle _ => rest t hle key
  · exact .bind (.pure (P := fun _ _ => True) trivial) fun t key _ hle _ => rest t hle key
  · exact .bind (.unexpected (P := fun _ _ => True) _) fun t key _ hle _ => rest t hle key

include h in
theorem lands_mapLiteral (hspan : span.Between tokens m s.here) :
    Lands tokens s (mapLiteral again n span) (Expr.Between tokens m) := by
  have hwidens : Widens fun m n (entry : String × Expr) => entry.2.Between tokens m n :=
    ⟨fun hm hn h => h.mono hm hn⟩
  refine .bind (.check _) ?_
  intro t _ _ hle _
  refine .ite_bind .nil (lands_trailing _ hwidens (lands_mapEntry h) n t) ?_
  intro u entries hu hle' hentries
  refine (Lands.expect _ _).andThen ?_
  intro v close hclose
  have hspan := hspan.mono (Nat.le_refl m) hle
  refine .pure (.of_children rfl rfl rfl rfl (hspan.upTo hclose hu.inOrder hle') ?_)
  intro e he
  obtain ⟨entry, hentry, rfl⟩ := List.mem_map.mp he
  exact (hentries entry hentry).inside hspan hclose hu.inOrder

include h in
theorem lands_primary (s : State) :
    Lands tokens s (primary again n) (Expr.Between tokens s.here) := by
  have leaf {e : Expr} (hspan : e.span = s.next.span) (hspans : e.spans = [e.span])
      (ho : e.operands = []) (hf : e.functions = []) (hspanning : e.isSpanning = false)
      (hembedded : e.embedded = []) :
      Lands tokens s (do let _ ← take; return e) (Expr.Between tokens s.here) := by
    refine .taking ?_
    intro t _ hbetween
    have he : e.Anchored tokens := Expr.anchored_of_operands hspans hf hspanning
      (hspan ▸ hbetween.anchors)
      (by rw [ho]; exact nofun) (by rw [hembedded]; exact nofun)
    exact .pure (.of_anchored he (hspan ▸ hbetween))
  refine .peek fun hnext => ?_
  simp only
  split
  case h_9 body _ =>
    refine .taking ?_
    intro t _ hbetween
    refine (lands_templateParts h hnext _ t).bind ?_
    intro u parts _ hle hparts
    refine .pure (.of_anchored (Expr.anchored_of_operands rfl rfl rfl hnext nofun ?_)
      (hbetween.mono (Nat.le_refl _) hle))
    intro e he
    obtain ⟨p, hp, hpe⟩ := List.mem_filterMap.mp he
    exact hparts p hp e hpe
  case h_10 =>
    refine .taking ?_
    intro t _ hbetween
    refine (lands_functionRest h n _ _ t).bind ?_
    rintro u d _ hle ⟨hspan, hbody⟩
    have hspans : ∀ span ∈ (Expr.lambda d s.next.span).spans, Anchors tokens span :=
      List.forall_mem_cons.mpr ⟨hnext, List.forall_mem_singleton.mpr (hspan ▸ hnext)⟩
    exact .pure (.of_anchored ⟨hspans, nofun, nofun, nofun, List.forall_mem_singleton.mpr hbody⟩
      (hbetween.mono (Nat.le_refl _) hle))
  case h_11 =>
    refine .taking ?_
    intro t hle _
    refine (h.expression t).andThen ?_
    intro u e he
    refine .pass _ _ ?_
    intro v _ hle'
    exact .pure (he.mono hle hle')
  case h_12 =>
    exact .taking fun t _ hbetween => lands_listLiteral h n hbetween
  case h_13 =>
    exact .taking fun t _ hbetween => lands_mapLiteral h n hbetween
  case h_14 => exact .failAt _ hnext
  all_goals exact leaf rfl rfl rfl rfl rfl rfl

include h in
theorem lands_callRest {callee : Expr} (hcallee : callee.Between tokens m s.here) :
    Lands tokens s (callRest again callee) (Expr.Between tokens m) := by
  refine .bind (.check _) ?_
  intro t _ _ hle _
  refine .ite_bind .nil (lands_separated _ widens_between h.expression _ t) ?_
  intro u args hu hle' hargs
  refine (Lands.expect _ _).andThen ?_
  intro v close hclose
  have hspan := hcallee.toSpan.mono (Nat.le_refl m) hle
  refine .pure (.of_children rfl rfl rfl rfl (hspan.upTo hclose hu.inOrder hle') ?_)
  refine List.forall_mem_cons.mpr ⟨hcallee.first _, ?_⟩
  intro e he
  exact (hargs e he).inside hspan hclose hu.inOrder

include h in
theorem lands_trailers {e : Expr} (s : State) (he : e.Between tokens m s.here) :
    Lands tokens s (trailers again n e) (Expr.Between tokens m) := by
  induction n generalizing e s with
  | zero => exact .exhausted
  | succ n ih =>
    -- each trailer gives a longer operand that still begins where `e` does
    refine .state (.ite ?_ (.ite ?_ (.ite ?_ (.pure he))))
    · -- a call
      refine .taking ?_
      intro t hle _
      refine (lands_callRest h (he.mono (Nat.le_refl m) hle)).andThen ?_
      intro u call hcall
      exact ih u hcall
    · -- an index
      refine .taking ?_
      intro t hle _
      refine (h.expression t).bind ?_
      intro u key hu hle' hkey
      refine (Lands.expect _ _).andThen ?_
      intro v close hclose
      have hspan := he.toSpan.mono (Nat.le_refl m) hle
      have hinside := hkey.inside hspan hclose hu.inOrder
      exact ih v (.of_children rfl rfl rfl rfl (hspan.upTo hclose hu.inOrder hle')
        (List.forall_mem_cons.mpr ⟨he.first _, List.forall_mem_singleton.mpr hinside⟩))
    · -- a property
      refine .bind .take ?_
      intro t _ ht hle _
      refine .name _ ?_
      intro u name _ _ hname
      have hspan := he.toSpan.upTo hname ht.inOrder hle
      exact .state (ih u (.of_children rfl rfl rfl rfl hspan
        (List.forall_mem_singleton.mpr (he.first _))))

include h in
theorem lands_unary (s : State) : Lands tokens s (unary again n) (Expr.Between tokens s.here) := by
  refine .peek fun _ => ?_
  simp only
  split
  · refine .taking ?_
    intro t _ hbetween
    refine (h.unary t).bind ?_
    intro u e _ hle he
    exact .pure (.of_anchored (Expr.anchored_of_operands rfl rfl rfl hbetween.anchors
      (List.forall_mem_singleton.mpr he.anchored) nofun) (hbetween.mono (Nat.le_refl _) hle))
  · refine (lands_primary h n s).andThen ?_
    intro t e he
    exact lands_trailers h n t he

/-- An operator spans both its operands. -/
theorem joins_operatorIn {operators : List (Symbol × (Expr → Expr → Expr))}
    (hlevel : operators ∈ levels) (horder : InOrder tokens) {k : Kind}
    {combine : Expr → Expr → Expr} (hk : operatorIn operators k = some combine) :
    Joins tokens combine := by
  constructor
  intro m n k l a b ha hb hle
  have hspan := ha.toSpan.upTo hb.toSpan horder hle
  -- the left operand begins the span and the right one ends it
  have hlast : b.Between tokens (a.span.upTo b.span).start (a.span.upTo b.span).stop :=
    ⟨hb.anchored, (ha.toSpan.forward horder).trans (hle.trans hb.start), Span.stop_le_upTo_right ..⟩
  have hboth : ∀ e ∈ [a, b], e.Between tokens (a.span.upTo b.span).start
      (a.span.upTo b.span).stop :=
    List.forall_mem_cons.mpr ⟨ha.first _, List.forall_mem_singleton.mpr hlast⟩
  rcases tree_of_operatorIn hlevel hk with ⟨op, rfl⟩ | ⟨op, rfl⟩
  · exact .of_children rfl rfl rfl rfl hspan hboth
  · exact .of_children rfl rfl rfl rfl hspan hboth

theorem lands_levels {operand : Parser Expr}
    (hoperand : ∀ s, Lands tokens s operand (Expr.Between tokens s.here)) :
    ∀ ls : List (List (Symbol × (Expr → Expr → Expr))), ls ⊆ levels → ∀ s,
      Lands tokens s (ls.foldl (fun operand operators => chain (operatorIn operators) operand n)
        operand)
        (Expr.Between tokens s.here)
  | [], _, s => hoperand s
  | operators :: ls, hsub, s => by
    have hlevel : operators ∈ levels := hsub List.mem_cons_self
    have hchain (s : State) : Lands tokens s (chain (operatorIn operators) operand n)
        (Expr.Between tokens s.here) :=
      (hoperand s).andThen fun t _ hleft =>
        lands_chainFrom hoperand (fun horder _ _ hk => joins_operatorIn hlevel horder hk) n t hleft
    exact lands_levels hchain ls (fun _ hmem => hsub (List.mem_cons_of_mem _ hmem)) s

include h in
theorem lands_expression (s : State) :
    Lands tokens s (expression again n) (Expr.Between tokens s.here) :=
  lands_levels n (lands_unary h n) levels (List.Subset.refl _) s

/-! ### Declarations -/

theorem lands_endStatement (wanted : String) (s : State) :
    Lands tokens s (endStatement wanted) fun _ _ => True := by
  refine (Lands.accept _).andThen ?_
  intro _ _ _
  refine .ite (.pure trivial) (.state ?_)
  simp only
  exact .ite (.pure trivial) (.unexpected _)

/-- A statement that comes to its end. -/
theorem lands_ended {stmt : Stmt} (wanted : String) (hstmt : stmt.Anchored tokens) (s : State) :
    Lands tokens s (do endStatement wanted; return stmt) fun _ stmt => stmt.Anchored tokens :=
  (lands_endStatement _ s).andThen fun _ _ _ => .pure hstmt

include h in
theorem lands_binding (constant : Bool) (s : State) :
    Lands tokens s (binding again constant) fun _ stmt => stmt.Anchored tokens := by
  refine .taking ?_
  intro _ _ hword
  refine (Lands.expectName _).andThen ?_
  intro _ name _
  refine (Lands.accept _).andThen ?_
  intro t _ _
  refine .ite_bind (h.expression t).some .none ?_
  intro u initial _ _ hinitial
  refine lands_ended _ ?_ u
  refine Stmt.anchored_of_parts rfl rfl rfl hword.anchors ?_ nofun
  intro e he
  exact (hinitial e (Option.mem_toList.mp he)).anchored

include h in
theorem lands_functionDeclaration (s : State) :
    Lands tokens s (functionDeclaration again n) fun _ stmt => stmt.Anchored tokens := by
  refine .taking ?_
  intro _ _ hword
  refine (Lands.expectName _).andThen ?_
  intro t name _
  refine (lands_functionRest h n _ _ t).andThen ?_
  rintro _ d ⟨hspan, hbody⟩
  have hspans : Anchors tokens d.span := hspan.symm ▸ hword.anchors
  exact .pure ⟨List.forall_mem_singleton.mpr hspans, nofun, nofun, List.forall_mem_singleton.mpr
    hbody, nofun⟩

include h in
theorem lands_members (m : Nat) {static : Option (List Stmt)}
    (hstatic : ∀ block ∈ static, ∀ s ∈ block, s.Anchored tokens) (s : State) :
    Lands tokens s (members again n m static) fun _ found =>
      (∀ d ∈ found.1, Anchors tokens d.span ∧ ∀ s ∈ d.body, s.Anchored tokens) ∧
        ∀ block ∈ found.2, ∀ s ∈ block, s.Anchored tokens := by
  induction m generalizing static s with
  | zero => exact .exhausted
  | succ m ih =>
    refine .peek fun hnext => ?_
    split
    · exact .pure ⟨nofun, hstatic⟩
    · exact .pure ⟨nofun, hstatic⟩
    · exact .taking fun t _ _ => ih hstatic t
    · -- a method
      refine .taking ?_
      intro _ _ hword
      refine (Lands.expectName _).andThen ?_
      intro t name _
      refine (lands_functionRest h n _ _ t).andThen ?_
      rintro u d ⟨hspan, hbody⟩
      refine (ih hstatic u).andThen ?_
      rintro _ found ⟨hmethods, hblock⟩
      have hspans : Anchors tokens d.span := hspan.symm ▸ hword.anchors
      exact .pure ⟨List.forall_mem_cons.mpr ⟨⟨hspans, hbody⟩, hmethods⟩, hblock⟩
    · -- the static block
      refine .ite (.taking fun _ _ _ => .pass _ _ ?_) (.failAt _ hnext)
      intro t _ _
      refine (lands_block h n t).andThen ?_
      intro u body hbody
      refine ih ?_ u
      rintro block ⟨⟩
      exact hbody
    · exact .failAt _ hnext

include h in
theorem lands_classDeclaration (s : State) :
    Lands tokens s (classDeclaration again n) fun _ stmt => stmt.Anchored tokens := by
  have hnone : ∀ block ∈ (none : Option (List Stmt)), ∀ s ∈ block, s.Anchored tokens := nofun
  -- with or without a superclass the same members follow
  have rest {name : String} {superclass : Option (String × Span)}
      (hs : ∀ mention ∈ superclass, Anchors tokens mention.2) {span : Span}
      (hspan : Anchors tokens span) (s : State) :
      Lands tokens s (do
        let _ ← expectMark .leftBrace "expected '\x7b' before class body"
        let found ← members again n n none
        let _ ← expectMark .rightBrace "expected '\x7d' after class body"
        return Stmt.classDecl ⟨name, superclass, found.1, found.2, span⟩) fun _ stmt =>
          stmt.Anchored tokens := by
    refine .pass _ _ ?_
    intro t _ _
    refine (lands_members h n n hnone t).andThen ?_
    rintro _ found ⟨hmethods, hblock⟩
    refine .pass _ _ fun _ _ _ => .pure ⟨?_, nofun, nofun, ?_, ?_⟩
    · refine List.forall_mem_cons.mpr ⟨hspan, List.forall_mem_append.mpr ⟨?_, ?_⟩⟩
      · exact List.forall_mem_map.mpr fun mention hmention =>
          hs mention (Option.mem_toList.mp hmention)
      · exact List.forall_mem_map.mpr fun d hd => (hmethods d hd).1
    · intro d hd
      exact (hmethods d hd).2
    · intro block hmem
      exact hblock block (Option.mem_toList.mp hmem)
  refine .taking ?_
  intro _ _ hword
  refine (Lands.expectName _).andThen ?_
  intro _ name _
  refine (Lands.accept _).andThen ?_
  intro _ _ _
  refine .ite (.peek fun hmention => (Lands.expectName _).andThen ?_) ?_
  · intro _ superName _
    refine (Lands.pure (P := fun _ o => ∀ mention ∈ o, Anchors tokens mention.2) ?_).andThen ?_
    · rintro _ ⟨⟩
      exact hmention
    · intro t o ho
      exact rest ho hword.anchors t
  · refine (Lands.pure (P := fun _ o => ∀ mention ∈ o, Anchors tokens mention.2) nofun).andThen ?_
    intro t o ho
    exact rest ho hword.anchors t

theorem lands_pathRest (m : Nat) (s : State) : Lands tokens s (pathRest m) fun _ _ => True := by
  induction m generalizing s with
  | zero => exact .exhausted
  | succ m ih =>
    refine (Lands.accept _).andThen ?_
    intro _ _ _
    refine .ite ((Lands.expectName _).andThen ?_) (.pure trivial)
    intro t _ _
    exact (ih t).andThen fun _ _ _ => .pure trivial

theorem lands_importDeclaration (s : State) :
    Lands tokens s (importDeclaration n) fun _ stmt => stmt.Anchored tokens := by
  refine .taking ?_
  intro _ _ hword
  refine (Lands.expectName _).andThen ?_
  intro t _ _
  refine (lands_pathRest n t).andThen ?_
  intro u _ _
  refine lands_ended _ ?_ u
  exact Stmt.anchored_of_parts rfl rfl rfl hword.anchors nofun nofun

/-! ### Statements -/

include h in
theorem lands_conditional (s : State) :
    Lands tokens s (conditional again) fun _ stmt => stmt.Anchored tokens := by
  refine .taking ?_
  intro _ _ hword
  refine .pass _ _ ?_
  intro t _ _
  refine (h.expression t).andThen ?_
  intro _ test htest
  refine .pass _ _ ?_
  intro u _ _
  refine (h.statement u).andThen ?_
  intro _ thenBranch hthen
  refine (Lands.accept _).andThen ?_
  intro v _ _
  refine .ite_bind (h.statement v).some .none ?_
  intro _ elseBranch _ _ helse
  have hbranches : ∀ b ∈ thenBranch :: elseBranch.toList, b.Anchored tokens :=
    List.forall_mem_cons.mpr ⟨hthen, fun b hb => helse b (Option.mem_toList.mp hb)⟩
  exact .pure (Stmt.anchored_of_parts rfl rfl rfl hword.anchors
    (List.forall_mem_singleton.mpr htest.anchored)
    hbranches)

include h in
theorem lands_testedLoop (s : State) :
    Lands tokens s (testedLoop again) fun _ stmt => stmt.Anchored tokens := by
  refine .taking ?_
  intro _ _ hword
  refine .pass _ _ ?_
  intro t _ _
  refine (h.expression t).andThen ?_
  intro _ test htest
  refine .pass _ _ ?_
  intro u _ _
  refine (h.statement u).andThen ?_
  intro _ body hbody
  exact .pure (Stmt.anchored_of_parts rfl rfl rfl hword.anchors
    (List.forall_mem_singleton.mpr htest.anchored)
    (List.forall_mem_singleton.mpr hbody))

include h in
theorem lands_itemLoop (s : State) :
    Lands tokens s (itemLoop again) fun _ stmt => stmt.Anchored tokens := by
  refine .taking ?_
  intro _ _ hword
  refine .pass _ _ fun _ _ _ => (Lands.expectName _).andThen ?_
  intro _ name _
  refine .pass _ _ ?_
  intro t _ _
  refine (h.expression t).andThen ?_
  intro _ items hitems
  refine .pass _ _ ?_
  intro u _ _
  refine (h.statement u).andThen ?_
  intro _ body hbody
  exact .pure (Stmt.anchored_of_parts rfl rfl rfl hword.anchors
    (List.forall_mem_singleton.mpr hitems.anchored)
    (List.forall_mem_singleton.mpr hbody))

/-- A clause that is anchored, with its values and statements. -/
structure ClauseAnchored (tokens : List Token) (clause : SwitchCase) : Prop where
  span : Anchors tokens clause.span
  values : ∀ e ∈ clause.values.getD [], e.Anchored tokens
  body : ∀ s ∈ clause.body, s.Anchored tokens

include h in
theorem lands_switchCases (m : Nat) (hasDefault : Bool) (s : State) :
    Lands tokens s (switchCases again n m hasDefault) fun _ clauses => ∀ k ∈ clauses,
      ClauseAnchored tokens k := by
  induction m generalizing hasDefault s with
  | zero => exact .exhausted
  | succ m ih =>
    have rest {span : Span} (hspan : Anchors tokens span) (values : Option (List Expr))
        (hvalues : ∀ es ∈ values, ∀ e ∈ es, e.Anchored tokens) (s : State) : Lands tokens s (do
          let _ ← expectMark .colon "expected ':' after case/default"
          let body ← nested (sequence again n fun kind =>
            kind == .keyword .kwCase || kind == .keyword .kwDefault || kind == .symbol .rightBrace)
          let cases ← switchCases again n m (hasDefault || values.isNone)
          return ⟨values, body, span⟩ :: cases) fun _ clauses => ∀ k ∈ clauses,
            ClauseAnchored tokens k := by
      refine .pass _ _ ?_
      intro t _ _
      refine (lands_sequence h n _ _).nested.andThen ?_
      intro u body hbody
      refine (ih _ u).andThen ?_
      intro _ clauses hclauses
      refine .pure (List.forall_mem_cons.mpr ⟨⟨hspan, ?_, hbody⟩, hclauses⟩)
      cases values with
      | none => exact nofun
      | some es => exact hvalues es rfl
    refine .peek fun hnext => .ite (.pure nofun) ((Lands.accept _).andThen ?_)
    intro t _ _
    refine .ite ?_ ((Lands.accept _).andThen fun _ _ _ => .ite ?_ ?_)
    · have hvalues : Lands tokens t (some <$> trailing .colon again.expression n) fun _ o =>
          ∀ es ∈ o, ∀ e ∈ es, e.Anchored tokens :=
        (lands_trailing _ widens_between h.expression n t).some.imp fun _ _ ho es hes e he =>
          (ho es hes e he).anchored
      refine hvalues.andThen ?_
      intro u values hvalues
      exact rest hnext values hvalues u
    · -- a second default clause is a fault
      refine .ite ((Lands.failAt (P := fun _ _ => False) _ hnext).andThen fun _ _ hfalse =>
        hfalse.elim)
        ((Lands.none (P := fun _ es => ∀ e ∈ es, e.Anchored tokens)).andThen ?_)
      intro u values hvalues
      exact rest hnext values hvalues u
    · exact (Lands.unexpected (P := fun _ _ => False) _).andThen fun _ _ hfalse => hfalse.elim

include h in
theorem lands_switchStatement (s : State) :
    Lands tokens s (switchStatement again n) fun _ stmt => stmt.Anchored tokens := by
  refine .taking ?_
  intro _ _ hword
  refine .pass _ _ ?_
  intro t _ _
  refine (h.expression t).andThen ?_
  intro _ subject hsubject
  refine .pass _ _ fun _ _ _ => .pass _ _ ?_
  intro u _ _
  refine (lands_switchCases h n n _ u).andThen ?_
  intro _ clauses hclauses
  refine .pass _ _ fun _ _ _ => .pure ⟨?_, ?_, ?_, nofun, nofun⟩
  · exact List.forall_mem_cons.mpr
      ⟨hword.anchors, List.forall_mem_map.mpr fun clause hclause => (hclauses clause hclause).span⟩
  · refine List.forall_mem_cons.mpr ⟨hsubject.anchored, fun e he => ?_⟩
    obtain ⟨clause, hclause, he⟩ := List.mem_flatMap.mp he
    exact (hclauses clause hclause).values e he
  · intro s hs
    obtain ⟨clause, hclause, hs⟩ := List.mem_flatMap.mp hs
    exact (hclauses clause hclause).body s hs

include h in
theorem lands_returnStatement (s : State) :
    Lands tokens s (returnStatement again) fun _ stmt => stmt.Anchored tokens := by
  refine .taking ?_
  intro t _ hword
  refine .peek fun _ => .ite_bind .none (h.expression t).some ?_
  intro u value _ _ hvalue
  refine lands_ended _ ?_ u
  refine Stmt.anchored_of_parts rfl rfl rfl hword.anchors ?_ nofun
  intro e he
  exact (hvalue e (Option.mem_toList.mp he)).anchored

include h in
/-- What stands behind the body and the handler of a try statement: a cleanup, and the end. -/
theorem lands_attemptEnd {body : List Stmt} {handler : Option (String × List Stmt)} {span : Span}
    (hbody : ∀ s ∈ body, s.Anchored tokens)
    (hhandler : ∀ k ∈ handler, ∀ s ∈ k.2, s.Anchored tokens) (hspan : Anchors tokens span)
    (s : State) :
    Lands tokens s (do
      let cleanup ← if ← acceptWord .kwFinally then do
          let _ ← expectMark .leftBrace "expected '\x7b' before 'finally' body"
          some <$> block again n
        else pure none
      if handler.isNone && cleanup.isNone then failAt .tryWithoutHandler span
      else return Stmt.attempt body handler cleanup span) fun _ stmt => stmt.Anchored tokens := by
  have hends (cleanup : Option (List Stmt)) (hcleanup : ∀ k ∈ cleanup, ∀ s ∈ k, s.Anchored tokens)
      (s : State) :
      Lands tokens s (if handler.isNone && cleanup.isNone then failAt .tryWithoutHandler span
        else return Stmt.attempt body handler cleanup span) fun _ stmt => stmt.Anchored tokens := by
    refine .ite (.failAt _ hspan) (.pure (Stmt.anchored_of_parts rfl rfl rfl hspan nofun ?_))
    refine List.forall_mem_append.mpr ⟨List.forall_mem_append.mpr ⟨hbody, ?_⟩, ?_⟩
    · cases handler with
      | none => exact nofun
      | some k => exact hhandler k rfl
    · cases cleanup with
      | none => exact nofun
      | some k => exact hcleanup k rfl
  refine (Lands.accept _).andThen ?_
  intro _ _ _
  refine .ite (.pass _ _ ?_)
    ((Lands.none (P := fun _ body => ∀ s ∈ body, s.Anchored tokens)).andThen ?_)
  · intro t _ _
    refine (lands_block h n t).some.andThen ?_
    intro u cleanup hcleanup
    exact hends cleanup hcleanup u
  · intro u cleanup hcleanup
    exact hends cleanup hcleanup u

include h in
theorem lands_attempt (s : State) :
    Lands tokens s (attempt again n) fun _ stmt => stmt.Anchored tokens := by
  refine .taking ?_
  intro _ _ hword
  refine .pass _ _ ?_
  intro t _ _
  refine (lands_block h n t).andThen ?_
  intro _ body hbody
  refine (Lands.accept _).andThen ?_
  intro _ _ _
  refine .ite (.pass _ _ fun _ _ _ => (Lands.expectName _).andThen ?_) ?_
  · intro _ name _
    refine .pass _ _ fun _ _ _ => .pass _ _ ?_
    intro u _ _
    refine (lands_block h n u).andThen ?_
    intro _ handler hhandler
    refine (Lands.pure (P := fun _ o => ∀ k ∈ o, ∀ s ∈ k.2, s.Anchored tokens) ?_).andThen ?_
    · rintro _ ⟨⟩
      exact hhandler
    · intro v o ho
      exact lands_attemptEnd h n hbody ho hword.anchors v
  · refine (Lands.pure (P := fun _ o => ∀ k ∈ o, ∀ s ∈ k.2, s.Anchored tokens) nofun).andThen ?_
    intro u o ho
    exact lands_attemptEnd h n hbody ho hword.anchors u

/-- An assignment stands where its target does. -/
theorem anchored_assignTo {op : AssignOp} {value target : Expr} (hvalue : value.Anchored tokens)
    (htarget : target.Anchored tokens) {stmt : Stmt}
    (hstmt : assignTo op value target = some stmt) :
    stmt.Anchored tokens := by
  have hspan := htarget.anchors
  have hparts := htarget.operands
  unfold assignTo at hstmt
  split at hstmt
  · cases hstmt
    exact Stmt.anchored_of_parts rfl rfl rfl hspan (List.forall_mem_singleton.mpr hvalue)
      (List.forall_mem_nil _)
  · cases hstmt
    refine Stmt.anchored_expr (Expr.anchored_of_operands rfl rfl rfl hspan ?_
      (List.forall_mem_nil _))
    simp_all [Expr.operands, Expr.children]
  · cases hstmt
    refine Stmt.anchored_expr (Expr.anchored_of_operands rfl rfl rfl hspan ?_
      (List.forall_mem_nil _))
    simp_all [Expr.operands, Expr.children]
  · cases hstmt

include h in
theorem lands_expressionStatement (s : State) :
    Lands tokens s (expressionStatement again n) fun _ stmt => stmt.Anchored tokens := by
  refine (lands_expression h n s).andThen ?_
  intro t target htarget
  refine .peek fun _ => ?_
  split
  · exact lands_ended _ (Stmt.anchored_expr htarget.anchored) t
  · refine .taking ?_
    intro u _ hplace
    refine (h.expression u).andThen ?_
    intro v value hvalue
    refine (lands_endStatement _ v).andThen ?_
    intro _ _ _
    split
    · next hstmt => exact .pure (anchored_assignTo hvalue.anchored htarget.anchored hstmt)
    · exact .failAt _ hplace.anchors

include h in
theorem lands_statement (s : State) :
    Lands tokens s (statement again n) fun _ stmt => stmt.Anchored tokens := by
  refine .peek fun _ => ?_
  split
  · exact lands_conditional h s
  · exact lands_testedLoop h s
  · exact lands_itemLoop h s
  · exact lands_switchStatement h n s
  · exact lands_returnStatement h s
  · exact lands_attempt h n s
  · refine .taking ?_
    intro t _ hword
    refine lands_ended _ ?_ t
    exact Stmt.anchored_of_parts rfl rfl rfl hword.anchors nofun nofun
  · refine .taking ?_
    intro t _ hword
    refine lands_ended _ ?_ t
    exact Stmt.anchored_of_parts rfl rfl rfl hword.anchors nofun nofun
  · refine .taking ?_
    intro t _ hbrace
    refine (lands_block h n t).andThen ?_
    intro _ body hbody
    exact .pure (Stmt.anchored_of_parts rfl rfl rfl hbrace.anchors nofun hbody)
  · exact lands_expressionStatement h n s

include h in
theorem lands_anyStatement (s : State) :
    Lands tokens s (anyStatement again n) fun _ stmt => stmt.Anchored tokens := by
  refine .state ?_
  split
  · exact .ite (lands_functionDeclaration h n s) (lands_statement h n s)
  · exact lands_classDeclaration h n s
  · exact lands_binding h false s
  · exact lands_binding h true s
  · exact lands_importDeclaration n s
  · exact lands_statement h n s

end Parts

/-! ## Whole texts -/

/-- **The productions of every budget** give anchored trees and faults. -/
theorem productions_anchoring : ∀ n, (productions n).Anchoring
  | 0 => ⟨fun _ => .exhausted, fun _ => .exhausted, fun _ => .exhausted, fun _ => .exhausted⟩
  | n + 1 => by
    have h := productions_anchoring n
    exact ⟨lands_expression h n, lands_unary h n, lands_statement h n, fun s =>
      (lands_anyStatement h n s).recover⟩

/-- **Trees and syntax errors stand where tokens do.** Outside of templates every span of a tree
begins with a token of the text and ends with that or a later one; an operator, a call, a property,
an index, a list and a map cover their operands; and every fault that is recorded is blamed on such
a span. -/
theorem anchored_of_readProgram {first : Nat} {source : String}
    (h : Token.tokenizeAt first source = .ok tokens) :
    (∀ stmt ∈ (readProgram tokens).1, stmt.Anchored tokens) ∧ ∀ f ∈ (readProgram tokens).2,
      f.Anchored tokens := by
  have hread := lands_sequence (productions_anchoring (budget tokens)) (budget tokens) (fun _ =>
    false) _
    (within_ofTokens h)
  unfold readProgram
  simp only
  split
  · next hseq =>
    rw [hseq] at hread
    exact ⟨hread.2.2, fun f hf => hread.1.recorded f (List.mem_reverse.mp hf)⟩
  · exact ⟨List.forall_mem_nil _, List.forall_mem_nil _⟩
  · exact ⟨List.forall_mem_nil _, List.forall_mem_nil _⟩

/-- A binding without a name, and a sum over two lines whose second operand is in parentheses. -/
def sumBehindMistake : String := "var = 1; f(-x)[0] +\n  (g.h)"

theorem anchored_of_readProgram_sum :
    ∃ tokens, Token.tokenizeAt 1 sumBehindMistake = .ok tokens ∧
      (readProgram tokens).1.map Stmt.span = [⟨9, 26, 1, 10⟩] ∧
      (readProgram tokens).2.map Fault.span = [some ⟨4, 5, 1, 5⟩] ∧
      (∀ stmt ∈ (readProgram tokens).1, stmt.Anchored tokens) ∧ ∀ f ∈ (readProgram tokens).2,
        f.Anchored tokens := by
  have hmap : (Token.tokenizeAt 1 sumBehindMistake).toOption.map (fun tokens =>
      ((readProgram tokens).1.map Stmt.span, (readProgram tokens).2.map Fault.span)) =
        some ([⟨9, 26, 1, 10⟩], [some ⟨4, 5, 1, 5⟩]) := by
    decide +kernel
  cases hread : Token.tokenizeAt 1 sumBehindMistake with
  | error fault =>
    rw [hread] at hmap
    cases hmap
  | ok tokens =>
    rw [hread] at hmap
    obtain ⟨hspans, hfaults⟩ := Prod.mk.inj (Option.some.inj hmap)
    exact ⟨tokens, rfl, hspans, hfaults, anchored_of_readProgram hread⟩

end Parser

end ScriptEngine
