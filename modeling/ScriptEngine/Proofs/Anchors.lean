import ScriptEngine.Proofs.Declarations
import ScriptEngine.Proofs.LineBreaks
/-!
# Spans from token to token

A span is anchored in the tokens of a text if it begins where one of them begins and ends where that
one or a later one ends. A span that goes on to another one behind it is anchored if both are. A
parser moves forward over its tokens: what it reads between two places stands between them, and what
it complains about is anchored.

* `Token.InOrder` : tokens that lie one behind another, as those of a text do.
* `Token.Anchors` : the span goes from a token to a token. `Token.Anchors.upTo` joins two such
  spans.
* `Expr.Anchored`, `Stmt.Anchored` : trees all of whose spans are anchored, and whose nodes cover
  their operands. The code in a template is a text of its own.
* `Parser.Lands` : where a parser arrives from a state, and what it gives there. There is one rule
  for each way to put parsers together.
-/

namespace ScriptEngine

/-! ## Tokens in order -/

namespace Token

/-- The token has bytes of its own, in front of those of the other. -/
structure Precedes (t u : Token) : Prop where
  own : t.span.start < t.span.stop
  front : t.span.stop ≤ u.span.start

/-- The tokens lie one behind another. -/
structure InOrder (tokens : List Token) : Prop where
  pairwise : tokens.Pairwise Precedes
  forward : ∀ t ∈ tokens, t.span.start ≤ t.span.stop

variable {tokens : List Token} {t u : Token} {a b span : Span}

theorem inOrder_of_tokenizeAt {first : Nat} {source : String}
    (h : tokenizeAt first source = .ok tokens) :
    InOrder tokens := by
  have hlays := lays_of_tokensFrom [] source.toList h
  obtain ⟨hforward, hpairwise⟩ := hlays.pairwise
  obtain ⟨body, last, rfl, -, hbody, -⟩ := hlays.in_order
  obtain ⟨hfront, -, hback⟩ := List.pairwise_append.mp hpairwise
  have hown : ∀ t ∈ body, t.span.start < t.span.stop := fun t ht => (hbody t ht).2.2
  exact ⟨List.pairwise_append.mpr ⟨hfront.imp_of_mem fun ht _ hle => ⟨hown _ ht, hle⟩,
    List.pairwise_singleton _ _,
    fun t ht u hu => ⟨hown t ht, hback t ht u hu⟩⟩, hforward⟩

theorem InOrder.start_le {before after : List Token} (h : InOrder (before ++ t :: after))
    (hu : u ∈ t :: after) :
    t.span.start ≤ u.span.start := by
  rcases List.mem_cons.mp hu with rfl | hu
  · exact Nat.le_refl _
  · have hprecedes := List.rel_of_pairwise_cons (List.pairwise_append.mp h.pairwise).2.1 hu
    exact hprecedes.own.le.trans hprecedes.front

/-- Tokens stand in the list as they do in the text. -/
theorem InOrder.split (h : InOrder tokens) (ht : t ∈ tokens) (hu : u ∈ tokens)
    (hle : t.span.start ≤ u.span.start) :
    ∃ before after, tokens = before ++ t :: after ∧ u ∈ t :: after := by
  obtain ⟨before, after, rfl⟩ := List.append_of_mem ht
  refine ⟨before, after, rfl, ?_⟩
  rcases List.mem_append.mp hu with hbefore | hafter
  · -- a token in front begins in front
    have hprecedes := (List.pairwise_append.mp h.pairwise).2.2 u hbefore t List.mem_cons_self
    have := hprecedes.own
    have := hprecedes.front
    omega
  · exact hafter

/-! ## Anchored spans -/

/-- The span begins with a token and ends with that one or a later one. -/
def Anchors (tokens : List Token) (span : Span) : Prop :=
  ∃ before t after u, tokens = before ++ t :: after ∧ u ∈ t :: after ∧
    span = ⟨t.span.start, u.span.stop, t.span.line, t.span.column⟩

theorem anchors_span (ht : t ∈ tokens) : Anchors tokens t.span := by
  obtain ⟨before, after, rfl⟩ := List.append_of_mem ht
  exact ⟨before, t, after, t, rfl, List.mem_cons_self, rfl⟩

theorem Anchors.forward (ha : Anchors tokens a) (h : InOrder tokens) : a.start ≤ a.stop := by
  obtain ⟨before, t, after, u, rfl, hu, rfl⟩ := ha
  exact (h.start_le hu).trans (h.forward u (List.mem_append_right _ hu))

/-- A span goes on to the end of another one behind it. -/
theorem Anchors.upTo (ha : Anchors tokens a) (hb : Anchors tokens b) (h : InOrder tokens)
    (hle : a.stop ≤ b.start) :
    Anchors tokens (a.upTo b) := by
  have haforward := ha.forward h
  have hbforward := hb.forward h
  obtain ⟨before, t, after, t', htokens, ht', rfl⟩ := ha
  obtain ⟨before', u, after', u', htokens', hu', rfl⟩ := hb
  have ht : t ∈ tokens := htokens ▸ List.mem_append_right _ List.mem_cons_self
  have hmem : u' ∈ tokens := htokens' ▸ List.mem_append_right _ hu'
  have hstart : u.span.start ≤ u'.span.start := InOrder.start_le (htokens' ▸ h) hu'
  obtain ⟨before, after, rfl, hafter⟩ := h.split ht hmem ((haforward.trans hle).trans hstart)
  refine ⟨before, t, after, u', rfl, hafter, ?_⟩
  rw [Span.upTo, Nat.max_eq_left (hle.trans hbforward)]

end Token

open Token (Anchors InOrder)

/-- The span covers the bytes of the other. -/
structure Span.Covers (a b : Span) : Prop where
  start : a.start ≤ b.start
  stop : b.stop ≤ a.stop

/-- The span is anchored and stands between two places. -/
structure Span.Between (tokens : List Token) (m n : Nat) (span : Span) : Prop where
  anchors : Anchors tokens span
  start : m ≤ span.start
  stop : span.stop ≤ n

namespace Span.Between

variable {tokens : List Token} {m m' n n' k l : Nat} {a b : Span}

theorem mono (h : a.Between tokens m n) (hm : m' ≤ m) (hn : n ≤ n') : a.Between tokens m' n' :=
  ⟨h.anchors, hm.trans h.start, h.stop.trans hn⟩

theorem forward (h : a.Between tokens m n) (horder : InOrder tokens) : a.start ≤ n :=
  (h.anchors.forward horder).trans h.stop

theorem upTo (ha : a.Between tokens m n) (hb : b.Between tokens k l) (horder : InOrder tokens)
    (hle : n ≤ k) :
    (a.upTo b).Between tokens m l := by
  have hbehind : a.stop ≤ b.start := (ha.stop.trans hle).trans hb.start
  refine ⟨ha.anchors.upTo hb.anchors horder hbehind, ha.start, Nat.max_le.mpr ⟨hb.stop, ?_⟩⟩
  exact hbehind.trans (hb.forward horder)

end Span.Between

theorem Span.stop_le_upTo_left (a b : Span) : a.stop ≤ (a.upTo b).stop := Nat.le_max_right ..

theorem Span.stop_le_upTo_right (a b : Span) : b.stop ≤ (a.upTo b).stop := Nat.le_max_left ..

/-! ## Trees -/

namespace Expr

/-- The spans that a node holds. A function without a name keeps its own. -/
def spans : Expr → List Span
  | lambda decl span => [span, decl.span]
  | e => [e.span]

/-- The operands of a node that are read from the same text. -/
def operands : Expr → List Expr
  | template .. => []
  | e => e.children

/-- The expressions in a template. They are read from texts of their own. -/
def embedded : Expr → List Expr
  | template parts _ => parts.filterMap Part.expr?
  | _ => []

/-- Whether a node spans all its operands. -/
def isSpanning : Expr → Bool
  | binary .. | logical .. | call .. | get .. | index .. | list .. | map .. => true
  | _ => false

end Expr

/-- The spans that a statement holds, with those of its functions, its clauses and what it
mentions. -/
def Stmt.spans : Stmt → List Span
  | function decl => [decl.span]
  | classDecl decl => decl.span :: decl.superclass.toList.map Prod.snd ++ decl.methods.map
      FunctionDecl.span
  | switch _ cases span => span :: cases.map SwitchCase.span
  | s => [s.span]

mutual

/-- Every span in the expression is anchored, and nodes that span their operands cover them. -/
inductive Expr.Anchored : List Token → Expr → Prop
  | intro {tokens : List Token} {e : Expr} (spans : ∀ span ∈ e.spans, Anchors tokens span)
      (covers : e.isSpanning = true → ∀ e' ∈ e.children, e.span.Covers e'.span)
      (operands : ∀ e' ∈ e.operands, Expr.Anchored tokens e')
      (embedded : ∀ e' ∈ e.embedded, Expr.AnchoredInside e')
      (bodies : ∀ d ∈ e.functions, ∀ s ∈ d.body, Stmt.Anchored tokens s) : Expr.Anchored tokens e

/-- The expression is anchored in the tokens of a text of its own. -/
inductive Expr.AnchoredInside : Expr → Prop
  | intro {first : Nat} {code : String} {tokens : List Token} {e : Expr}
      (read : Token.tokenizeAt first code = .ok tokens) (anchored : Expr.Anchored tokens e) :
      Expr.AnchoredInside e

/-- Every span in the statement is anchored, and nodes that span their operands cover them. -/
inductive Stmt.Anchored : List Token → Stmt → Prop
  | intro {tokens : List Token} {s : Stmt} (spans : ∀ span ∈ s.spans, Anchors tokens span)
      (exprs : ∀ e ∈ s.exprs, Expr.Anchored tokens e)
      (inner : ∀ s' ∈ s.inner, Stmt.Anchored tokens s')
      (bodies : ∀ d ∈ s.functions, ∀ s' ∈ d.body, Stmt.Anchored tokens s')
      (blocks : ∀ block ∈ s.staticBlocks, ∀ s' ∈ block, Stmt.Anchored tokens s') :
      Stmt.Anchored tokens s

end

variable {tokens : List Token} {m m' n n' : Nat} {e e' : Expr} {a b span : Span}

theorem Expr.span_mem_spans (e : Expr) : e.span ∈ e.spans := by
  cases e <;> exact List.mem_cons_self

theorem Expr.Anchored.anchors (h : e.Anchored tokens) : Anchors tokens e.span := by
  obtain ⟨spans, -, -, -, -⟩ := h
  exact spans _ e.span_mem_spans

theorem Expr.Anchored.operands (h : e.Anchored tokens) : ∀ e' ∈ e.operands, e'.Anchored tokens := by
  obtain ⟨-, -, operands, -, -⟩ := h
  exact operands

/-- A node that need not span its operands and makes no function. -/
theorem Expr.anchored_of_operands (hspans : e.spans = [e.span]) (hf : e.functions = [])
    (hspanning : e.isSpanning = false) (hspan : Anchors tokens e.span)
    (hoperands : ∀ e' ∈ e.operands, e'.Anchored tokens)
    (hembedded : ∀ e' ∈ e.embedded, e'.AnchoredInside) :
    e.Anchored tokens :=
  ⟨by rwa [hspans, List.forall_mem_singleton], fun h => absurd (hspanning.symm.trans h)
    Bool.false_ne_true, hoperands,
    hembedded, by rw [hf]; exact nofun⟩

/-- A statement that makes no functions and has no clauses. -/
theorem Stmt.anchored_of_parts {s : Stmt} (hspans : s.spans = [s.span]) (hf : s.functions = [])
    (hblocks : s.staticBlocks = []) (hspan : Anchors tokens s.span)
    (he : ∀ e ∈ s.exprs, e.Anchored tokens) (hi : ∀ s' ∈ s.inner, s'.Anchored tokens) :
    s.Anchored tokens :=
  ⟨by rwa [hspans, List.forall_mem_singleton], he,
    hi, by rw [hf]; exact nofun, by rw [hblocks]; exact nofun⟩

theorem Stmt.anchored_expr (h : e.Anchored tokens) : (Stmt.expr e).Anchored tokens :=
  Stmt.anchored_of_parts rfl rfl rfl h.anchors (List.forall_mem_singleton.mpr h) nofun

/-- The expression is anchored and stands between two places. -/
structure Expr.Between (tokens : List Token) (m n : Nat) (e : Expr) : Prop where
  anchored : e.Anchored tokens
  start : m ≤ e.span.start
  stop : e.span.stop ≤ n

namespace Expr.Between

theorem mono (h : e.Between tokens m n) (hm : m' ≤ m) (hn : n ≤ n') : e.Between tokens m' n' :=
  ⟨h.anchored, hm.trans h.start, h.stop.trans hn⟩

theorem of_anchored (h : e.Anchored tokens) (hspan : e.span.Between tokens m n) :
    e.Between tokens m n :=
  ⟨h, hspan.start, hspan.stop⟩

theorem toSpan (h : e.Between tokens m n) : e.span.Between tokens m n :=
  ⟨h.anchored.anchors, h.start, h.stop⟩

/-- A node that spans its operands. -/
theorem of_children (hspans : e.spans = [e.span]) (hf : e.functions = [])
    (hembedded : e.embedded = []) (hoperands : e.operands = e.children)
    (hspan : e.span.Between tokens m n)
    (hchildren : ∀ e' ∈ e.children, e'.Between tokens e.span.start e.span.stop) :
    e.Between tokens m n :=
  ⟨⟨by rw [hspans]; exact List.forall_mem_singleton.mpr hspan.anchors,
    fun _ e' he' => ⟨(hchildren e' he').start, (hchildren e' he').stop⟩,
    fun e' he' => (hchildren e' (hoperands ▸ he')).anchored, by rw [hembedded]; exact nofun,
    by rw [hf]; exact nofun⟩, hspan.start, hspan.stop⟩

variable {k l : Nat}

/-- What stands between two spans stands in the span of both. -/
theorem inside (h : e.Between tokens n k) (ha : a.Between tokens m n) (hb : b.Between tokens k l)
    (horder : InOrder tokens) : e.Between tokens (a.upTo b).start (a.upTo b).stop :=
  h.mono (ha.forward horder) ((hb.start.trans (hb.anchors.forward horder)).trans
    (Span.stop_le_upTo_right a b))

/-- A span that goes on behind an expression still covers it. -/
theorem first (h : e.Between tokens m n) (b : Span) :
    e.Between tokens (e.span.upTo b).start (e.span.upTo b).stop :=
  ⟨h.anchored, Nat.le_refl _, Span.stop_le_upTo_left ..⟩

end Expr.Between

/-- The fault is placed, at an anchored span. -/
def Fault.Anchored (tokens : List Token) (f : Fault) : Prop :=
  ∃ span, f.span = some span ∧ Anchors tokens span

theorem Fault.anchored_placed (cause : Cause) (h : Anchors tokens span) :
    (placed cause span).Anchored tokens :=
  ⟨span, rfl, h⟩

namespace Parser

variable {α β : Type} {p : Parser α} {f : α → Parser β} {P P' : Nat → α → Prop} {Q : Nat → β → Prop}
    {s : State}

/-! ## Parsers on their way over tokens -/

/-- Where the tokens ahead begin. -/
def State.here (s : State) : Nat := s.next.span.start

/-- The tokens ahead and the end token. -/
def State.ahead (s : State) : List Token := s.rest ++ [⟨.eof, s.stop, ""⟩]

/-- The tokens ahead are of those in order, and everything that was recorded is anchored. -/
structure State.Within (tokens : List Token) (s : State) : Prop where
  inOrder : InOrder tokens
  ahead : s.ahead.Sublist tokens
  stop : s.stop.stop ≤ s.stop.start
  recorded : ∀ f ∈ s.recorded, f.Anchored tokens

/-- The value is in `P` for the place that was reached, at or behind `m`, or the fault is
anchored. -/
def Reply.Lands (tokens : List Token) (m : Nat) (P : Nat → α → Prop) : Reply α → Prop
  | .ok a t => t.Within tokens ∧ m ≤ t.here ∧ P t.here a
  | .error f t => t.Within tokens ∧ m ≤ t.here ∧ f.Anchored tokens
  | .exhausted => True

/-- From the state the parser moves forward, to a value in `P` or an anchored fault. -/
def Lands (tokens : List Token) (s : State) (p : Parser α) (P : Nat → α → Prop) : Prop :=
  s.Within tokens → (p s).Lands tokens s.here P

namespace State

theorem next_of_nil (h : s.rest = []) : s.next = ⟨.eof, s.stop, ""⟩ := by rw [next, h]; rfl

theorem next_of_cons {t : Token} {ts : List Token} (h : s.rest = t :: ts) : s.next = t := by
  rw [next, h]; rfl

theorem next_mem_ahead (s : State) : s.next ∈ s.ahead := by
  unfold ahead
  cases hrest : s.rest with
  | nil =>
    rw [next_of_nil hrest]
    exact List.mem_cons_self
  | cons t ts =>
    rw [next_of_cons hrest]
    exact List.mem_cons_self

/-- What is ahead of a later state was ahead before. -/
theorem ahead_of_travels {t : State} (h : Travels s t) : ∃ passed, s.rest = passed ++ t.rest ∧
    s.ahead = passed ++ t.ahead := by
  obtain ⟨passed, hrest, -⟩ := h.passed
  exact ⟨passed, hrest, by rw [ahead, ahead, hrest, List.append_assoc, h.stop]⟩

theorem recorded_advance (s : State) : s.advance.recorded = s.recorded := by
  unfold advance
  split <;> rfl

namespace Within

variable {t : State}

theorem next_mem (h : s.Within tokens) : s.next ∈ tokens := h.ahead.subset s.next_mem_ahead

theorem anchors_next (h : s.Within tokens) : Anchors tokens s.next.span :=
  Token.anchors_span h.next_mem

theorem travels (h : s.Within tokens) (ht : Travels s t)
    (hrecorded : ∀ f ∈ t.recorded, f.Anchored tokens) :
    t.Within tokens := by
  obtain ⟨passed, -, hahead⟩ := ahead_of_travels ht
  exact ⟨h.inOrder, (List.sublist_append_right ..).trans (hahead ▸ h.ahead), ht.stop ▸ h.stop,
    hrecorded⟩

/-- Forward is further on in the text, behind every token that was passed. -/
theorem passes (h : s.Within tokens) (ht : Travels s t) :
    s.here ≤ t.here ∧ (s.rest ≠ t.rest → s.next.span.stop ≤ t.here) := by
  obtain ⟨passed, hrest, hahead⟩ := ahead_of_travels ht
  cases passed with
  | nil =>
    have hnext : t.next = s.next := by rw [next, next, hrest, ht.stop]; rfl
    exact ⟨by rw [here, here, hnext], fun hne => absurd hrest hne⟩
  | cons u passed =>
    have hpairwise := h.inOrder.pairwise.sublist h.ahead
    rw [hahead, List.cons_append] at hpairwise
    have hprecedes := List.rel_of_pairwise_cons hpairwise
      (List.mem_append_right passed t.next_mem_ahead)
    rw [here, here, next_of_cons hrest]
    exact ⟨hprecedes.own.le.trans hprecedes.front, fun _ => hprecedes.front⟩

theorem advance (h : s.Within tokens) : s.advance.Within tokens :=
  h.travels (.advance s) (by rw [recorded_advance]; exact h.recorded)

theorem here_le_advance (h : s.Within tokens) : s.here ≤ s.advance.here := (h.passes (.advance s)).1

/-- The next token stands between the two places. -/
theorem between_next (h : s.Within tokens) : s.next.span.Between tokens s.here s.advance.here := by
  refine ⟨h.anchors_next, Nat.le_refl _, ?_⟩
  cases hrest : s.rest with
  | nil =>
    have hadvance : s.advance = s := by rw [State.advance, hrest]
    rw [hadvance, here, next_of_nil hrest]
    exact h.stop
  | cons t ts =>
    refine (h.passes (.advance s)).2 fun heq => ?_
    rw [State.advance, hrest] at heq
    exact List.cons_ne_self t ts heq

theorem afterFault {f : Fault} (h : s.Within tokens) (hf : f.Anchored tokens) :
    (s.afterFault f).Within tokens :=
  h.travels (.afterFault s f) <| by
    rw [recorded_afterFault]
    exact List.forall_mem_cons.mpr ⟨hf, h.recorded⟩

/-- How deep a state is does not say where it is. -/
theorem atDepth (h : s.Within tokens) (depth : Nat) : State.Within tokens { s with depth } :=
  ⟨h.inOrder, h.ahead, h.stop, h.recorded⟩

end Within

end State

/-- A parser begins in front of the tokens of a text. -/
theorem within_ofTokens {first : Nat} {source : String}
    (h : Token.tokenizeAt first source = .ok tokens) :
    (State.ofTokens tokens).Within tokens := by
  obtain ⟨last, more, hdrop, hkind, hspan⟩ := (at_ofTokens tokens).ahead
  rw [List.drop_zero, vector_of_tokenizeAt h] at hdrop
  have hahead : ((State.ofTokens tokens).rest ++ [last]).Sublist tokens := by
    have hsublist : [last].Sublist (last :: more) := List.singleton_sublist.mpr List.mem_cons_self
    exact (hsublist.append_left _).trans (hdrop ▸ List.filter_sublist)
  obtain ⟨body, stop, htokens, ⟨-, hlexeme, hstart, hstop⟩, hbody, -⟩ :=
    (Token.lays_of_tokensFrom [] source.toList h).in_order
  -- there is one end token only
  have hlast : last = stop := by
    have hmem : last ∈ body ++ [stop] :=
      htokens ▸ hahead.subset (List.mem_append_right _ (List.mem_singleton_self _))
    exact (List.mem_append.mp hmem).elim (fun hmem => absurd hkind (hbody last hmem).1)
      List.mem_singleton.mp
  rw [← hlast] at hlexeme hstart hstop
  refine ⟨Token.inOrder_of_tokenizeAt h, ?_, ?_, List.forall_mem_nil _⟩
  · rwa [State.ahead, ← hspan, ← hkind, ← hlexeme]
  · rw [← hspan, hstart, hstop]

namespace Lands

/-- The second parser goes on with the reply of the first one. -/
theorem bind_of_reply (hp : Lands tokens s p P)
    (hf : ∀ t a, p s = .ok a t → t.Within tokens → s.here ≤ t.here → P t.here a →
      Lands tokens t (f a) Q) :
    Lands tokens s (p >>= f) Q := by
  intro hs
  have hfirst := hp hs
  change Reply.Lands tokens s.here Q (match p s with
    | .ok a s' => f a s' | .error e s' => .error e s' | .exhausted => .exhausted)
  cases hr : p s with
  | ok a t =>
    rw [hr] at hfirst
    obtain ⟨ht, hle, ha⟩ := hfirst
    have hrest := hf t a hr ht hle ha ht
    simp only
    cases hr' : f a t with
    | ok b u => rw [hr'] at hrest; exact ⟨hrest.1, hle.trans hrest.2.1, hrest.2.2⟩
    | error fault u => rw [hr'] at hrest; exact ⟨hrest.1, hle.trans hrest.2.1, hrest.2.2⟩
    | exhausted => trivial
  | error fault t => rw [hr] at hfirst; exact hfirst
  | exhausted => trivial

/-- What the first parser gives, the second one may count on. -/
theorem bind (hp : Lands tokens s p P)
    (hf : ∀ t a, t.Within tokens → s.here ≤ t.here → P t.here a → Lands tokens t (f a) Q) :
    Lands tokens s (p >>= f) Q :=
  hp.bind_of_reply fun t a _ => hf t a

/-- The same where it does not matter how far the first parser has gone. -/
theorem andThen (hp : Lands tokens s p P) (hf : ∀ t a, P t.here a → Lands tokens t (f a) Q) :
    Lands tokens s (p >>= f) Q :=
  hp.bind fun t a _ _ ha => hf t a ha

theorem imp (hp : Lands tokens s p P) (h : ∀ n a, P n a → P' n a) : Lands tokens s p P' := by
  intro hs
  have hp := hp hs
  unfold Reply.Lands at *
  split at hp
  · exact ⟨hp.1, hp.2.1, h _ _ hp.2.2⟩
  · exact hp
  · trivial

theorem pure {a : α} (h : P s.here a) : Lands tokens s (Pure.pure a) P :=
  fun hs => ⟨hs, Nat.le_refl _, h⟩

theorem exhausted : Lands tokens s exhausted P := fun _ => trivial

theorem failAt (error : SyntaxError) (h : Anchors tokens span) :
    Lands tokens s (failAt error span) P :=
  fun hs => ⟨hs, Nat.le_refl _, Fault.anchored_placed _ h⟩

theorem unexpected (wanted : String) : Lands tokens s (unexpected wanted) P :=
  fun hs => ⟨hs, Nat.le_refl _, Fault.anchored_placed _ hs.anchors_next⟩

/-- What is looked at stays ahead. -/
theorem peek {f : Token → Parser β}
    (hf : Anchors tokens s.next.span → Lands tokens s (f s.next) Q) :
    Lands tokens s (peek >>= f) Q :=
  fun hs => hf hs.anchors_next hs

theorem state {f : State → Parser β} (hf : Lands tokens s (f s) Q) :
    Lands tokens s (state >>= f) Q := hf

theorem take : Lands tokens s take fun n t => t = s.next ∧ t.span.Between tokens s.here n :=
  fun hs => ⟨hs.advance, hs.here_le_advance, rfl, hs.between_next⟩

/-- The token that is taken stands between the two places. -/
theorem taking {f : Token → Parser β}
    (hf : ∀ t, s.here ≤ t.here → s.next.span.Between tokens s.here t.here →
      Lands tokens t (f s.next) Q) :
    Lands tokens s (Parser.take >>= f) Q := by
  refine take.bind ?_
  rintro t _ - hle ⟨rfl, hbetween⟩
  exact hf t hle hbetween

theorem check (k : Kind) : Lands tokens s (check k) fun _ _ => True :=
  fun hs => ⟨hs, Nat.le_refl _, trivial⟩

theorem accept (k : Kind) : Lands tokens s (accept k) fun _ _ => True := by
  intro hs
  unfold Parser.accept
  split
  · exact ⟨hs.advance, hs.here_le_advance, trivial⟩
  · exact ⟨hs, Nat.le_refl _, trivial⟩

theorem expect (k : Kind) (wanted : String) :
    Lands tokens s (expect k wanted) fun n t => t.span.Between tokens s.here n := by
  intro hs
  unfold Parser.expect
  split
  · exact ⟨hs.advance, hs.here_le_advance, hs.between_next⟩
  · exact unexpected wanted hs

theorem expectName (wanted : String) : Lands tokens s (expectName wanted) fun _ _ => True := by
  intro hs
  unfold Parser.expectName
  split
  · exact ⟨hs.advance, hs.here_le_advance, trivial⟩
  · exact unexpected wanted hs

/-- Behind a name it is the token taken last. -/
theorem name {f : String → Parser β} (wanted : String)
    (hf : ∀ t name, t.Within tokens → s.here ≤ t.here → t.last.span.Between tokens s.here t.here →
      Lands tokens t (f name) Q) :
    Lands tokens s (Parser.expectName wanted >>= f) Q := by
  intro hs
  refine bind_of_reply (expectName wanted) (fun t name hreply ht hle _ => hf t name ht hle ?_) hs
  obtain ⟨hkind, rfl⟩ := exists_of_expectName hreply
  have hlast : s.advance.last = s.next := by
    cases hrest : s.rest with
    | nil =>
      rw [State.kind, State.next_of_nil hrest] at hkind
      cases hkind
    | cons u us =>
      rw [State.last, State.advance, hrest, State.next_of_cons hrest]
      rfl
  rw [hlast]
  exact hs.between_next

theorem ite {c : Prop} [Decidable c] {q : Parser α} (hp : Lands tokens s p P)
    (hq : Lands tokens s q P) :
    Lands tokens s (if c then p else q) P := by
  split
  · exact hp
  · exact hq

/-- Either way the same goes on. -/
theorem ite_bind {c : Prop} [Decidable c] {q : Parser α} (hp : Lands tokens s p P)
    (hq : Lands tokens s q P)
    (hf : ∀ t a, t.Within tokens → s.here ≤ t.here → P t.here a → Lands tokens t (f a) Q) :
    Lands tokens s (if c then p >>= f else q >>= f) Q :=
  .ite (hp.bind hf) (hq.bind hf)

/-- A mark or a word that is passed over. -/
theorem pass {f : Token → Parser β} (k : Kind) (wanted : String)
    (hf : ∀ t token, s.here ≤ t.here → Lands tokens t (f token) Q) :
    Lands tokens s (Parser.expect k wanted >>= f) Q :=
  (expect k wanted).bind fun t token _ hle _ => hf t token hle

/-- A thing that may be left out. -/
theorem some (hp : Lands tokens s p P) :
    Lands tokens s (Option.some <$> p) fun n o => ∀ a ∈ o, P n a :=
  hp.bind fun _ _ _ _ ha => .pure fun _ hb => by cases hb; exact ha

theorem none : Lands tokens s (Pure.pure (Option.none : Option α)) fun n o => ∀ a ∈ o, P n a :=
  .pure nofun

theorem nil : Lands tokens s (Pure.pure ([] : List α)) fun n as => ∀ a ∈ as, P n a := .pure nofun

theorem nested (hp : Lands tokens { s with depth := s.depth + 1 } p P) :
    Lands tokens s (nested p) P := by
  intro hs
  have hp := hp (hs.atDepth _)
  unfold Parser.nested
  cases hr : p { s with depth := s.depth + 1 } with
  | ok a t =>
    rw [hr] at hp
    exact ⟨hp.1.atDepth _, hp.2⟩
  | error fault t =>
    rw [hr] at hp
    exact ⟨hp.1.atDepth _, hp.2⟩
  | exhausted => trivial

/-- What cannot be read is recorded. -/
theorem recover (hp : Lands tokens s p P) :
    Lands tokens s (recover p) fun n o => ∀ a ∈ o, P n a := by
  intro hs
  have hp := hp hs
  unfold Parser.recover
  cases hr : p s with
  | ok a t =>
    rw [hr] at hp
    exact ⟨hp.1, hp.2.1, fun b hb => by cases hb; exact hp.2.2⟩
  | error fault t =>
    rw [hr] at hp
    obtain ⟨ht, hle, hfault⟩ := hp
    exact ⟨ht.afterFault hfault, hle.trans (ht.passes (.afterFault t fault)).1, nofun⟩
  | exhausted => trivial

end Lands

/-! ### Loops -/

/-- What holds of a value between two places holds of it between places further apart. -/
structure Widens (I : Nat → Nat → α → Prop) : Prop where
  mono {m m' n n' : Nat} {a : α} (hm : m' ≤ m) (hn : n ≤ n') (h : I m n a) : I m' n' a

variable {I : Nat → Nat → α → Prop}

theorem widens_between : Widens (Expr.Between tokens) := ⟨fun hm hn h => h.mono hm hn⟩

theorem Lands.cons {t : State} {a : α} {q : Parser (List α)} (hI : Widens I)
    (ha : I s.here t.here a) (hle : s.here ≤ t.here)
    (hq : Lands tokens t q fun n as => ∀ a ∈ as, I t.here n a) :
    Lands tokens t (do return a :: (← q)) fun n as => ∀ a ∈ as, I s.here n a :=
  hq.bind fun _ _ _ hle' has => .pure (List.forall_mem_cons.mpr ⟨hI.mono (Nat.le_refl _) hle' ha,
    fun b hb => hI.mono hle (Nat.le_refl _) (has b hb)⟩)

theorem lands_gather {step : Parser (Option (List α))} {P : α → Prop}
    (hstep : ∀ s, Lands tokens s step fun _ o => ∀ as ∈ o, ∀ a ∈ as, P a) (n : Nat) (s : State) :
    Lands tokens s (gather step n) fun _ as => ∀ a ∈ as, P a := by
  induction n generalizing s with
  | zero => exact .exhausted
  | succ n ih =>
    refine (hstep s).bind fun t o _ _ ho => ?_
    cases o with
    | none => exact .nil
    | some as =>
      exact (ih t).bind fun _ rest _ _ hrest =>
        .pure (List.forall_mem_append.mpr ⟨ho as rfl, hrest⟩)

theorem lands_separated (what : String) (hI : Widens I) (hp : ∀ s, Lands tokens s p (I s.here))
    (room : Nat) (s : State) :
    Lands tokens s (separated what p room) fun n as => ∀ a ∈ as, I s.here n a := by
  induction room generalizing s with
  | zero => exact .peek fun hnext => .failAt _ hnext
  | succ room ih =>
    refine (hp s).bind fun t a _ hle ha => .bind (.accept _) fun u _ _ hle' _ => ?_
    have ha : I s.here u.here a := hI.mono (Nat.le_refl _) hle' ha
    exact .ite (.cons hI ha (hle.trans hle') (ih u)) (.pure (List.forall_mem_singleton.mpr ha))

theorem lands_trailing (close : Symbol) (hI : Widens I) (hp : ∀ s, Lands tokens s p (I s.here))
    (n : Nat) (s : State) :
    Lands tokens s (trailing close p n) fun n as => ∀ a ∈ as, I s.here n a := by
  induction n generalizing s with
  | zero => exact .exhausted
  | succ n ih =>
    refine (hp s).bind fun t a _ hle ha => .bind (.accept _) fun u _ _ hle' _ => ?_
    have single {v : State} (hle : t.here ≤ v.here) :
        Lands tokens v (return [a]) fun n as => ∀ a ∈ as, I s.here n a :=
      .pure (List.forall_mem_singleton.mpr (hI.mono (Nat.le_refl _) hle ha))
    refine .ite (.bind (.check _) fun v _ _ hle'' _ => .ite (single (hle'.trans hle'')) ?_)
      (single hle')
    exact .cons hI (hI.mono (Nat.le_refl _) (hle'.trans hle'') ha) ((hle.trans hle').trans hle'')
      (ih v)

/-- An operator that joins what stands on its two sides. -/
structure Joins (tokens : List Token) (combine : Expr → Expr → Expr) : Prop where
  between {m n k l : Nat} {a b : Expr} (ha : a.Between tokens m n) (hb : b.Between tokens k l)
      (hle : n ≤ k) :
    (combine a b).Between tokens m l

theorem lands_chainFrom {operator? : Kind → Option (Expr → Expr → Expr)} {operand : Parser Expr}
    (hoperand : ∀ s, Lands tokens s operand (Expr.Between tokens s.here))
    (hjoins : InOrder tokens → ∀ k combine, operator? k = some combine → Joins tokens combine)
    (n : Nat) {left : Expr} (s : State) (hleft : left.Between tokens m s.here) :
    Lands tokens s (chainFrom operator? operand n left) (Expr.Between tokens m) := by
  induction n generalizing left s with
  | zero => exact .exhausted
  | succ n ih =>
    refine .peek fun _ => ?_
    split
    · exact .pure hleft
    · next combine hk =>
      exact .bind .take fun t _ ht hle _ => (hoperand t).bind fun u right _ _ hright =>
        ih u ((hjoins ht.inOrder _ combine hk).between hleft hright hle)

end Parser

end ScriptEngine
