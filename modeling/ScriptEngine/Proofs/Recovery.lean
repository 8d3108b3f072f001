import Mathlib.Data.List.Forall2
import ScriptEngine.Proofs.Endings
import ScriptEngine.Proofs.WholeText
/-!
# What is read after a mistake

After a mistake the rest of the statement is passed over, and the semicolon behind it. So statements
with semicolons between them are read as they are alone, whatever mistakes there are among them,
with one exception: that a value is assigned to what is no target is only found when the semicolon
was taken already, and then the next statement is passed over instead.

* `Parser.State.rest_resume` : where reading goes on after a mistake.
* `Parser.ReadsAll.through` : what is read of a segment alone is read of it in front of others.
* `Parser.overruns`, `Parser.surviving` : the segments that end in a mistake met too late, and the
  segments that are read in spite of them.
* `Parser.readProgram_joined` : segments with semicolons between them.

This is `parse_with_recovery` (`declaration`, `synchronize`). A segment is any text that would be
read by itself, with or without mistakes, as long as it does not end inside a block.
-/

namespace ScriptEngine.Parser

/-! ## Where reading goes on -/

section Resume

variable {tokens behind : List Token} {s : State}

theorem closes_nil : ∀ t ∈ ([] : List Token).head?, t.kind = .symbol .semicolon := by
  rintro t ⟨⟩

theorem noElse_nil : ∀ t ∈ ([] : List Token).head?, t.kind ≠ .keyword .kwElse := by
  rintro t ⟨⟩

theorem skipFrom_of_semicolon {mark : Token} (hmark : mark.kind = .symbol .semicolon)
    (tokens : List Token) : skipFrom (some mark) tokens = (some mark, tokens) := by
  cases tokens with
  | nil => rfl
  | cons t ts =>
    rw [skipFrom, if_pos]
    simp [hmark]

theorem skipFrom_cons {previous t : Token} (hprevious : previous.kind.isPlain)
    (hquiet : t.kind.startsStatement = false) (hbrace : t.kind ≠ .symbol .rightBrace)
    (ts : List Token) : skipFrom (some previous) (t :: ts) = skipFrom (some t) ts := by
  have hmark : previous.kind ≠ .symbol .semicolon := fun h => absurd (h ▸ hprevious) (by decide)
  rw [skipFrom, if_neg]
  simp [hmark, hquiet, hbrace]

/-- Behind a token of a statement everything is passed over through the next semicolon. -/
theorem skipFrom_append {previous : Token} (hprevious : previous.kind.isPlain)
    (hplain : ∀ t ∈ tokens, t.kind.isPlain)
    (hquiet : ∀ t ∈ tokens, t.kind.startsStatement = false)
    (hbehind : ∀ t ∈ behind.head?, t.kind = .symbol .semicolon) :
    (skipFrom (some previous) (tokens ++ behind)).2 = behind.tail := by
  induction tokens generalizing previous with
  | nil =>
    cases behind with
    | nil => rfl
    | cons mark tail =>
      have hmark := hbehind mark rfl
      rw [List.nil_append, skipFrom_cons hprevious (by rw [hmark]; rfl) (by rw [hmark]; decide),
        skipFrom_of_semicolon hmark]
      rfl
  | cons t ts ih =>
    have ht := hplain t List.mem_cons_self
    have hbrace : t.kind ≠ .symbol .rightBrace := fun h => absurd (h ▸ ht) (by decide)
    rw [List.cons_append, skipFrom_cons hprevious (hquiet t List.mem_cons_self) hbrace]
    exact ih ht (fun u hu => hplain u (List.mem_cons_of_mem _ hu))
      fun u hu => hquiet u (List.mem_cons_of_mem _ hu)

theorem State.rest_resume_of_ne (hs : s.kind ≠ .symbol .rightBrace) :
    s.resume.rest = (skipFrom s.advance.previous s.advance.rest).2 := by
  have hpass : ¬ (0 < s.depth && s.kind == .symbol .rightBrace) = true := by
    rw [Bool.and_eq_true, beq_iff_eq]
    exact fun h => hs h.2
  unfold State.resume
  rw [if_neg hpass]

/-- After a mistake in a statement the rest of it is passed over, and the semicolon behind it. -/
theorem State.rest_resume (tokens behind : List Token) (hrest : s.rest = tokens ++ behind)
    (hplain : ∀ t ∈ tokens, t.kind.isPlain)
    (hquiet : ∀ t ∈ tokens.tail, t.kind.startsStatement = false)
    (hbehind : ∀ t ∈ behind.head?, t.kind = .symbol .semicolon) : s.resume.rest = behind.tail := by
  cases tokens with
  | cons t ts =>
    have ht := hplain t List.mem_cons_self
    have hkind : s.kind = t.kind := by rw [State.kind, State.next, hrest]; rfl
    have hadvance : s.advance = { s with previous := some t, rest := ts ++ behind } := by
      rw [State.advance, hrest]
      rfl
    rw [rest_resume_of_ne (fun h => absurd (hkind.symm.trans h ▸ ht) (by decide)), hadvance]
    exact skipFrom_append ht (fun u hu => hplain u (List.mem_cons_of_mem _ hu)) hquiet hbehind
  | nil =>
    cases behind with
    | nil =>
      have hkind : s.kind = .eof := Beside.kind_of_nil hrest
      have hadvance : s.advance = s := by rw [State.advance, hrest]; rfl
      rw [rest_resume_of_ne (by rw [hkind]; simp), hadvance, hrest]
      rfl
    | cons mark tail =>
      have hmark := hbehind mark rfl
      have hkind : s.kind = mark.kind := by rw [State.kind, State.next, hrest]; rfl
      have hadvance : s.advance = { s with previous := some mark, rest := tail } := by
        rw [State.advance, hrest]
        rfl
      rw [rest_resume_of_ne (by rw [hkind, hmark]; simp), hadvance, skipFrom_of_semicolon hmark]
      rfl

theorem State.recorded_resume (s : State) : s.resume.recorded = s.recorded := by
  have hadvance : s.advance.recorded = s.recorded := by
    unfold State.advance
    split <;> rfl
  unfold State.resume
  split
  · rfl
  · exact hadvance

theorem State.recorded_afterFault (s : State) (f : Fault) :
    (s.afterFault f).recorded = f :: s.recorded :=
  State.recorded_resume _

theorem State.rest_afterFault (tokens behind : List Token) (f : Fault)
    (hrest : s.rest = tokens ++ behind)
    (hplain : ∀ t ∈ tokens, t.kind.isPlain)
    (hquiet : ∀ t ∈ tokens.tail, t.kind.startsStatement = false)
    (hbehind : ∀ t ∈ behind.head?, t.kind = .symbol .semicolon) :
    (s.afterFault f).rest = behind.tail :=
  State.rest_resume tokens behind hrest hplain hquiet hbehind

theorem State.depth_afterFault (s : State) (f : Fault) : (s.afterFault f).depth = s.depth :=
  (State.resume_le _).2

end Resume

/-! ## Segments -/

/-- The tokens of a statement without blocks: no other begins within them, and they do not go on
with what is in front of them. -/
structure Segment (seg : List Token) : Prop where
  plain : ∀ t ∈ seg, t.kind.isPlain
  quiet : ∀ t ∈ seg.tail, t.kind.startsStatement = false
  noElse : ∀ t ∈ seg.head?, t.kind ≠ .keyword .kwElse

/-- Whether a target is found to be none only behind the last token. -/
def overrunsFrom : Nat → State → Bool
  | 0, _ => false
  | n + 1, s =>
    if s.atEnd then false
    else match nextStatement s with
      | .ok _ t => overrunsFrom n t
      | .error f t => f.cause == .syntactic .invalidAssignmentTarget && t.atEnd
      | .exhausted => false

/-- Whether the last statement of a segment assigns to what is no target. -/
def overruns (seg : List Token) : Bool := overrunsFrom (budget seg) (.ofTokens seg)

/-! ### A segment in front of others -/

section Through

variable {seam : Seam} {s s' u : State} {stmts : List Stmt}

theorem Beside.load_le {tight : Bool} (h : Beside seam tight s s') : s.load ≤ s'.load := by
  rw [State.load, State.load, h.rest, List.map_append, List.sum_append]
  exact Nat.le_add_right _ _

/-- The next statement is read alike in both texts. -/
theorem Beside.closed_nextStatement {reply : Reply Stmt} (h : Beside seam false s s')
    (hnext : nextStatement s = reply) : Closed seam reply (nextStatement s') := by
  have hsame := (settlesAt_nextStatement s h.load_le).2
  have hclosed := Completes.anyStatement (n := s'.load) (productions_end seam s'.load) s s' h
  unfold ClosedAt at hclosed
  rw [← hnext, ← hsame]
  exact hclosed

/-- Nothing more is read at the end. -/
theorem ReadsAll.eq_of_nil (h : ReadsAll s stmts u) (hs : s.rest = []) : stmts = [] ∧ u = s := by
  have heof := Beside.kind_of_nil hs
  cases h with
  | done => exact ⟨rfl, rfl⟩
  | semicolon hmark => exact absurd (heof.symm.trans hmark) (by simp)
  | statement hne | mistake hne => exact absurd heof hne

/-- The longer text was read through the tokens of the shorter one, and through what is passed over
with them if that `overran`. -/
structure Through (seam : Seam) (stmts : List Stmt) (u s' w' : State) (overran : Bool) : Prop where
  faults : ∃ faults faults', u.recorded = faults ++ seam.recorded ∧
    w'.recorded = faults' ++ seam.recorded' ∧ List.Forall₂ Renamed faults faults' ∧
    faults.length ≤ 1 ∧ (overran → ∃ f ∈ faults, f.Misplaced)
  rest : if overran then ∃ t' : State, t'.rest = seam.behind.tail ∧ w'.rest = t'.resume.rest
    else w'.rest = seam.behind.tail
  depth' : w'.depth = 0
  reads : ∀ more v, ReadsAll w' more v → ReadsAll s' (stmts ++ more) v

/-- Behind the tokens the semicolon is passed over. -/
theorem Beside.through_end (h : Beside seam false s s') (hs : s.rest = []) :
    ∃ w', Through seam [] s s' w' false := by
  have hfaults (w : State) (hw : w.recorded = seam.recorded') :
      ∃ faults faults', s.recorded = faults ++ seam.recorded ∧
        w.recorded = faults' ++ seam.recorded' ∧ List.Forall₂ Renamed faults faults' ∧
        faults.length ≤ 1 ∧ (false → ∃ f ∈ faults, f.Misplaced) :=
    ⟨[], [], h.recorded, hw, .nil, Nat.zero_le 1, nofun⟩
  rcases h.kind_behind hs with heof | hmark
  · have hrest : s'.rest = [] := by rw [h.rest, hs, h.behind_eq_nil hs heof]; rfl
    exact ⟨s', hfaults s' h.recorded', by rw [h.behind_eq_nil hs heof]; exact hrest, h.depth',
      fun _ _ hmore => hmore⟩
  · have hpast := h.past hs hmark
    obtain ⟨mark, hbehind⟩ := hpast.behind
    exact ⟨s'.advance, hfaults _ hpast.recorded', by rw [hbehind]; rfl, hpast.depth',
      fun _ _ hmore => .semicolon hmark hmore⟩

theorem Past.through {stmts : List Stmt} (h : Past seam s s') (hread : ReadsAll s stmts u) :
    ∃ w', Through seam stmts u s' w' false := by
  obtain ⟨rfl, rfl⟩ := hread.eq_of_nil h.rest
  obtain ⟨mark, hbehind⟩ := h.behind
  exact ⟨s', ⟨[], [], h.recorded, h.recorded', .nil, Nat.zero_le 1, nofun⟩, by rw [hbehind]; rfl,
    h.depth', fun _ _ hmore => hmore⟩

/-- After the only mistake of the segment nothing of it is left. -/
theorem through_fault {t t' : State} {f f' : Fault} {overran : Bool}
    (hread : ReadsAll (t.afterFault f) stmts u) (hrest : (t.afterFault f).rest = [])
    (hf : Renamed f f') (hrecorded : t.recorded = seam.recorded)
    (hrecorded' : t'.recorded = seam.recorded') (hdepth' : t'.depth = 0)
    (hoverran : overran → f.Misplaced)
    (hrest' : if overran then ∃ t'' : State, t''.rest = seam.behind.tail ∧
        (t'.afterFault f').rest = t''.resume.rest else (t'.afterFault f').rest = seam.behind.tail)
    (hmistake : ∀ more v, ReadsAll (t'.afterFault f') more v → ReadsAll s' more v) :
    ∃ w', Through seam stmts u s' w' overran := by
  obtain ⟨rfl, rfl⟩ := hread.eq_of_nil hrest
  refine ⟨t'.afterFault f', ⟨[f], [f'], ?_, ?_, .cons hf .nil, Nat.le_refl 1, ?_⟩, hrest',
    (t'.depth_afterFault f').trans hdepth', hmistake⟩
  · rw [State.recorded_afterFault, hrecorded]
    rfl
  · rw [State.recorded_afterFault, hrecorded']
    rfl
  · exact fun h => ⟨f, List.mem_singleton_self f, hoverran h⟩

theorem overrunsFrom_of_nil (n : Nat) (hs : s.rest = []) : overrunsFrom n s = false := by
  cases n with
  | zero => rfl
  | succ n => rw [overrunsFrom, if_pos (by rw [State.atEnd, hs]; rfl)]

theorem overrunsFrom_of_ok {n : Nat} {stmt : Stmt} {t : State} (hs : s.rest ≠ [])
    (hnext : nextStatement s = .ok stmt t) : overrunsFrom (n + 1) s = overrunsFrom n t := by
  rw [overrunsFrom, if_neg (by rwa [State.atEnd, List.isEmpty_iff]), hnext]

theorem overrunsFrom_of_error {n : Nat} {f : Fault} {t : State} (hs : s.rest ≠ [])
    (hnext : nextStatement s = .error f t) :
    overrunsFrom (n + 1) s = true ↔ f.Misplaced ∧ t.rest = [] := by
  rw [overrunsFrom, if_neg (by rwa [State.atEnd, List.isEmpty_iff]), hnext]
  simp only [Bool.and_eq_true, beq_iff_eq, State.atEnd, List.isEmpty_iff]
  rfl

/-- The mistake that ends a segment alone is met in front of the others too. -/
theorem Beside.through_mistake {n : Nat} {f : Fault} {t : State} (hbeside : Beside seam false s s')
    (hs : s.kind ≠ .eof) (hmark : s.kind ≠ .symbol .semicolon)
    (hnext : nextStatement s = .error f t) (hread : ReadsAll (t.afterFault f) stmts u) :
    ∃ w', Through seam stmts u s' w' (overrunsFrom (n + 1) s) := by
  have hrest := State.rest_ne_nil hs
  have hkind : s'.kind = s.kind := congrArg Token.kind (hbeside.next_eq hrest)
  have hclosed := hbeside.closed_nextStatement hnext
  generalize hnext' : nextStatement s' = reply' at hclosed
  have hoverran := overrunsFrom_of_error (n := n) hrest hnext
  cases hclosed with
  | @error _ f' _ t' hf hplace h =>
    have hend := State.rest_afterFault t.rest [] f (List.append_nil t.rest).symm h.plain h.quiet
      closes_nil
    have hend' := State.rest_afterFault t.rest seam.behind f' h.rest h.plain h.quiet seam.closes
    refine through_fault hread hend hf h.recorded h.recorded' h.depth' ?_ ?_
      fun more v hmore => .mistake (hkind ▸ hs) (hkind ▸ hmark) hnext' hmore
    · exact fun h => (hoverran.mp h).1
    · split
      · next h' =>
        obtain ⟨hmisplaced, hrest⟩ := hoverran.mp h'
        refine ⟨{ t' with recorded := f' :: t'.recorded }, ?_, rfl⟩
        change t'.rest = _
        rw [h.rest, hrest, hplace hmisplaced hrest]
        rfl
      · exact hend'
  | @overrun _ _ t' hplace h =>
    obtain ⟨mark, hbehind⟩ := h.behind
    have hend := State.rest_afterFault [] [] f h.rest (List.forall_mem_nil _)
      (List.forall_mem_nil _) closes_nil
    rw [hoverran.mpr ⟨hplace, h.rest⟩]
    refine through_fault hread hend (.same f) h.recorded h.recorded' h.depth' (fun _ => hplace) ?_
      fun more v hmore => .mistake (hkind ▸ hs) (hkind ▸ hmark) hnext' hmore
    refine ⟨{ t' with recorded := f :: t'.recorded }, ?_, rfl⟩
    rw [hbehind]
    rfl

/-- Whatever is read of the segment alone is read in front of the others. -/
theorem ReadsAll.through {n : Nat} (hread : ReadsAll s stmts u) (hbeside : Beside seam false s s')
    (hn : s.load < n) : ∃ w', Through seam stmts u s' w' (overrunsFrom n s) := by
  induction hread generalizing s' n with
  | @done s hs =>
    rcases hbeside.kind_cases with ⟨-, -, hplain⟩ | ⟨hrest, -, -⟩
    · exact absurd (hs ▸ hplain) (by decide)
    · rw [overrunsFrom_of_nil n hrest]
      exact hbeside.through_end hrest
  | @semicolon s t stmts hs _ ih =>
    rcases hbeside.kind_cases with ⟨-, -, hplain⟩ | ⟨-, heof, -⟩
    · exact absurd (hs ▸ hplain) (by decide)
    · exact absurd (heof.symm.trans hs) (by simp)
  | @statement s t u stmt stmts hs hmark hnext hread ih =>
    obtain ⟨n, rfl⟩ := Nat.exists_eq_add_of_lt hn
    have hrest := State.rest_ne_nil hs
    have hkind : s'.kind = s.kind := congrArg Token.kind (hbeside.next_eq hrest)
    obtain ⟨-, hload⟩ : Settled 1 s (.ok stmt t) :=
      hnext ▸ (settlesAt_nextStatement s (Nat.le_refl _)).1
    have hclosed := hbeside.closed_nextStatement hnext
    generalize hnext' : nextStatement s' = reply' at hclosed
    have hfirst {t' w' : State} {overran : Bool} (hreply : reply' = .ok stmt t')
        (h : Through seam stmts u t' w' overran) : Through seam (stmt :: stmts) u s' w' overran :=
      ⟨h.faults, h.rest, h.depth', fun more v hmore => .statement (hkind ▸ hs) (hkind ▸ hmark)
        (hnext'.trans hreply) (h.reads more v hmore)⟩
    rw [overrunsFrom_of_ok hrest hnext]
    cases hclosed with
    | ok h =>
      obtain ⟨w', hthrough⟩ := ih h.loosen (Nat.lt_of_lt_of_le hload (Nat.le_add_right _ n))
      exact ⟨w', hfirst rfl hthrough⟩
    | past h =>
      obtain ⟨w', hthrough⟩ := h.through hread
      rw [overrunsFrom_of_nil _ h.rest]
      exact ⟨w', hfirst rfl hthrough⟩
  | @mistake s t u f stmts hs hmark hnext hread =>
    obtain ⟨n, rfl⟩ := Nat.exists_eq_add_of_lt hn
    exact hbeside.through_mistake hs hmark hnext hread

/-- Where the text ends and what was met before makes no difference. -/
theorem Beside.overrunsFrom_eq (h : Beside seam false s s') (hbehind : seam.behind = []) (n : Nat) :
    overrunsFrom n s' = overrunsFrom n s := by
  induction n generalizing s s' with
  | zero => rfl
  | succ n ih =>
    have hrest' : s'.rest = s.rest := by rw [h.rest, hbehind, List.append_nil]
    by_cases hs : s.rest = []
    · rw [overrunsFrom_of_nil _ hs, overrunsFrom_of_nil _ (hrest'.trans hs)]
    have hs' : s'.rest ≠ [] := hrest' ▸ hs
    have hpast {t t' : State} : ¬ Past seam t t' := by
      rintro hp
      obtain ⟨mark, hcons⟩ := hp.behind
      exact absurd (hbehind.symm.trans hcons) (by simp)
    have hclosed := h.closed_nextStatement rfl
    generalize hnext : nextStatement s = reply at hclosed
    generalize hnext' : nextStatement s' = reply' at hclosed
    cases hclosed with
    | ok h => rw [overrunsFrom_of_ok hs hnext, overrunsFrom_of_ok hs' hnext', ih h.loosen]
    | @error f f' t t' hf _ h =>
      have ht : t'.rest = t.rest := by rw [h.rest, hbehind, List.append_nil]
      rw [Bool.eq_iff_iff, overrunsFrom_of_error hs hnext, overrunsFrom_of_error hs' hnext', ht,
        hf.misplaced_iff]
    | past h | overrun _ h => exact absurd h hpast
    | exhausted => exact absurd hnext (nextStatement_ne_exhausted s)

end Through

/-- The segments that are read where they stand one after another: the one behind a segment that
overruns is passed over. -/
def surviving : List (List Token) → List (List Token)
  | [] => []
  | [seg] => [seg]
  | seg :: next :: segs =>
    if overruns seg then seg :: surviving segs else seg :: surviving (next :: segs)

/-- Segments with semicolons between them. -/
inductive Joined : List (List Token) → List Token → Prop
  | nil : Joined [] []
  | single (seg : List Token) : Joined [seg] seg
  | cons {seg tokens : List Token} {mark : Token} {segs : List (List Token)}
      (hmark : mark.kind = .symbol .semicolon) (hne : segs ≠ []) (h : Joined segs tokens) :
      Joined (seg :: segs) (seg ++ mark :: tokens)

section Main

variable {segs : List (List Token)} {seg tokens ends ends' : List Token} {s' : State}

/-- The state in front of tokens that end a text. -/
theorem ofTokens_append (hseen : ∀ t ∈ tokens, t.kind ≠ .comment ∧ t.kind ≠ .eof)
    (hends : ∀ t ∈ ends, t.kind = .eof) : (State.ofTokens (tokens ++ ends)).rest = tokens := by
  have htokens : tokens.filter (fun t => t.kind != .comment) = tokens :=
    List.filter_eq_self.mpr fun t ht => by simpa using (hseen t ht).1
  have hgo : ∀ t ∈ tokens, (t.kind != .eof) = true := fun t ht => by simpa using (hseen t ht).2
  simp only [State.ofTokens, List.filter_append, htokens]
  rw [List.takeWhile_append_of_pos hgo]
  cases ends with
  | nil => simp
  | cons t ts =>
    have ht := hends t List.mem_cons_self
    simp [ht]

theorem ofTokens_rest (hseen : ∀ t ∈ tokens, t.kind ≠ .comment ∧ t.kind ≠ .eof) :
    (State.ofTokens tokens).rest = tokens := by
  have hnone : ∀ t ∈ ([] : List Token), t.kind = .eof := List.forall_mem_nil _
  have hrest := ofTokens_append hseen hnone
  rwa [List.append_nil] at hrest

theorem Segment.seen (h : Segment seg) : ∀ t ∈ seg, t.kind ≠ .comment ∧ t.kind ≠ .eof := by
  intro t ht
  have := h.plain t ht
  constructor <;> rintro hkind <;> rw [hkind] at this <;> exact absurd this (by decide)

/-- The state in front of a segment alone, and one in front of it in a longer text. -/
theorem Segment.beside (h : Segment seg) (hends : ∀ t ∈ ends, t.kind = .eof) {seam : Seam}
    (hrecorded : seam.recorded = []) (hrest : s'.rest = seg ++ seam.behind)
    (hrecorded' : s'.recorded = seam.recorded') (hdepth' : s'.depth = 0) :
    Beside seam false (.ofTokens (seg ++ ends)) s' := by
  have hrest' := ofTokens_append h.seen hends
  exact {
    rest := by rw [hrest', hrest]
    plain := by rw [hrest']; exact h.plain
    quiet := by rw [hrest']; exact h.quiet
    recorded := hrecorded.symm
    recorded' := hrecorded'
    depth' := hdepth'
    previous := nofun }

theorem Joined.head_ne_else (h : Joined segs tokens) (hsegs : ∀ seg ∈ segs, Segment seg) :
    ∀ t ∈ tokens.head?, t.kind ≠ .keyword .kwElse := by
  cases h with
  | nil => exact noElse_nil
  | single seg => exact (hsegs _ List.mem_cons_self).noElse
  | @cons seg tokens mark segs hmark _ _ =>
    cases seg with
    | nil =>
      rintro t ⟨⟩
      rw [hmark]
      simp
    | cons t ts =>
      exact (hsegs _ List.mem_cons_self).noElse

/-- What is passed over behind a segment that overruns is the next segment. -/
theorem Joined.resume {next : List Token} (h : Joined (next :: segs) tokens) (hnext : Segment next)
    {s : State} (hs : s.rest = tokens) : Joined segs s.resume.rest := by
  cases h with
  | single =>
    rw [State.rest_resume _ [] (hs.trans (List.append_nil _).symm) hnext.plain hnext.quiet
      closes_nil]
    exact .nil
  | cons hmark _ h =>
    rw [State.rest_resume next _ hs hnext.plain hnext.quiet (by rintro t ⟨⟩; exact hmark)]
    exact h

theorem Segment.overruns_eq (h : Segment seg) (hends : ∀ t ∈ ends, t.kind = .eof) :
    overruns seg = overrunsFrom (budget seg) (.ofTokens (seg ++ ends)) := by
  have hrest := ofTokens_rest h.seen
  let seam : Seam := ⟨[], [], [], closes_nil, noElse_nil⟩
  have hbeside : Beside seam false (.ofTokens (seg ++ ends)) (.ofTokens seg) :=
    h.beside hends rfl (hrest.trans (List.append_nil _).symm) rfl rfl
  exact hbeside.overrunsFrom_eq rfl _

/-- A segment in front of others, or at the end of the text. -/
theorem Segment.exists_through (hseg : Segment seg) (hends : ∀ t ∈ ends, t.kind = .eof)
    (behind : List Token) (hcloses : ∀ t ∈ behind.head?, t.kind = .symbol .semicolon)
    (hnoElse : ∀ t ∈ behind.tail.head?, t.kind ≠ .keyword .kwElse)
    (hrest : s'.rest = seg ++ behind) (hdepth : s'.depth = 0) :
    ∃ u w', readProgram (seg ++ ends) = ((readProgram (seg ++ ends)).1, u.recorded.reverse) ∧
      Through ⟨behind, [], s'.recorded, hcloses, hnoElse⟩ (readProgram (seg ++ ends)).1 u s' w'
        (overruns seg) := by
  obtain ⟨stmts, u, hread, hprogram⟩ := exists_readProgram (seg ++ ends)
  have hload : (State.ofTokens (seg ++ ends)).load < budget seg := by
    have hsame : (State.ofTokens (seg ++ ends)).load = (State.ofTokens seg).load := by
      rw [State.load, State.load, ofTokens_rest hseg.seen, ofTokens_append hseg.seen hends]
    exact hsame ▸ load_ofTokens_lt seg
  have hbeside : Beside ⟨behind, [], s'.recorded, hcloses, hnoElse⟩ false
      (.ofTokens (seg ++ ends)) s' := hseg.beside hends rfl hrest rfl hdepth
  obtain ⟨w', hthrough⟩ := hread.through hbeside hload
  rw [← hseg.overruns_eq hends] at hthrough
  rw [hprogram]
  exact ⟨u, w', rfl, hthrough⟩

/-- One segment and what is read behind it. -/
theorem Segment.readsAll_cons (hseg : Segment seg) (hends : ∀ t ∈ ends, t.kind = .eof)
    (behind : List Token) (hcloses : ∀ t ∈ behind.head?, t.kind = .symbol .semicolon)
    (hnoElse : ∀ t ∈ behind.tail.head?, t.kind ≠ .keyword .kwElse) (hrest : s'.rest = seg ++ behind)
    (hdepth : s'.depth = 0) (segs : List (List Token))
    (hmore : ∀ w' : State, w'.depth = 0 →
      (if overruns seg then ∃ t' : State, t'.rest = behind.tail ∧ w'.rest = t'.resume.rest
        else w'.rest = behind.tail) →
      ∃ v faults, ReadsAll w' (segs.flatMap fun seg => (readProgram (seg ++ ends)).1) v ∧
        v.recorded = faults ++ w'.recorded ∧
        List.Forall₂ Renamed (segs.flatMap fun seg => (readProgram (seg ++ ends)).2)
          faults.reverse) :
    ∃ v faults,
      ReadsAll s' ((seg :: segs).flatMap fun seg => (readProgram (seg ++ ends)).1) v ∧
      v.recorded = faults ++ s'.recorded ∧
      List.Forall₂ Renamed ((seg :: segs).flatMap fun seg => (readProgram (seg ++ ends)).2)
        faults.reverse := by
  obtain ⟨u, w', hprogram, hthrough⟩ := hseg.exists_through hends behind hcloses hnoElse hrest
    hdepth
  obtain ⟨alone, faults, halone, hfaults, hrenamed, -⟩ := hthrough.faults
  obtain ⟨v, more, hreads, hrecorded, hrenamed'⟩ := hmore w' hthrough.depth' hthrough.rest
  refine ⟨v, more ++ faults, ?_, ?_, ?_⟩
  · rw [List.flatMap_cons]
    exact hthrough.reads _ v hreads
  · rw [hrecorded, hfaults, List.append_assoc]
  · have hhead : (readProgram (seg ++ ends)).2 = alone.reverse := by
      rw [hprogram, halone]
      exact congrArg List.reverse (List.append_nil alone)
    rw [List.flatMap_cons, hhead, List.reverse_append]
    exact List.rel_append (List.rel_reverse hrenamed) hrenamed'

/-- Every text of segments is read as those that survive are alone. -/
theorem Joined.exists_readsAll (hjoined : Joined segs tokens) (hsegs : ∀ seg ∈ segs, Segment seg)
    (hends : ∀ t ∈ ends, t.kind = .eof) (hrest : s'.rest = tokens) (hdepth : s'.depth = 0) :
    ∃ v faults,
      ReadsAll s' ((surviving segs).flatMap fun seg => (readProgram (seg ++ ends)).1) v ∧
      v.recorded = faults ++ s'.recorded ∧
      List.Forall₂ Renamed ((surviving segs).flatMap fun seg => (readProgram (seg ++ ends)).2)
        faults.reverse := by
  induction segs using surviving.induct generalizing tokens s' with
  | case1 =>
    cases hjoined
    exact ⟨s', [], .done (Beside.kind_of_nil hrest), rfl, .nil⟩
  | case2 seg =>
    have htokens : tokens = seg := by
      cases hjoined with
      | single => rfl
      | cons _ hne => exact absurd rfl hne
    subst htokens
    refine (hsegs tokens List.mem_cons_self).readsAll_cons hends [] closes_nil noElse_nil
      (hrest.trans (List.append_nil _).symm) hdepth [] fun w' _ hw => ?_
    have hnil : w'.rest = [] := by
      split at hw
      · obtain ⟨t', ht', hw⟩ := hw
        exact hw.trans (State.rest_resume [] [] ht' (List.forall_mem_nil _)
          (List.forall_mem_nil _) closes_nil)
      · exact hw
    exact ⟨w', [], .done (Beside.kind_of_nil hnil), rfl, .nil⟩
  | case3 seg next segs hoverruns ih =>
    obtain ⟨hseg, hothers⟩ := List.forall_mem_cons.mp hsegs
    cases hjoined with
    | @cons _ tokens mark _ hmark _ hjoined =>
      rw [surviving, if_pos hoverruns]
      have hcloses : ∀ t ∈ (mark :: tokens).head?, t.kind = .symbol .semicolon := by
        rintro t ⟨⟩
        exact hmark
      refine hseg.readsAll_cons hends (mark :: tokens) hcloses (hjoined.head_ne_else hothers) hrest
        hdepth _ fun w' hdepth' hw => ?_
      rw [if_pos hoverruns] at hw
      obtain ⟨t', ht', hw⟩ := hw
      obtain ⟨hnext, hothers⟩ := List.forall_mem_cons.mp hothers
      exact ih (hjoined.resume hnext ht') hothers hw hdepth'
  | case4 seg next segs hoverruns ih =>
    obtain ⟨hseg, hothers⟩ := List.forall_mem_cons.mp hsegs
    cases hjoined with
    | @cons _ tokens mark _ hmark _ hjoined =>
      rw [surviving, if_neg hoverruns]
      have hcloses : ∀ t ∈ (mark :: tokens).head?, t.kind = .symbol .semicolon := by
        rintro t ⟨⟩
        exact hmark
      refine hseg.readsAll_cons hends (mark :: tokens) hcloses (hjoined.head_ne_else hothers) hrest
        hdepth _ fun w' hdepth' hw => ?_
      rw [if_neg hoverruns] at hw
      exact ih hjoined hothers hw hdepth'

/-- Alone a segment is left with one fault at most, and if it overruns, with a misplaced
assignment. -/
theorem Segment.faults (hseg : Segment seg) (hends : ∀ t ∈ ends, t.kind = .eof) :
    (readProgram (seg ++ ends)).2.length ≤ 1 ∧
      (overruns seg → ∃ f ∈ (readProgram (seg ++ ends)).2, f.Misplaced) := by
  have hrest := (ofTokens_rest hseg.seen).trans (List.append_nil seg).symm
  obtain ⟨u, w', hprogram, hthrough⟩ := hseg.exists_through hends [] closes_nil noElse_nil
    hrest rfl
  obtain ⟨faults, -, halone, -, -, hlength, hmisplaced⟩ := hthrough.faults
  rw [hprogram, halone]
  refine ⟨by simpa using hlength, fun h => ?_⟩
  obtain ⟨f, hf, hplace⟩ := hmisplaced h
  exact ⟨f, by simpa using hf, hplace⟩

theorem surviving_eq_self (h : ∀ seg ∈ segs.dropLast, ¬ overruns seg) : surviving segs = segs := by
  induction segs using surviving.induct with
  | case1 | case2 => rfl
  | case3 seg next segs hoverruns => exact absurd hoverruns (h seg List.mem_cons_self)
  | case4 seg next segs hoverruns ih =>
    rw [surviving, if_neg hoverruns, ih fun seg hmem => h seg (List.mem_cons_of_mem _ hmem)]

theorem Joined.seen (hjoined : Joined segs tokens) (hsegs : ∀ seg ∈ segs, Segment seg) :
    ∀ t ∈ tokens, t.kind ≠ .comment ∧ t.kind ≠ .eof := by
  induction hjoined with
  | nil => exact List.forall_mem_nil _
  | single seg => exact (hsegs _ List.mem_cons_self).seen
  | cons hmark _ _ ih =>
    obtain ⟨hseg, hothers⟩ := List.forall_mem_cons.mp hsegs
    intro t ht
    rcases List.mem_append.mp ht with ht | ht
    · exact hseg.seen t ht
    · rcases List.mem_cons.mp ht with rfl | ht
      · rw [hmark]
        simp
      · exact ih hothers t ht

/-- **Segments with semicolons between them are read as they are alone**, one after another and up
to complaints about what stands behind them, except for those behind a segment that overruns: they
are lost. Every segment is read with one fault at most, and where no fault is a misplaced
assignment, but perhaps in the last segment, none is lost. -/
theorem readProgram_joined (hjoined : Joined segs tokens) (hsegs : ∀ seg ∈ segs, Segment seg)
    (hends : ∀ t ∈ ends, t.kind = .eof) (hends' : ∀ t ∈ ends', t.kind = .eof) :
    (readProgram (tokens ++ ends')).1 =
        (surviving segs).flatMap (fun seg => (readProgram (seg ++ ends)).1) ∧
      List.Forall₂ Renamed ((surviving segs).flatMap fun seg => (readProgram (seg ++ ends)).2)
        (readProgram (tokens ++ ends')).2 ∧
      (∀ seg ∈ segs, (readProgram (seg ++ ends)).2.length ≤ 1) ∧
      ((∀ seg ∈ segs.dropLast, ∀ f ∈ (readProgram (seg ++ ends)).2, ¬ f.Misplaced) →
        surviving segs = segs) := by
  have hrest := ofTokens_append (hjoined.seen hsegs) hends'
  obtain ⟨v, faults, hreads, hrecorded, hrenamed⟩ := hjoined.exists_readsAll hsegs hends hrest rfl
  have hfaults : v.recorded = faults := hrecorded.trans (List.append_nil faults)
  rw [readProgram_of_readsAll hreads, hfaults]
  refine ⟨rfl, hrenamed, fun seg hmem => ((hsegs seg hmem).faults hends).1, fun h => ?_⟩
  refine surviving_eq_self fun seg hmem hoverruns => ?_
  obtain ⟨f, hf, hplace⟩ := ((hsegs seg (List.dropLast_subset segs hmem)).faults hends).2 hoverruns
  exact h seg hmem f hf hplace

/-- Tokens on one line. -/
def onLine (kinds : List Kind) : List Token := kinds.map fun kind => ⟨kind, ⟨0, 0, 1, 1⟩, ""⟩

/-- The tokens of `f() = x`, which assigns to what is no target. -/
def callAssignment : List Token :=
  onLine [.ident "f", .symbol .leftParen, .symbol .rightParen, .symbol .assign, .ident "x"]

/-- The tokens of `var ok = y`. -/
def nameBinding : List Token :=
  onLine [.keyword .kwVar, .ident "ok", .symbol .assign, .ident "y"]

/-- In `f() = x; var ok = y` the variable is lost. -/
theorem readProgram_joined_lost :
    (readProgram (nameBinding ++ onLine [.eof])).1.length = 1 ∧
      surviving [callAssignment, nameBinding] = [callAssignment] ∧
      (readProgram (callAssignment ++ onLine [.symbol .semicolon] ++ nameBinding ++
        onLine [.eof])).1 = [] := by
  have hjoined : Joined [callAssignment, nameBinding]
      (callAssignment ++ onLine [.symbol .semicolon] ++ nameBinding) :=
    .cons rfl (List.cons_ne_nil _ _) (.single nameBinding)
  have hcall : Segment callAssignment := ⟨by decide, by decide, by rintro t ⟨⟩; decide⟩
  have hbinding : Segment nameBinding := ⟨by decide, by decide, by rintro t ⟨⟩; decide⟩
  have hsegs : ∀ seg ∈ [callAssignment, nameBinding], Segment seg := by
    rintro seg (_ | ⟨_, _ | ⟨_, ⟨⟩⟩⟩)
    · exact hcall
    · exact hbinding
  have hends : ∀ t ∈ onLine [.eof], t.kind = .eof := by decide
  exact ⟨rfl, rfl, (readProgram_joined hjoined hsegs hends hends).1.trans rfl⟩

end Main

end ScriptEngine.Parser
