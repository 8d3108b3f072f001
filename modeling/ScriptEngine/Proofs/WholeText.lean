import ScriptEngine.Proofs.Sufficiency
/-!
# Whole texts

The budget of a whole text is enough for it, so what is read does not depend on it: statements are
read one after another, and one that cannot be read is recorded and passed over.

* `Parser.nextStatement` : a statement, read with a budget that is enough.
* `Parser.ReadsAll` : how a whole text is read, without a budget.
* `Parser.exists_readProgram` : a program is what is read so.
-/

namespace ScriptEngine.Parser

/-! ## Reading without a budget -/

/-- A statement, read with a budget that is enough for the tokens ahead. -/
def nextStatement (s : State) : Reply Stmt := anyStatement (productions s.load) s.load s

theorem settlesAt_nextStatement (s : State) {n : Nat} (hn : s.load ≤ n) :
    SettlesAt 1 nextStatement (anyStatement (productions n) n) s :=
  (settles_anyStatement (productions_settle hn) hn s (Nat.lt_succ_self _)).congr rfl rfl

theorem nextStatement_ne_exhausted (s : State) : nextStatement s ≠ .exhausted := by
  intro h
  have hsettled := (settlesAt_nextStatement s (Nat.le_refl _)).1
  rw [h] at hsettled
  exact hsettled

/-- The state after a mistake. -/
def State.afterFault (s : State) (f : Fault) : State :=
  { s with recorded := f :: s.recorded }.resume

/-- All statements from a state on, and the state at the end: a statement that cannot be read is
recorded and passed over. -/
inductive ReadsAll : State → List Stmt → State → Prop
  | done {s : State} (hs : s.kind = .eof) : ReadsAll s [] s
  | semicolon {s t : State} {stmts : List Stmt} (hs : s.kind = .symbol .semicolon)
      (h : ReadsAll s.advance stmts t) : ReadsAll s stmts t
  | statement {s t u : State} {stmt : Stmt} {stmts : List Stmt} (hs : s.kind ≠ .eof)
      (hmark : s.kind ≠ .symbol .semicolon) (hnext : nextStatement s = .ok stmt t)
      (h : ReadsAll t stmts u) : ReadsAll s (stmt :: stmts) u
  | mistake {s t u : State} {f : Fault} {stmts : List Stmt} (hs : s.kind ≠ .eof)
      (hmark : s.kind ≠ .symbol .semicolon) (hnext : nextStatement s = .error f t)
      (h : ReadsAll (t.afterFault f) stmts u) : ReadsAll s stmts u

theorem ReadsAll.unique {s t t' : State} {stmts stmts' : List Stmt} (h : ReadsAll s stmts t)
    (h' : ReadsAll s stmts' t') : stmts = stmts' ∧ t = t' := by
  induction h generalizing stmts' t' with
  | done hs =>
    cases h' with
    | done => exact ⟨rfl, rfl⟩
    | semicolon hs' => exact absurd (hs.symm.trans hs') (by simp)
    | statement hs' | mistake hs' => exact absurd hs hs'
  | semicolon hs _ ih =>
    cases h' with
    | done hs' => exact absurd (hs.symm.trans hs') (by simp)
    | semicolon _ h' => exact ih h'
    | statement _ hmark | mistake _ hmark => exact absurd hs hmark
  | statement hs hmark hnext _ ih =>
    cases h' with
    | done hs' => exact absurd hs' hs
    | semicolon hs' => exact absurd hs' hmark
    | statement _ _ hnext' h' =>
      obtain ⟨rfl, rfl⟩ := Reply.ok.inj (hnext.symm.trans hnext')
      obtain ⟨rfl, rfl⟩ := ih h'
      exact ⟨rfl, rfl⟩
    | mistake _ _ hnext' => cases hnext.symm.trans hnext'
  | mistake hs hmark hnext _ ih =>
    cases h' with
    | done hs' => exact absurd hs' hs
    | semicolon hs' => exact absurd hs' hmark
    | statement _ _ hnext' => cases hnext.symm.trans hnext'
    | mistake _ _ hnext' h' =>
      obtain ⟨rfl, rfl⟩ := Reply.error.inj (hnext.symm.trans hnext')
      exact ih h'

/-- Nothing stops a whole text but its end. -/
def nowhere : Kind → Bool := fun _ => false

/-- With a budget above what the tokens ahead count for, a whole text is read. -/
theorem exists_readsAll {n m : Nat} {s : State} (hm : m ≤ n) (hs : s.load < m)
    (hdepth : s.depth = 0) :
    ∃ stmts t, gather (step (productions n) nowhere) m s = .ok stmts t ∧ ReadsAll s stmts t := by
  induction m generalizing s with
  | zero => exact absurd hs (Nat.not_lt_zero _)
  | succ m ih =>
    by_cases heof : s.kind = .eof
    · have hstep : step (productions n) nowhere s = .ok none s := step_of_end (.inl heof)
      exact ⟨[], s, bind_of_ok hstep, .done heof⟩
    have hrest := State.rest_ne_nil heof
    by_cases hmark : s.kind = .symbol .semicolon
    · have hstep : step (productions n) nowhere s = .ok (some []) s.advance :=
        step_of_semicolon hmark rfl
      have hload := State.load_advance_lt hrest
      obtain ⟨stmts, t, hgather, hreads⟩ :=
        ih (Nat.le_of_succ_le hm) (by omega) (s.depth_advance.trans hdepth)
      exact ⟨stmts, t, (bind_of_ok hstep).trans (bind_of_ok hgather), .semicolon hmark hreads⟩
    obtain ⟨n, rfl⟩ : ∃ k, n = k + 1 := ⟨n - 1, by omega⟩
    obtain ⟨hsettled, hsame⟩ :=
      (settlesAt_nextStatement s (show s.load ≤ n by omega)).recover hrest fun _ => hdepth
    have hdeclaration : (productions (n + 1)).declaration s = recover nextStatement s := hsame
    have hstep := step_of_declaration (productions (n + 1)) nowhere heof rfl hmark
    cases hnext : nextStatement s with
    | ok stmt t =>
      have hrecover : recover nextStatement s = .ok (some stmt) t := by simp only [recover, hnext]
      rw [hrecover] at hsettled hdeclaration
      have hdepth' : t.depth = 0 := hsettled.1.depth.trans hdepth
      have hload : t.load < s.load := hsettled.2
      obtain ⟨stmts, u, hgather, hreads⟩ := ih (Nat.le_of_succ_le hm) (by omega) hdepth'
      exact ⟨stmt :: stmts, u, (bind_of_ok (hstep.trans (bind_of_ok hdeclaration))).trans
        (bind_of_ok hgather), .statement heof hmark hnext hreads⟩
    | error f t =>
      have hrecover : recover nextStatement s = .ok none (t.afterFault f) := by
        simp only [recover, hnext]
        rfl
      rw [hrecover] at hsettled hdeclaration
      have hdepth' : (t.afterFault f).depth = 0 := hsettled.1.depth.trans hdepth
      have hload : (t.afterFault f).load < s.load := hsettled.2
      obtain ⟨stmts, u, hgather, hreads⟩ := ih (Nat.le_of_succ_le hm) (by omega) hdepth'
      exact ⟨stmts, u, (bind_of_ok (hstep.trans (bind_of_ok hdeclaration))).trans
        (bind_of_ok hgather), .mistake heof hmark hnext hreads⟩
    | exhausted => exact absurd hnext (nextStatement_ne_exhausted s)

theorem load_ofTokens_lt (tokens : List Token) : (State.ofTokens tokens).load < budget tokens := by
  induction tokens with
  | nil => exact Nat.two_pos
  | cons t tokens ih =>
    have hcons := Token.load_ofTokens_cons_le t tokens
    have hbudget : budget (t :: tokens) = weight t + budget tokens := rfl
    omega

/-- The budget of a whole text is enough: its statements and its faults are what is read. -/
theorem readProgram_of_readsAll {tokens : List Token} {stmts : List Stmt} {t : State}
    (h : ReadsAll (.ofTokens tokens) stmts t) :
    readProgram tokens = (stmts, t.recorded.reverse) := by
  obtain ⟨stmts', t', hgather, h'⟩ :=
    exists_readsAll (Nat.le_refl _) (load_ofTokens_lt tokens) rfl
  obtain ⟨rfl, rfl⟩ := h.unique h'
  have hsequence : sequence (productions (budget tokens)) (budget tokens) (fun _ => false)
      (.ofTokens tokens) = .ok stmts t := hgather
  rw [readProgram, hsequence]

theorem exists_readProgram (tokens : List Token) :
    ∃ stmts t, ReadsAll (.ofTokens tokens) stmts t ∧
      readProgram tokens = (stmts, t.recorded.reverse) := by
  obtain ⟨stmts, t, -, h⟩ := exists_readsAll (Nat.le_refl _) (load_ofTokens_lt tokens) rfl
  exact ⟨stmts, t, h, readProgram_of_readsAll h⟩

end ScriptEngine.Parser
