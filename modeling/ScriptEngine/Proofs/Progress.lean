import ScriptEngine.Proofs.Recovery
/-!
# How a parser moves over its tokens

A parser moves forward over the tokens and comes back to the block it started in, whether it
replies with a value or with a fault and whatever its budget is. On the way it never gains: a
fault is recorded only where a token is passed for it.

* `Parser.Travels` : forward over some tokens, to the same depth of blocks.
* `Parser.State.tally` : the tokens ahead and the faults recorded so far.
* `Parser.Keeps`, `Parser.Takes` : a parser that travels without adding to the tally, and one that
  also takes something from it, or else fails where it stands.
* `Parser.Keeps.bind`, `Parser.Takes.bind`, `Parser.keeps_trailing`, `Parser.takes_levels`, … :
  one rule for each way to put parsers together.
* `Parser.travels_recover`, `Parser.counts_recover` : what a mistake costs.
-/

namespace ScriptEngine.Parser

/-! ## Moving forward -/

/-- From the first state the parser passed some tokens, and it is in as many blocks. -/
structure Travels (s t : State) : Prop where
  depth : t.depth = s.depth
  stop : t.stop = s.stop
  passed : ∃ passed, s.rest = passed ++ t.rest ∧ t.previous = passed.getLast?.or s.previous

namespace Travels

variable {s t u : State}

theorem refl (s : State) : Travels s s := ⟨rfl, rfl, [], rfl, rfl⟩

theorem trans (h : Travels s t) (h' : Travels t u) : Travels s u := by
  obtain ⟨passed, hrest, hprevious⟩ := h.passed
  obtain ⟨passed', hrest', hprevious'⟩ := h'.passed
  refine ⟨h'.depth.trans h.depth, h'.stop.trans h.stop, passed ++ passed', ?_, ?_⟩
  · rw [hrest, hrest', List.append_assoc]
  · rw [hprevious', hprevious, List.getLast?_append, Option.or_assoc]

theorem advance (s : State) : Travels s s.advance := by
  unfold State.advance
  cases hrest : s.rest with
  | nil => exact refl s
  | cons t ts => exact ⟨rfl, rfl, [t], hrest, rfl⟩

/-- Recording a fault is no move. -/
theorem record (s : State) (recorded : List Fault) : Travels s { s with recorded } :=
  ⟨rfl, rfl, [], rfl, rfl⟩

theorem length_le (h : Travels s t) : t.rest.length ≤ s.rest.length := by
  obtain ⟨passed, hrest, -⟩ := h.passed
  rw [hrest, List.length_append]
  exact Nat.le_add_left _ _

end Travels

theorem exists_skipFrom (previous : Option Token) (tokens : List Token) :
    ∃ passed, tokens = passed ++ (skipFrom previous tokens).2 ∧
      (skipFrom previous tokens).1 = passed.getLast?.or previous := by
  induction tokens generalizing previous with
  | nil => exact ⟨[], rfl, rfl⟩
  | cons t ts ih =>
    unfold skipFrom
    split
    · exact ⟨[], rfl, rfl⟩
    · obtain ⟨passed, hrest, hprevious⟩ := ih (some t)
      refine ⟨t :: passed, congrArg (t :: ·) hrest, ?_⟩
      rw [hprevious, List.getLast?_cons]
      cases passed.getLast? <;> rfl

/-- Where reading goes on: behind the next token, unless that closes the block; and from there
further tokens may be passed. -/
theorem State.travels_resume (s : State) :
    Travels (if 0 < s.depth && s.kind == .symbol .rightBrace then s else s.advance) s.resume :=
  ⟨rfl, rfl, exists_skipFrom _ _⟩

theorem Travels.resume (s : State) : Travels s s.resume := by
  have hgo := s.travels_resume
  split at hgo
  · exact hgo
  · exact (advance s).trans hgo

theorem Travels.afterFault (s : State) (f : Fault) : Travels s (s.afterFault f) :=
  (record s _).trans (resume _)

theorem State.length_advance {s : State} (hs : s.rest ≠ []) :
    s.advance.rest.length + 1 = s.rest.length := by
  obtain ⟨t, ts, hrest⟩ := List.exists_cons_of_ne_nil hs
  simp only [advance, hrest, List.length_cons]

/-- Something is passed over, unless a brace closes the block. -/
theorem State.length_resume_lt {s : State} (hs : s.rest ≠ [])
    (hbrace : s.kind = .symbol .rightBrace → s.depth = 0) :
    s.resume.rest.length < s.rest.length := by
  have hgo := s.travels_resume.length_le
  have hnext := State.length_advance hs
  split at hgo
  · next hstay =>
    rw [Bool.and_eq_true, beq_iff_eq, decide_eq_true_eq] at hstay
    exact absurd (hbrace hstay.2) (Nat.ne_of_gt hstay.1)
  · omega

/-! ## What is ahead and what went wrong -/

/-- The tokens ahead and the faults recorded so far. -/
def State.tally (s : State) : Nat := s.rest.length + s.recorded.length

theorem State.tally_advance_lt {s : State} (hs : s.rest ≠ []) : s.advance.tally < s.tally := by
  have hlength := State.length_advance hs
  have hrecorded : s.advance.recorded = s.recorded := by
    unfold advance
    split <;> rfl
  unfold tally
  rw [hrecorded]
  omega

theorem State.tally_advance_le (s : State) : s.advance.tally ≤ s.tally := by
  by_cases hs : s.rest = []
  · have hstay : s.advance = s := by simp only [State.advance, hs]
    exact Nat.le_of_eq (congrArg State.tally hstay)
  · exact Nat.le_of_lt (State.tally_advance_lt hs)

section Predicates

variable {α β : Type} {p : Parser α} {f : α → Parser β} {s t u : State}

/-- The parser travelled without adding to the tally. -/
def Kept (s : State) : Reply α → Prop
  | .ok _ t => Travels s t ∧ t.tally ≤ s.tally
  | .error _ t => Travels s t ∧ t.tally ≤ s.tally
  | .exhausted => True

/-- The parser travelled and took something, or it failed where it stood. -/
def Took (s : State) : Reply α → Prop
  | .ok _ t => Travels s t ∧ t.tally < s.tally
  | .error _ t => Travels s t ∧ ((t.rest = s.rest ∧ t.recorded = s.recorded) ∨ t.tally < s.tally)
  | .exhausted => True

/-- From everywhere the parser travels without adding to the tally. -/
def Keeps (p : Parser α) : Prop := ∀ s, Kept s (p s)

/-- From the state the parser travels and takes something, or it fails where it stands. -/
def TakesAt (p : Parser α) (s : State) : Prop := Took s (p s)

/-- From everywhere the parser travels and takes something, or it fails where it stands. -/
def Takes (p : Parser α) : Prop := ∀ s, TakesAt p s

/-- The same for a parser that takes the next token first, whatever it is. At the end there is
none, and it may succeed without having taken something. -/
structure TakesNext (p : Parser α) : Prop where
  keeps : Keeps p
  takes : ∀ s : State, s.kind ≠ .eof → TakesAt p s

theorem Took.kept {r : Reply α} (h : Took s r) : Kept s r := by
  cases r with
  | ok a t => exact ⟨h.1, Nat.le_of_lt h.2⟩
  | error fault t =>
    refine ⟨h.1, ?_⟩
    rcases h.2 with ⟨hrest, hrecorded⟩ | hlt
    · exact Nat.le_of_eq (by rw [State.tally, hrest, hrecorded, State.tally])
    · exact Nat.le_of_lt hlt
  | exhausted => trivial

/-- What is kept further on is kept from here. -/
theorem Kept.before {r : Reply α} (ht : Travels s t) (hle : t.tally ≤ s.tally) (h : Kept t r) :
    Kept s r := by
  cases r with
  | ok a u => exact ⟨ht.trans h.1, Nat.le_trans h.2 hle⟩
  | error fault u => exact ⟨ht.trans h.1, Nat.le_trans h.2 hle⟩
  | exhausted => trivial

/-- What follows a token that was taken need not take anything. -/
theorem Kept.took {r : Reply α} (ht : Travels s t) (hlt : t.tally < s.tally) (h : Kept t r) :
    Took s r := by
  cases r with
  | ok a u => exact ⟨ht.trans h.1, Nat.lt_of_le_of_lt h.2 hlt⟩
  | error fault u => exact ⟨ht.trans h.1, .inr (Nat.lt_of_le_of_lt h.2 hlt)⟩
  | exhausted => trivial

theorem bind_of_exhausted (h : p s = .exhausted) : (p >>= f) s = .exhausted := by
  simp only [Bind.bind, h]

theorem TakesAt.bind (hp : TakesAt p s) (hf : ∀ a, Keeps (f a)) : TakesAt (p >>= f) s := by
  unfold TakesAt at hp ⊢
  cases hreply : p s with
  | ok a t =>
    rw [hreply] at hp
    rw [bind_of_ok hreply]
    exact (hf a t).took hp.1 hp.2
  | error fault t =>
    rw [hreply] at hp
    rw [bind_of_error hreply]
    exact hp
  | exhausted =>
    rw [bind_of_exhausted hreply]
    trivial

namespace Keeps

theorem bind (hp : Keeps p) (hf : ∀ a, Keeps (f a)) : Keeps (p >>= f) := by
  intro s
  have hs := hp s
  cases hreply : p s with
  | ok a t =>
    rw [hreply] at hs
    rw [bind_of_ok hreply]
    exact (hf a t).before hs.1 hs.2
  | error fault t =>
    rw [hreply] at hs
    rw [bind_of_error hreply]
    exact hs
  | exhausted =>
    rw [bind_of_exhausted hreply]
    trivial

theorem stay {a : α} (s : State) : Kept s (.ok a s) := ⟨.refl s, Nat.le_refl _⟩

theorem stuck (fault : Fault) (s : State) : Kept s (.error fault s : Reply α) :=
  ⟨.refl s, Nat.le_refl _⟩

theorem pure (a : α) : Keeps (Pure.pure a) := fun s => stay s

theorem fail (fault : Fault) : Keeps (fail fault : Parser α) := fun s => stuck fault s

theorem unexpected (wanted : String) : Keeps (unexpected wanted : Parser α) := fun s => stuck _ s

theorem exhausted : Keeps (exhausted : Parser α) := fun _ => trivial

theorem map (g : α → β) (hp : Keeps p) : Keeps (g <$> p) := hp.bind fun a => pure (g a)

theorem ite {c : Prop} [Decidable c] {q : Parser α} (hp : Keeps p) (hq : Keeps q) :
    Keeps (if c then p else q) := by
  split
  · exact hp
  · exact hq

/-- Either way the same goes on. -/
theorem ite_bind {c : Prop} [Decidable c] {q : Parser α} (hp : Keeps p) (hq : Keeps q)
    (hf : ∀ a, Keeps (f a)) : Keeps (if c then p >>= f else q >>= f) :=
  .ite (hp.bind hf) (hq.bind hf)

/-! ### Single tokens -/

theorem peek : Keeps peek := fun s => stay s

theorem state : Keeps state := fun s => stay s

theorem check (k : Kind) : Keeps (check k) := fun s => stay s

theorem take : Keeps take := fun s => ⟨.advance s, s.tally_advance_le⟩

theorem accept (k : Kind) : Keeps (accept k) := by
  intro s
  unfold Parser.accept
  split
  · exact ⟨.advance s, s.tally_advance_le⟩
  · exact stay s

end Keeps

namespace Takes

theorem keeps (hp : Takes p) : Keeps p := fun s => Took.kept (hp s)

theorem bind (hp : Takes p) (hf : ∀ a, Keeps (f a)) : Takes (p >>= f) := fun s => (hp s).bind hf

theorem stuck (fault : Fault) (s : State) : Took s (.error fault s : Reply α) :=
  ⟨.refl s, .inl ⟨rfl, rfl⟩⟩

theorem expect {k : Kind} (hk : k ≠ .eof) (wanted : String) : Takes (expect k wanted) := by
  intro s
  unfold TakesAt Parser.expect
  split
  · next hkind =>
    have hrest : s.rest ≠ [] := State.rest_ne_nil (by rw [beq_iff_eq.mp hkind]; exact hk)
    exact ⟨.advance s, State.tally_advance_lt hrest⟩
  · exact stuck _ s

theorem expectMark (mark : Symbol) (wanted : String) : Takes (expectMark mark wanted) :=
  expect (by simp) wanted

theorem expectName (wanted : String) : Takes (expectName wanted) := by
  intro s
  unfold TakesAt Parser.expectName
  split
  · next name hkind =>
    exact ⟨.advance s, State.tally_advance_lt (State.rest_ne_nil (by rw [hkind]; nofun))⟩
  · exact stuck _ s

end Takes

/-- A token that is there is taken. -/
theorem TakesAt.take {g : Token → Parser β} (hs : s.kind ≠ .eof) (hg : ∀ t, Keeps (g t)) :
    TakesAt (Parser.take >>= g) s :=
  (hg s.next s.advance).took (.advance s) (State.tally_advance_lt (State.rest_ne_nil hs))

theorem TakesAt.peek {g : Token → Parser β} (h : TakesAt (g s.next) s) :
    TakesAt (Parser.peek >>= g) s :=
  h

theorem TakesAt.state {g : State → Parser β} (h : TakesAt (g s) s) :
    TakesAt (Parser.state >>= g) s :=
  h

theorem TakesNext.take {g : Token → Parser β} (hg : ∀ t, Keeps (g t)) :
    TakesNext (Parser.take >>= g) :=
  ⟨Keeps.take.bind hg, fun _ hs => .take hs hg⟩

/-! ### Loops -/

theorem keeps_separated {what : String} {item : Parser α} (hitem : Keeps item) (room : Nat) :
    Keeps (separated what item room) := by
  induction room with
  | zero => exact Keeps.peek.bind fun _ => .fail _
  | succ room ih =>
    exact hitem.bind fun a => (Keeps.accept _).bind fun _ =>
      .ite (ih.bind fun _ => .pure _) (.pure _)

theorem keeps_trailing (close : Symbol) {item : Parser α} (hitem : Keeps item) (n : Nat) :
    Keeps (trailing close item n) := by
  induction n with
  | zero => exact .exhausted
  | succ n ih =>
    exact hitem.bind fun a => (Keeps.accept _).bind fun _ =>
      .ite ((Keeps.check _).bind fun _ => .ite (.pure _) (ih.bind fun _ => .pure _)) (.pure _)

variable {operator? : Kind → Option (Expr → Expr → Expr)} {operand : Parser Expr}

theorem keeps_chainFrom (hoperand : Keeps operand) (n : Nat) (left : Expr) :
    Keeps (chainFrom operator? operand n left) := by
  induction n generalizing left with
  | zero => exact .exhausted
  | succ n ih =>
    refine Keeps.peek.bind fun token => ?_
    split
    · exact .pure left
    · exact Keeps.take.bind fun _ => hoperand.bind fun right => ih _

theorem takes_chain (hoperand : Takes operand) (n : Nat) : Takes (chain operator? operand n) :=
  hoperand.bind fun left => keeps_chainFrom hoperand.keeps n left

theorem takes_levels (n : Nat)
    (levels : List (List (Symbol × (Expr → Expr → Expr)))) (hoperand : Takes operand) :
    Takes (levels.foldl (fun operand operators => chain (operatorIn operators) operand n)
      operand) := by
  induction levels generalizing operand with
  | nil => exact hoperand
  | cons operators levels ih => exact ih (takes_chain hoperand n)

/-! ### Blocks -/

/-- Inside a block the parser is one block deeper, and afterwards as deep as before. -/
theorem Kept.nested (h : Kept { s with depth := s.depth + 1 } (p { s with depth := s.depth + 1 })) :
    Kept s (Parser.nested p s) := by
  have hback {t : State} (ht : Travels { s with depth := s.depth + 1 } t) :
      Travels s { t with depth := t.depth - 1 } :=
    ⟨by rw [ht.depth]; rfl, ht.stop, ht.passed⟩
  unfold Parser.nested
  cases hreply : p { s with depth := s.depth + 1 } with
  | ok a t =>
    rw [hreply] at h
    exact ⟨hback h.1, h.2⟩
  | error fault t =>
    rw [hreply] at h
    exact ⟨hback h.1, h.2⟩
  | exhausted => trivial

/-! ### Recovery -/

/-- The state a parser leaves behind, unless its budget was used up. -/
def Reply.state? : Reply α → Option State
  | .ok _ t => some t
  | .error _ t => some t
  | .exhausted => none

/-- Whatever happens, the parser travels. -/
def Travelled (s : State) (r : Reply α) : Prop := ∀ t ∈ r.state?, Travels s t

theorem Kept.travelled {r : Reply α} (h : Kept s r) : Travelled s r := by
  intro t ht
  cases r with
  | ok a u => exact Option.some.inj ht ▸ h.1
  | error fault u => exact Option.some.inj ht ▸ h.1
  | exhausted => cases ht

theorem travels_recover (h : Travelled s (p s)) : Travelled s (recover p s) := by
  intro t ht
  unfold recover at ht
  cases hreply : p s with
  | ok a u =>
    rw [hreply] at h ht
    exact h t ht
  | error fault u =>
    rw [hreply] at h ht
    obtain rfl := Option.some.inj ht
    exact (h u rfl).trans (.afterFault u fault)
  | exhausted =>
    rw [hreply] at ht
    cases ht

/-- The things that were read are paid for by the tally. -/
def Counts (size : α → Nat) (s : State) : Reply α → Prop
  | .ok a t => Travels s t ∧ t.tally + size a ≤ s.tally
  | .error _ t => Travels s t ∧ t.tally ≤ s.tally
  | .exhausted => True

/-- A thing that was read costs a token, and so does a fault. -/
theorem counts_recover (hp : Took s (p s)) (hs : s.rest ≠ [])
    (hbrace : s.kind = .symbol .rightBrace → s.depth = 0) :
    Counts (·.toList.length) s (recover p s) := by
  unfold recover
  cases hreply : p s with
  | ok a t =>
    rw [hreply] at hp
    exact ⟨hp.1, hp.2⟩
  | error fault t =>
    rw [hreply] at hp
    obtain ⟨htravels, htook⟩ := hp
    refine ⟨htravels.trans (.afterFault t fault), ?_⟩
    change (t.afterFault fault).tally + 0 ≤ s.tally
    unfold State.tally at htook ⊢
    rw [State.recorded_afterFault, List.length_cons]
    rcases htook with ⟨hrest, hsame⟩ | hlt
    · -- Nothing was taken yet, so the next token is passed over.
      have hkind : t.kind = s.kind := State.kind_congr hrest
      have hpass : (t.afterFault fault).rest.length < t.rest.length :=
        State.length_resume_lt (s := { t with recorded := fault :: t.recorded }) (hrest ▸ hs)
          fun h => htravels.depth.trans (hbrace (hkind ▸ h))
      rw [hrest] at hpass
      rw [hsame]
      omega
    · have hpass := (Travels.afterFault t fault).length_le
      omega
  | exhausted => trivial

theorem counts_gather {step : Parser (Option (List α))} (n : Nat) {good : State → Prop}
    (hgood : good s) (htravels : ∀ {t u}, good t → Travels t u → good u)
    (hstep : ∀ t, good t → Counts (fun items => (items.getD []).length) t (step t)) :
    Counts List.length s (gather step n s) := by
  induction n generalizing s with
  | zero => exact trivial
  | succ n ih =>
    have hs := hstep s hgood
    unfold gather
    cases hreply : step s with
    | ok items t =>
      rw [hreply] at hs
      rw [bind_of_ok hreply]
      cases items with
      | none => exact hs
      | some items =>
        have hrest := ih (htravels hgood hs.1)
        change Counts List.length s ((gather step n >>= fun more => pure (items ++ more)) t)
        cases hmore : gather step n t with
        | ok more u =>
          rw [hmore] at hrest
          rw [bind_of_ok hmore]
          refine ⟨hs.1.trans hrest.1, ?_⟩
          have hitems : t.tally + items.length ≤ s.tally := hs.2
          have hmore : u.tally + more.length ≤ t.tally := hrest.2
          rw [List.length_append]
          omega
        | error fault u =>
          rw [hmore] at hrest
          rw [bind_of_error hmore]
          have hitems : t.tally + items.length ≤ s.tally := hs.2
          exact ⟨hs.1.trans hrest.1, by have := hrest.2; omega⟩
        | exhausted =>
          rw [bind_of_exhausted hmore]
          trivial
    | error fault t =>
      rw [hreply] at hs
      rw [bind_of_error hreply]
      exact hs
    | exhausted =>
      rw [bind_of_exhausted hreply]
      trivial

end Predicates

end ScriptEngine.Parser
