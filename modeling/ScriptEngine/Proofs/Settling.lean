import Mathlib.Algebra.GroupWithZero.Nat
import ScriptEngine.Parser.Program
/-!
# Parsers that a budget is enough for

A parser with a budget settles in front of tokens that count for little enough: it replies without
using the budget up, and a greater budget changes nothing.

* `Parser.State.load` : what the tokens ahead count for.
* `Parser.SettlesAt`, `Parser.Settles` : a parser with enough budget, and the same with more, reply
  alike in front of a state, and in front of all states with little enough ahead.
* `Parser.Settles.bind`, `Parser.Settles.bind_took` : one after the other, where the first may take
  nothing, and where it takes something and so leaves less for the second.
* `Parser.settlesAt_gather`, `Parser.settles_separated`, `Parser.settles_trailing`,
  `Parser.settles_levels` : the loops of the grammar.
* `Parser.SettlesAt.recover` : after a mistake something is passed over.
-/

namespace ScriptEngine.Parser

/-! ## What lies ahead -/

/-- What the tokens ahead count for in a budget. -/
def State.load (s : State) : Nat := (s.rest.map weight).sum

theorem weight_pos (t : Token) : 0 < weight t := by
  unfold weight
  split
  · exact Nat.succ_pos _
  · exact Nat.one_pos

theorem State.load_eq {s : State} (hs : s.rest ≠ []) :
    s.load = weight s.next + s.advance.load := by
  obtain ⟨t, ts, hrest⟩ := List.exists_cons_of_ne_nil hs
  simp only [load, next, advance, hrest, List.map_cons, List.sum_cons, List.headD_cons]

theorem State.load_advance_lt {s : State} (hs : s.rest ≠ []) : s.advance.load < s.load := by
  have := weight_pos s.next
  have := State.load_eq hs
  omega

/-- Whatever ends the text, the end has one kind. -/
theorem State.kind_congr {s t : State} (h : t.rest = s.rest) : t.kind = s.kind := by
  unfold State.kind State.next
  rw [h]
  cases s.rest <;> rfl

/-- The parser is where it was, or has taken something; and it is in as many blocks. -/
structure Onward (s t : State) : Prop where
  rest : t.rest = s.rest ∨ t.load < s.load
  depth : t.depth = s.depth

namespace Onward

variable {s t u : State}

theorem refl (s : State) : Onward s s := ⟨.inl rfl, rfl⟩

theorem load_le (h : Onward s t) : t.load ≤ s.load := by
  rcases h.rest with heq | hlt
  · exact Nat.le_of_eq (congrArg (fun rest => (rest.map weight).sum) heq)
  · exact Nat.le_of_lt hlt

theorem trans (h : Onward s t) (h' : Onward t u) : Onward s u := by
  refine ⟨?_, h'.depth.trans h.depth⟩
  rcases h'.rest with heq' | hlt'
  · rcases h.rest with heq | hlt
    · exact .inl (heq'.trans heq)
    · exact .inr (Nat.lt_of_le_of_lt (load_le ⟨.inl heq', h'.depth⟩) hlt)
  · exact .inr (Nat.lt_of_lt_of_le hlt' h.load_le)

theorem advance (s : State) : Onward s s.advance := by
  by_cases hs : s.rest = []
  · have hstay : s.advance = s := by simp only [State.advance, hs]
    rw [hstay]
    exact refl s
  · refine ⟨.inr (State.load_advance_lt hs), ?_⟩
    unfold State.advance
    split <;> rfl

end Onward

theorem State.rest_ne_nil {s : State} (hs : s.kind ≠ .eof) : s.rest ≠ [] := by
  rintro h
  apply hs
  rw [State.kind, State.next, h]
  rfl

/-! ## One step after another -/

section Steps

variable {α β : Type} {p : Parser α} {f : α → Parser β} {s t : State} {k : Kind}

theorem bind_of_ok {a : α} (h : p s = .ok a t) : (p >>= f) s = f a t := by
  simp only [Bind.bind, h]

theorem bind_of_error {fault : Fault} (h : p s = .error fault t) :
    (p >>= f) s = .error fault t := by
  simp only [Bind.bind, h]

theorem accept_of_eq (h : s.kind = k) : accept k s = .ok true s.advance :=
  if_pos (beq_iff_eq.mpr h)

theorem accept_of_ne (h : s.kind ≠ k) : accept k s = .ok false s :=
  if_neg (mt beq_iff_eq.mp h)

theorem expect_of_eq {wanted : String} (h : s.kind = k) :
    expect k wanted s = .ok s.next s.advance :=
  if_pos (beq_iff_eq.mpr h)

theorem expect_of_ne {wanted : String} (h : s.kind ≠ k) : expect k wanted s = unexpected wanted s :=
  if_neg (mt beq_iff_eq.mp h)

end Steps

/-! ## Parsers that a budget is enough for -/

section Settling

variable {α β : Type} {n m d : Nat} {p p' : Parser α} {f f' : α → Parser β} {s : State}

/-- The reply is not that the budget is used up, and if it is a value tokens that count for `d` were
taken. -/
def Settled (d : Nat) (s : State) : Reply α → Prop
  | .ok _ t => Onward s t ∧ t.load + d ≤ s.load
  | .error _ t => Onward s t
  | .exhausted => False

/-- From the state both parsers reply alike, and their budgets are enough. -/
def SettlesAt (d : Nat) (p p' : Parser α) (s : State) : Prop := Settled d s (p s) ∧ p' s = p s

/-- In front of tokens that count for less than `n` both parsers reply alike, and their budgets are
enough. -/
def Settles (n d : Nat) (p p' : Parser α) : Prop := ∀ s : State, s.load < n → SettlesAt d p p' s

/-- What is settled further on is settled here. -/
theorem SettlesAt.before {e : Nat} {q q' : Parser α} {t : State} (ht : Onward s t)
    (hload : t.load + d ≤ s.load) (hq : SettlesAt e q q' t) (hp : p s = q t) (hp' : p' s = q' t) :
    SettlesAt (d + e) p p' s := by
  obtain ⟨hsettled, heq⟩ := hq
  unfold SettlesAt
  rw [hp, hp', heq]
  refine ⟨?_, rfl⟩
  cases hreply : q t with
  | ok a u =>
    rw [hreply] at hsettled
    exact ⟨ht.trans hsettled.1, by have := hsettled.2; omega⟩
  | error fault u =>
    rw [hreply] at hsettled
    exact ht.trans hsettled
  | exhausted =>
    rw [hreply] at hsettled
    exact hsettled

theorem SettlesAt.congr {q q' : Parser α} (hq : SettlesAt d q q' s) (hp : p s = q s)
    (hp' : p' s = q' s) : SettlesAt d p p' s := by
  unfold SettlesAt
  rw [hp, hp']
  exact hq

theorem SettlesAt.bind {e : Nat} (hp : SettlesAt d p p' s)
    (hf : ∀ a t, Onward s t → t.load + d ≤ s.load → SettlesAt e (f a) (f' a) t) :
    SettlesAt (d + e) (p >>= f) (p' >>= f') s := by
  obtain ⟨hsettled, heq⟩ := hp
  cases hreply : p s with
  | ok a t =>
    rw [hreply] at hsettled heq
    exact (hf a t hsettled.1 hsettled.2).before hsettled.1 hsettled.2 (bind_of_ok hreply)
      (bind_of_ok heq)
  | error fault t =>
    rw [hreply] at hsettled heq
    unfold SettlesAt
    rw [bind_of_error hreply, bind_of_error heq]
    exact ⟨hsettled, rfl⟩
  | exhausted =>
    rw [hreply] at hsettled
    exact hsettled.elim

theorem SettlesAt.weaken (h : SettlesAt 1 p p' s) : SettlesAt 0 p p' s := by
  refine ⟨?_, h.2⟩
  have := h.1
  cases hreply : p s with
  | ok a t =>
    rw [hreply] at this
    exact ⟨this.1, this.1.load_le⟩
  | error e t => rw [hreply] at this; exact this
  | exhausted => rw [hreply] at this; exact this

namespace Settles

theorem mono (h : Settles n d p p') (hm : m ≤ n) : Settles m d p p' :=
  fun s hs => h s (Nat.lt_of_lt_of_le hs hm)

theorem weaken (h : Settles n 1 p p') : Settles n 0 p p' := fun s hs => (h s hs).weaken

theorem pure (a : α) : Settles n 0 (pure a) (pure a) := fun s _ => ⟨⟨.refl s, Nat.le_refl _⟩, rfl⟩

theorem fail (fault : Fault) : Settles n d (fail fault : Parser α) (fail fault) :=
  fun s _ => ⟨.refl s, rfl⟩

theorem unexpected (wanted : String) :
    Settles n d (unexpected wanted : Parser α) (unexpected wanted) :=
  fun s _ => ⟨.refl s, rfl⟩

/-- One after the other, where only the second has to take something. -/
theorem bind (hp : Settles n 0 p p') (hf : ∀ a, Settles n d (f a) (f' a)) :
    Settles n d (p >>= f) (p' >>= f') := by
  intro s hs
  rw [← Nat.zero_add d]
  exact (hp s hs).bind fun a t ht _ => hf a t (Nat.lt_of_le_of_lt ht.load_le hs)

/-- One after the other, where the first takes something and so leaves less for the second. -/
theorem bind_took (hp : Settles (n + 1) 1 p p') (hf : ∀ a, Settles n 0 (f a) (f' a)) :
    Settles (n + 1) 1 (p >>= f) (p' >>= f') :=
  fun s hs => (hp s hs).bind (e := 0) fun a t _ ht => hf a t (by omega)

theorem map (g : α → β) (hp : Settles n 0 p p') : Settles n 0 (g <$> p) (g <$> p') :=
  hp.bind fun a => pure (g a)

/-! ### Single tokens -/

theorem peek : Settles n 0 peek peek := fun s _ => ⟨⟨.refl s, Nat.le_refl _⟩, rfl⟩

theorem state : Settles n 0 state state := fun s _ => ⟨⟨.refl s, Nat.le_refl _⟩, rfl⟩

theorem check (k : Kind) : Settles n 0 (check k) (check k) :=
  fun s _ => ⟨⟨.refl s, Nat.le_refl _⟩, rfl⟩

theorem take : Settles n 0 take take :=
  fun s _ => ⟨⟨.advance s, (Onward.advance s).load_le⟩, rfl⟩

theorem accept (k : Kind) : Settles n 0 (accept k) (accept k) := by
  intro s _
  refine ⟨?_, rfl⟩
  unfold Parser.accept
  split
  · exact ⟨.advance s, (Onward.advance s).load_le⟩
  · exact ⟨.refl s, Nat.le_refl _⟩

theorem expect {k : Kind} (hk : k ≠ .eof) (wanted : String) :
    Settles n 1 (expect k wanted) (expect k wanted) := by
  intro s _
  refine ⟨?_, rfl⟩
  unfold Parser.expect
  split
  · rename_i hkind
    have hrest : s.rest ≠ [] := State.rest_ne_nil (by rw [beq_iff_eq.mp hkind]; exact hk)
    exact ⟨.advance s, State.load_advance_lt hrest⟩
  · exact .refl s

theorem expectMark (mark : Symbol) (wanted : String) :
    Settles n 1 (expectMark mark wanted) (expectMark mark wanted) := by
  unfold Parser.expectMark
  exact expect (by simp) wanted

theorem expectName (wanted : String) : Settles n 1 (expectName wanted) (expectName wanted) := by
  intro s _
  refine ⟨?_, rfl⟩
  unfold Parser.expectName
  split
  · rename_i name hkind
    exact ⟨.advance s, State.load_advance_lt (State.rest_ne_nil (by rw [hkind]; nofun))⟩
  · exact .refl s

end Settles

namespace SettlesAt

theorem pure_bind {a : α} (h : SettlesAt d (f a) (f' a) s) :
    SettlesAt d (Pure.pure a >>= f) (Pure.pure a >>= f') s :=
  h

theorem peek {g g' : Token → Parser β} (h : SettlesAt d (g s.next) (g' s.next) s) :
    SettlesAt d (Parser.peek >>= g) (Parser.peek >>= g') s :=
  h

theorem state {g g' : State → Parser β} (h : SettlesAt d (g s) (g' s) s) :
    SettlesAt d (Parser.state >>= g) (Parser.state >>= g') s :=
  h

/-- A token that is there is taken. -/
theorem take {k : Kind} {g g' : Token → Parser β} (hkind : s.kind = k) (hk : k ≠ .eof)
    (hload : s.load < n + 1) (hg : ∀ t, Settles n 0 (g t) (g' t)) :
    SettlesAt 1 (Parser.take >>= g) (Parser.take >>= g') s := by
  have hlt := State.load_advance_lt (State.rest_ne_nil (hkind ▸ hk))
  exact (hg s.next s.advance (by omega)).before (.advance s) hlt rfl rfl

/-- A token of the kind is taken, or the reading goes on in front of another. -/
theorem accept {k : Kind} {g g' : Bool → Parser β} (hd : d ≤ 1) (hk : k ≠ .eof)
    (hload : s.load < n + 1) (htrue : Settles n 0 (g true) (g' true))
    (hfalse : s.kind ≠ k → SettlesAt d (g false) (g' false) s) :
    SettlesAt d (Parser.accept k >>= g) (Parser.accept k >>= g') s := by
  by_cases hkind : s.kind = k
  · have hne : s.kind ≠ .eof := hkind ▸ hk
    have hlt := State.load_advance_lt (State.rest_ne_nil hne)
    have haccept := accept_of_eq hkind
    exact (htrue s.advance (by omega)).before (.advance s) (Nat.le_trans (Nat.add_le_add_left hd _)
      hlt)
      (bind_of_ok haccept) (bind_of_ok haccept)
  · have haccept := accept_of_ne hkind
    exact (hfalse hkind).congr (bind_of_ok haccept) (bind_of_ok haccept)

end SettlesAt

theorem Settles.ite {c : Prop} [Decidable c] {q q' : Parser α} (hp : Settles n d p p')
    (hq : Settles n d q q') : Settles n d (if c then p else q) (if c then p' else q') := by
  split
  · exact hp
  · exact hq

/-- Either way the same goes on. -/
theorem Settles.ite_bind {c : Prop} [Decidable c] {q q' : Parser α} (hp : Settles n 0 p p')
    (hq : Settles n 0 q q') (hf : ∀ a, Settles n d (f a) (f' a)) :
    Settles n d (if c then p >>= f else q >>= f) (if c then p' >>= f' else q' >>= f') :=
  .ite (.bind hp hf) (.bind hq hf)

/-! ### Loops -/

section Loops

/-- A loop whose step takes something unless it is the last. -/
theorem settlesAt_gather {step step' : Parser (Option (List α))} (hm : n ≤ m) (hs : s.load < n)
    (hstep : ∀ t, Onward s t →
      (step t = .ok none t ∧ step' t = .ok none t) ∨ SettlesAt 1 step step' t) :
    SettlesAt 0 (gather step n) (gather step' m) s := by
  induction n generalizing m s with
  | zero => exact absurd hs (Nat.not_lt_zero _)
  | succ n ih =>
    obtain ⟨m, rfl⟩ := Nat.exists_eq_add_of_lt hm
    unfold gather
    rcases hstep s (.refl s) with ⟨hlast, hlast'⟩ | hnext
    · have hdone : SettlesAt 0 (pure ([] : List α)) (pure []) s := Settles.pure [] s hs
      exact hdone.congr (bind_of_ok hlast) (bind_of_ok hlast')
    · refine (hnext.bind (e := 0) fun items t ht hload => ?_).weaken
      cases items with
      | none => exact Settles.pure [] t (Nat.lt_of_le_of_lt ht.load_le hs)
      | some items =>
        have hrest := ih (Nat.le_add_right n m) (Nat.lt_of_lt_of_le hload (Nat.le_of_lt_succ hs))
          fun u hu => hstep u (ht.trans hu)
        exact hrest.bind fun more u hu _ =>
          Settles.pure (items ++ more) u (Nat.lt_of_le_of_lt hu.load_le (Nat.lt_succ_self _))

theorem settles_separated {what : String} {item item' : Parser α} (hitem : Settles n 1 item item')
    (room : Nat) : Settles n 0 (separated what item room) (separated what item' room) := by
  induction room with
  | zero => exact .bind .peek fun _ => .fail _
  | succ room ih =>
    exact .bind hitem.weaken fun a => .bind (.accept _) fun _ =>
      .ite (.bind ih fun _ => .pure _) (.pure _)

theorem settles_trailing (close : Symbol) {item item' : Parser α} (hitem : Settles n 1 item item')
    {k k' : Nat} (hk : k ≤ n) (hle : k ≤ k') :
    Settles k 0 (trailing close item k) (trailing close item' k') := by
  induction k generalizing k' with
  | zero => exact fun s hs => absurd hs (Nat.not_lt_zero _)
  | succ k ih =>
    obtain ⟨k', rfl⟩ := Nat.exists_eq_add_of_lt hle
    have hrest := ih (Nat.le_of_succ_le hk) (Nat.le_add_right k k')
    refine (Settles.bind_took (hitem.mono hk) fun a => ?_).weaken
    exact .bind (.accept _) fun _ =>
      .ite (.bind (.check _) fun _ => .ite (.pure _) (.bind hrest fun _ => .pure _)) (.pure _)

section Levels

variable {operator? : Kind → Option (Expr → Expr → Expr)} {operand operand' : Parser Expr}

theorem settles_chainFrom (heof : operator? .eof = none) (hoperand : Settles n 1 operand operand')
    {k k' : Nat} (hk : k ≤ n) (hle : k ≤ k') (left : Expr) :
    Settles k 0 (chainFrom operator? operand k left) (chainFrom operator? operand' k' left) := by
  induction k generalizing k' left with
  | zero => exact fun s hs => absurd hs (Nat.not_lt_zero _)
  | succ k ih =>
    obtain ⟨k', rfl⟩ := Nat.exists_eq_add_of_lt hle
    have hrest := ih (Nat.le_of_succ_le hk) (Nat.le_add_right k k')
    intro s hs
    refine .peek ?_
    cases hop : operator? s.next.kind with
    | none => exact Settles.pure left s hs
    | some combine =>
      have hne : s.next.kind ≠ .eof := by
        intro hkind
        rw [hkind, heof] at hop
        cases hop
      exact (SettlesAt.take rfl hne hs fun _ =>
        .bind (hoperand.mono (Nat.le_of_succ_le hk)).weaken fun _ => hrest _).weaken

theorem settles_chain (heof : operator? .eof = none)
    (hoperand : Settles (n + 1) 1 operand operand') (hn : n ≤ m) :
    Settles (n + 1) 1 (chain operator? operand n) (chain operator? operand' m) :=
  .bind_took hoperand fun left =>
    settles_chainFrom heof (hoperand.mono (Nat.le_succ n)) (Nat.le_refl n) hn left

/-- Every level takes an operand first. -/
theorem settles_levels (hn : n ≤ m) (levels : List (List (Symbol × (Expr → Expr → Expr))))
    (hoperand : Settles (n + 1) 1 operand operand') :
    Settles (n + 1) 1
      (levels.foldl (fun operand operators => chain (operatorIn operators) operand n) operand)
      (levels.foldl (fun operand operators => chain (operatorIn operators) operand m)
        operand') := by
  induction levels generalizing operand operand' with
  | nil => exact hoperand
  | cons operators levels ih => exact ih (settles_chain rfl hoperand hn)

end Levels

end Loops

/-- Inside a block the parser is one block deeper, and afterwards as deep as before. -/
theorem SettlesAt.nested (h : SettlesAt d p p' { s with depth := s.depth + 1 }) :
    SettlesAt d (Parser.nested p) (Parser.nested p') s := by
  obtain ⟨hsettled, heq⟩ := h
  unfold SettlesAt Parser.nested
  rw [heq]
  refine ⟨?_, rfl⟩
  have hback {t : State} (ht : Onward { s with depth := s.depth + 1 } t) :
      Onward s { t with depth := t.depth - 1 } :=
    ⟨ht.rest, by rw [ht.depth]; rfl⟩
  cases hreply : p { s with depth := s.depth + 1 } with
  | ok a t =>
    rw [hreply] at hsettled
    exact ⟨hback hsettled.1, hsettled.2⟩
  | error fault t =>
    rw [hreply] at hsettled
    exact hback hsettled
  | exhausted =>
    rw [hreply] at hsettled
    exact hsettled

/-! ### Recovery -/

theorem load_skipFrom_le (previous : Option Token) (tokens : List Token) :
    ((skipFrom previous tokens).2.map weight).sum ≤ (tokens.map weight).sum := by
  induction tokens generalizing previous with
  | nil => exact Nat.le_refl _
  | cons t ts ih =>
    unfold skipFrom
    split
    · exact Nat.le_refl _
    · rw [List.map_cons, List.sum_cons]
      exact Nat.le_trans (ih _) (Nat.le_add_left _ _)

/-- Where reading goes on: behind the next token, unless that closes the block. -/
theorem State.exists_resume (s : State) : ∃ t : State,
    t = (if 0 < s.depth && s.kind == .symbol .rightBrace then s else s.advance) ∧
      s.resume.load ≤ t.load ∧ s.resume.depth = t.depth :=
  ⟨_, rfl, load_skipFrom_le _ _, rfl⟩

theorem State.depth_advance (s : State) : s.advance.depth = s.depth := (Onward.advance s).depth

theorem State.resume_le (s : State) : s.resume.load ≤ s.load ∧ s.resume.depth = s.depth := by
  obtain ⟨t, ht, hload, hdepth⟩ := s.exists_resume
  split at ht <;> subst ht
  · exact ⟨hload, hdepth⟩
  · exact ⟨Nat.le_trans hload (Onward.advance s).load_le, hdepth.trans s.depth_advance⟩

/-- Something is passed over, unless a brace closes the block. -/
theorem State.load_resume_lt {s : State} (hs : s.rest ≠ [])
    (hbrace : s.kind = .symbol .rightBrace → s.depth = 0) : s.resume.load < s.load := by
  obtain ⟨t, ht, hload, -⟩ := s.exists_resume
  split at ht <;> subst ht
  · next hstay =>
    rw [Bool.and_eq_true, beq_iff_eq, decide_eq_true_eq] at hstay
    exact absurd (hbrace hstay.2) (Nat.ne_of_gt hstay.1)
  · exact Nat.lt_of_le_of_lt hload (State.load_advance_lt hs)

/-- Either something was read or something is passed over. -/
theorem SettlesAt.recover (hp : SettlesAt 1 p p' s) (hs : s.rest ≠ [])
    (hbrace : s.kind = .symbol .rightBrace → s.depth = 0) :
    SettlesAt 1 (Parser.recover p) (Parser.recover p') s := by
  obtain ⟨hsettled, heq⟩ := hp
  unfold SettlesAt Parser.recover
  rw [heq]
  refine ⟨?_, rfl⟩
  cases hreply : p s with
  | ok a t =>
    rw [hreply] at hsettled
    exact hsettled
  | error fault t =>
    rw [hreply] at hsettled
    have hsettled : Onward s t := hsettled
    let u : State := { t with recorded := fault :: t.recorded }
    have hlt : u.resume.load < s.load := by
      rcases hsettled.rest with hrest | hload
      · have hload : u.load = s.load := congrArg (fun rest => (rest.map weight).sum) hrest
        have hkind : u.kind = s.kind := State.kind_congr hrest
        rw [← hload]
        exact State.load_resume_lt (hrest ▸ hs) fun h => hsettled.depth.trans (hbrace (hkind ▸ h))
      · exact Nat.lt_of_le_of_lt u.resume_le.1 hload
    exact ⟨⟨.inr hlt, u.resume_le.2.trans hsettled.depth⟩, hlt⟩
  | exhausted =>
    rw [hreply] at hsettled
    exact hsettled

end Settling

end ScriptEngine.Parser
