import ScriptEngine.Proofs.Rendering
/-!
# What parsers take

A parser is described by the kinds of the tokens it takes in front of others, and by what it makes
of them. Tokens on one line differ in nothing else that the grammar looks at.

* `Parser.State.Ahead` : the kinds of the tokens ahead, which stand on one line.
* `Parser.Leads`, `Parser.Reads` : a parser takes tokens and goes on with another, or is done.
* `Parser.reads_separated`, `Parser.reads_trailing` : items with commas between them.
* `Parser.reads_levels`, `Parser.reads_infix` : levels of operators in front of what is no operator,
  and a single operator between operands.
-/

namespace ScriptEngine.Parser

/-! ## Tokens ahead -/

/-- The tokens ahead are of the kinds `ks`, and stand on one line with the token taken last. -/
structure State.Ahead (s : State) (ks : List Kind) : Prop where
  kinds : s.rest.map Token.kind = ks
  line : ∃ line, (∀ t ∈ s.rest, t.span.line = line) ∧ ∀ t ∈ s.previous, t.span.line = line

/-- The kind of the first token, or of the end. -/
def first (ks : List Kind) : Kind := ks.headD .eof

namespace State.Ahead

variable {s : State} {k : Kind} {ks : List Kind}

theorem kind_eq (h : s.Ahead ks) : s.kind = first ks := by
  rw [← h.kinds, State.kind, State.next]
  cases s.rest <;> rfl

theorem advance (h : s.Ahead (k :: ks)) : s.advance.Ahead ks := by
  obtain ⟨hkinds, line, hrest, -⟩ := h
  obtain ⟨t, ts, hcons, -, hts⟩ := List.map_eq_cons_iff.mp hkinds
  rw [hcons] at hrest
  have hadvance : s.advance = { s with previous := some t, rest := ts } := by
    rw [State.advance, hcons]
  rw [hadvance]
  refine ⟨hts, line, fun t' ht' => hrest t' (List.mem_cons_of_mem _ ht'), ?_⟩
  rintro t' ⟨⟩
  exact hrest t List.mem_cons_self

/-- The next token begins on the line of the last one. -/
theorem sameLine (h : s.Ahead (k :: ks)) : s.next.span.line = s.last.span.line := by
  obtain ⟨hkinds, line, hrest, hprevious⟩ := h
  obtain ⟨t, ts, hcons, -, -⟩ := List.map_eq_cons_iff.mp hkinds
  have hnext : s.next = t := by rw [State.next, hcons, List.headD_cons]
  rw [State.last, hnext]
  cases hp : s.previous with
  | none => rfl
  | some t' =>
    rw [hrest t (hcons ▸ List.mem_cons_self)]
    exact (hprevious t' hp).symm

end State.Ahead

/-! ## Parsers -/

section Parsers

variable {α β γ : Type} {k : Kind} {ks ks' tail : List Kind} {P : α → Prop} {Q : β → Prop}

/-- In front of `tail`, the parser takes tokens of the kinds `ks` and goes on as `next a` for some
`a` with `P`. -/
def Leads (p : Parser β) (ks tail : List Kind) (next : α → Parser β) (P : α → Prop) : Prop :=
  ∀ s : State, s.Ahead (ks ++ tail) → ∃ a s', p s = next a s' ∧ P a ∧ s'.Ahead tail

/-- In front of `tail`, the parser takes tokens of the kinds `ks` for a value with `P`. -/
def Reads (p : Parser α) (ks tail : List Kind) (P : α → Prop) : Prop := Leads p ks tail pure P

theorem Leads.trans {p : Parser γ} {next : α → Parser γ} {next' : β → Parser γ}
    (h : Leads p ks (ks' ++ tail) next P) (h' : ∀ a, P a → Leads (next a) ks' tail next' Q) :
    Leads p (ks ++ ks') tail next' Q := by
  intro s hs
  rw [List.append_assoc] at hs
  obtain ⟨a, s', heq, ha, hs'⟩ := h s hs
  rw [heq]
  exact h' a ha s' hs'

theorem Leads.trans_nil {p : Parser γ} {next : α → Parser γ} {next' : β → Parser γ}
    (h : Leads p ks tail next P) (h' : ∀ a, P a → Leads (next a) [] tail next' Q) :
    Leads p ks tail next' Q :=
  have h : Leads p ks ([] ++ tail) next P := h
  List.append_nil ks ▸ h.trans h'

theorem Reads.bind {p : Parser α} {f : α → Parser γ} {next : β → Parser γ}
    (h : Reads p ks (ks' ++ tail) P) (h' : ∀ a, P a → Leads (f a) ks' tail next Q) :
    Leads (p >>= f) (ks ++ ks') tail next Q := by
  intro s hs
  rw [List.append_assoc] at hs
  obtain ⟨a, s', heq, ha, hs'⟩ := h s hs
  have hbind : (p >>= f) s = f a s' := by
    simp only [Bind.bind, heq]
    rfl
  rw [hbind]
  exact h' a ha s' hs'

theorem Reads.bind_nil {p : Parser α} {f : α → Parser γ} {next : β → Parser γ}
    (h : Reads p ks tail P) (h' : ∀ a, P a → Leads (f a) [] tail next Q) :
    Leads (p >>= f) ks tail next Q :=
  have h : Reads p ks ([] ++ tail) P := h
  List.append_nil ks ▸ h.bind h'

/-- A parser that takes nothing comes first. -/
theorem Reads.bind_look {p : Parser α} {f : α → Parser γ} {next : β → Parser γ}
    (h : Reads p [] (ks ++ tail) P) (h' : ∀ a, P a → Leads (f a) ks tail next Q) :
    Leads (p >>= f) ks tail next Q :=
  Reads.bind h h'

theorem leads_self (next : α → Parser β) {a : α} (ha : P a) : Leads (next a) [] tail next P :=
  fun s hs => ⟨a, s, rfl, ha, hs⟩

theorem reads_pure {a : α} (ha : P a) : Reads (pure a) [] tail P := leads_self pure ha

theorem Leads.mono {p : Parser β} {next : α → Parser β} {P' : α → Prop} (h : Leads p ks tail next P)
    (hP : ∀ a, P a → P' a) : Leads p ks tail next P' := by
  intro s hs
  obtain ⟨a, s', heq, ha, hs'⟩ := h s hs
  exact ⟨a, s', heq, hP a ha, hs'⟩

/-! ### Single tokens -/

theorem reads_peek : Reads peek [] tail fun t => t.kind = first tail :=
  fun s hs => ⟨s.next, s, rfl, hs.kind_eq, hs⟩

/-- Looking at the next token takes nothing. -/
theorem leads_peek {f : Token → Parser γ} {next : β → Parser γ}
    (h : ∀ token : Token, token.kind = first (ks ++ tail) → Leads (f token) ks tail next Q) :
    Leads (peek >>= f) ks tail next Q :=
  reads_peek.bind_look h

theorem reads_state : Reads state [] tail fun s => s.kind = first tail :=
  fun s hs => ⟨s, s, rfl, hs.kind_eq, hs⟩

theorem reads_take : Reads take [k] tail fun t => t.kind = k :=
  fun s hs => ⟨s.next, s.advance, rfl, hs.kind_eq, hs.advance⟩

theorem reads_check : Reads (check k) [] tail fun b => b = (first tail == k) :=
  fun s hs => ⟨_, s, rfl, by rw [hs.kind_eq]; rfl, hs⟩

theorem reads_accept : Reads (accept k) [k] tail fun b => b = true := by
  intro s hs
  have hkind : s.kind = k := hs.kind_eq
  exact ⟨true, s.advance, if_pos (beq_iff_eq.mpr hkind), rfl, hs.advance⟩

theorem reads_accept_not (h : first tail ≠ k) : Reads (accept k) [] tail fun b => b = false := by
  intro s hs
  have hkind : s.kind ≠ k := by
    rw [hs.kind_eq]
    exact h
  exact ⟨false, s, if_neg fun hbeq => hkind (beq_iff_eq.mp hbeq), rfl, hs⟩

theorem reads_expect {wanted : String} : Reads (expect k wanted) [k] tail fun t => t.kind = k := by
  intro s hs
  have hkind : s.kind = k := hs.kind_eq
  exact ⟨s.next, s.advance, if_pos (beq_iff_eq.mpr hkind), hkind, hs.advance⟩

theorem reads_expectName {wanted name : String} :
    Reads (expectName wanted) [.ident name] tail fun read => read = name := by
  intro s hs
  refine ⟨name, s.advance, ?_, rfl, hs.advance⟩
  have hkind : s.kind = .ident name := hs.kind_eq
  rw [expectName, hkind]
  rfl

/-! ### Items with commas between them -/

theorem length_commas_cons_cons (ks ks' : List Kind) (kss : List (List Kind)) :
    (commas (ks :: ks' :: kss)).length = ks.length + (commas (ks' :: kss)).length + 1 := by
  change (ks ++ .symbol .comma :: commas (ks' :: kss)).length = _
  rw [List.length_append, List.length_cons, Nat.add_assoc]

theorem exists_commas_cons (ks : List Kind) (kss : List (List Kind)) :
    ∃ more, commas (ks :: kss) = ks ++ more := by
  cases kss with
  | nil => exact ⟨[], (List.append_nil ks).symm⟩
  | cons ks' kss => exact ⟨_, rfl⟩

theorem length_le_commas {ks : List Kind} {kss : List (List Kind)} (h : ks ∈ kss) :
    ks.length ≤ (commas kss).length := by
  induction kss with
  | nil => exact absurd h (by simp)
  | cons ks' kss ih =>
    rcases List.mem_cons.mp h with rfl | h
    · obtain ⟨more, hmore⟩ := exists_commas_cons ks kss
      rw [hmore, List.length_append]
      omega
    · have ih := ih h
      cases kss with
      | nil => exact absurd h (by simp)
      | cons ks'' kss =>
        rw [length_commas_cons_cons]
        omega

theorem length_le_length_commas {kss : List (List Kind)} (h : ∀ ks ∈ kss, 0 < ks.length) :
    kss.length ≤ (commas kss).length := by
  induction kss with
  | nil => exact Nat.le_refl 0
  | cons ks kss ih =>
    have hks := h ks List.mem_cons_self
    have ih := ih fun ks hmem => h ks (List.mem_cons_of_mem _ hmem)
    cases kss with
    | nil => exact hks
    | cons ks' kss =>
      rw [length_commas_cons_cons, List.length_cons]
      omega

section Items

variable {δ : Type} {item : Parser α} {kinds : α → List Kind} {view : α → δ} {close : Symbol}
  {x : α} {xs : List α}

/-- An item between commas or in front of a closing mark is read for one that looks the same. -/
def ReadsItem (item : Parser α) (kinds : α → List Kind) (view : α → δ) (close : Symbol) (x : α) :
    Prop :=
  ∀ tail mark, mark ∈ [.comma, close] →
    Reads item (kinds x) (.symbol mark :: tail) fun a => view a = view x

/-- The last item, behind which more would only be read after a comma. -/
theorem reads_lastItem {more : α → Parser (List α)} (hclose : close ≠ .comma)
    (h : ReadsItem item kinds view close x) :
    Reads (item >>= fun a => accept (.symbol .comma) >>= fun again =>
        if again then more a else pure [a]) (kinds x) (.symbol close :: tail)
      fun as => as.map view = [x].map view := by
  have hend : first (.symbol close :: tail) ≠ .symbol .comma := by
    simpa [first] using hclose
  have hitem := h tail close (by simp)
  refine hitem.bind_nil fun a ha => (reads_accept_not hend).bind_nil fun again hagain => ?_
  subst hagain
  exact reads_pure (by simp [ha])

theorem reads_separated {what : String} {room : Nat} (hne : xs ≠ []) (hclose : close ≠ .comma)
    (h : ∀ x ∈ xs, ReadsItem item kinds view close x) (hroom : xs.length ≤ room) :
    Reads (separated what item room) (commas (xs.map kinds)) (.symbol close :: tail)
      fun as => as.map view = xs.map view := by
  induction xs generalizing room with
  | nil => exact absurd rfl hne
  | cons x xs ih =>
    obtain ⟨room, rfl⟩ := Nat.exists_eq_add_of_lt hroom
    have hx := h x List.mem_cons_self
    cases xs with
    | nil => exact reads_lastItem hclose hx
    | cons x' xs =>
      have hitem := hx (commas ((x' :: xs).map kinds) ++ .symbol close :: tail) .comma (by simp)
      have hrest := ih (by simp) (fun x hmem => h x (List.mem_cons_of_mem _ hmem))
        (Nat.le_add_right _ room)
      refine hitem.bind fun a ha => reads_accept.bind fun again hagain => ?_
      subst hagain
      exact hrest.bind_nil fun as has => reads_pure (by simp [ha, has])

/-- The token after a comma is no closing mark, or the list would be over. -/
theorem reads_trailing {n : Nat} (hne : xs ≠ []) (hclose : close ≠ .comma)
    (hopen : ∀ x ∈ xs, ∀ tail, first (kinds x ++ tail) ≠ .symbol close)
    (h : ∀ x ∈ xs, ReadsItem item kinds view close x) (hn : xs.length ≤ n) :
    Reads (trailing close item n) (commas (xs.map kinds)) (.symbol close :: tail)
      fun as => as.map view = xs.map view := by
  induction xs generalizing n with
  | nil => exact absurd rfl hne
  | cons x xs ih =>
    obtain ⟨n, rfl⟩ := Nat.exists_eq_add_of_lt hn
    have hx := h x List.mem_cons_self
    cases xs with
    | nil => exact reads_lastItem hclose hx
    | cons x' xs =>
      have hitem := hx (commas ((x' :: xs).map kinds) ++ .symbol close :: tail) .comma (by simp)
      have hnext : first (commas ((x' :: xs).map kinds) ++ .symbol close :: tail)
          ≠ .symbol close := by
        obtain ⟨more, hmore⟩ := exists_commas_cons (kinds x') (xs.map kinds)
        rw [List.map_cons, hmore, List.append_assoc]
        exact hopen x' (by simp) _
      have hrest := ih (by simp) (fun x hmem => hopen x (List.mem_cons_of_mem _ hmem))
        (fun x hmem => h x (List.mem_cons_of_mem _ hmem)) (Nat.le_add_right _ n)
      refine hitem.bind fun a ha => reads_accept.bind fun again hagain => ?_
      subst hagain
      refine reads_check.bind_look fun ended hended => ?_
      obtain rfl : ended = false := hended.trans (beq_eq_false_iff_ne.mpr hnext)
      exact hrest.bind_nil fun as has => reads_pure (by simp [ha, has])

/-- Items that may be missing, up to a closing mark. -/
theorem reads_optional (view : α → δ) {p : Parser (List α)} {rest : List α → Parser β}
    (hopen : ∀ x ∈ xs, ∀ tail, first (kinds x ++ tail) ≠ .symbol close)
    (hp : xs ≠ [] → Reads p (commas (xs.map kinds)) (.symbol close :: tail)
      fun as => as.map view = xs.map view)
    (hrest : ∀ as, as.map view = xs.map view → Reads (rest as) [.symbol close] tail Q) :
    Reads (checkMark close >>= fun ended => if ended then pure [] >>= rest else p >>= rest)
      (commas (xs.map kinds) ++ [.symbol close]) tail Q := by
  refine reads_check.bind_look fun ended hended => ?_
  cases xs with
  | nil =>
    obtain rfl : ended = true := hended.trans (beq_iff_eq.mpr rfl)
    rw [if_pos rfl]
    exact (reads_pure (P := fun as => as.map view = [].map view) rfl).bind_look hrest
  | cons x xs =>
    have hfirst : first (commas ((x :: xs).map kinds) ++ [.symbol close] ++ tail)
        ≠ .symbol close := by
      obtain ⟨more, hmore⟩ := exists_commas_cons (kinds x) (xs.map kinds)
      rw [List.map_cons, hmore, List.append_assoc, List.append_assoc]
      exact hopen x List.mem_cons_self _
    obtain rfl : ended = false := hended.trans (beq_eq_false_iff_ne.mpr hfirst)
    exact (hp (by simp)).bind hrest

end Items

end Parsers

/-! ### Levels of operators -/

section Levels

variable {operator? : Kind → Option (Expr → Expr → Expr)} {operand : Parser Expr} {n : Nat}
  {ks ks' tail : List Kind} {mark : Symbol} {combine : Expr → Expr → Expr} {P Q : Expr → Prop}

theorem reads_chainFrom_done {left : Expr} (hn : 0 < n) (ht : operator? (first tail) = none)
    (hleft : P left) : Reads (chainFrom operator? operand n left) [] tail P := by
  obtain ⟨n, rfl⟩ := Nat.exists_eq_add_of_lt hn
  refine leads_peek fun token hkind => ?_
  have hnone : operator? token.kind = none := hkind ▸ ht
  rw [hnone]
  exact reads_pure hleft

/-- In front of no operator of its own, a level reads what the tighter ones do. -/
theorem reads_chain (hn : 0 < n) (ht : operator? (first tail) = none)
    (h : Reads operand ks tail P) : Reads (chain operator? operand n) ks tail P :=
  h.bind_nil fun _ hleft => reads_chainFrom_done hn ht hleft

/-- The trees of an operator over operands of two kinds. -/
def Combined (combine : Expr → Expr → Expr) (P Q : Expr → Prop) (e : Expr) : Prop :=
  ∃ left right, P left ∧ Q right ∧ e = combine left right

theorem reads_chain_infix (hn : 1 < n) (hmark : operator? (.symbol mark) = some combine)
    (ht : operator? (first tail) = none)
    (hl : Reads operand ks (.symbol mark :: (ks' ++ tail)) P) (hr : Reads operand ks' tail Q) :
    Reads (chain operator? operand n) (ks ++ .symbol mark :: ks') tail (Combined combine P Q) := by
  obtain ⟨n, rfl⟩ := Nat.exists_eq_add_of_lt hn
  refine hl.bind fun left hleft => ?_
  refine leads_peek fun token hkind => ?_
  have hmark : operator? token.kind = some combine := hkind ▸ hmark
  rw [hmark]
  refine reads_take.bind fun _ _ => hr.bind_nil fun right hright => ?_
  exact reads_chainFrom_done (by omega) ht ⟨left, right, hleft, hright, rfl⟩

variable {levels : List (List (Symbol × (Expr → Expr → Expr)))}

/-- Operands with operators of some levels between them. -/
def climb (levels : List (List (Symbol × (Expr → Expr → Expr)))) (n : Nat) (operand : Parser Expr) :
    Parser Expr :=
  levels.foldl (fun operand operators => chain (operatorIn operators) operand n) operand

/-- In front of no operator at all, every level reads what the operands do. -/
theorem reads_levels (hn : 0 < n)
    (ht : ∀ operators ∈ levels, operatorIn operators (first tail) = none)
    (h : Reads operand ks tail P) : Reads (climb levels n operand) ks tail P := by
  induction levels generalizing operand with
  | nil => exact h
  | cons operators levels ih =>
    exact ih (fun operators' hmem => ht operators' (List.mem_cons_of_mem _ hmem))
      (reads_chain hn (ht operators List.mem_cons_self) h)

/-- One operator between operands makes its tree on its own level; the other levels pass it. -/
theorem reads_infix (hn : 1 < n) (hmark : levels.findSome? (·.lookup mark) = some combine)
    (ht : ∀ operators ∈ levels, operatorIn operators (first tail) = none)
    (hl : Reads operand ks (.symbol mark :: (ks' ++ tail)) P) (hr : Reads operand ks' tail Q) :
    Reads (climb levels n operand) (ks ++ .symbol mark :: ks') tail (Combined combine P Q) := by
  induction levels generalizing operand with
  | nil => exact absurd hmark (by simp)
  | cons operators levels ih =>
    have hhead := ht operators List.mem_cons_self
    have hlevels := fun operators' hmem => ht operators' (List.mem_cons_of_mem operators hmem)
    rw [List.findSome?_cons] at hmark
    cases hlookup : operators.lookup mark with
    | none =>
      rw [hlookup] at hmark
      exact ih hmark hlevels (reads_chain (by omega) hlookup hl) (reads_chain (by omega) hhead hr)
    | some found =>
      rw [hlookup] at hmark
      obtain rfl : found = combine := Option.some.inj hmark
      have hchain := reads_chain_infix hn hlookup hhead hl hr
      have hclimb := reads_levels (Nat.lt_trans Nat.zero_lt_one hn) hlevels hchain
      exact hclimb

end Levels

end ScriptEngine.Parser
