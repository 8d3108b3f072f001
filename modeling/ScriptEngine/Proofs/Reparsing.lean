import ScriptEngine.Proofs.Reading
/-!
# Reading rendered expressions

A printable expression is read back from the kinds of its tokens, up to the places of its nodes.
Every operator is rendered in parentheses, so it is met alone there and its level does not matter;
calls, indices and properties are met one after another behind an operand.

* `Expr.bare` : an expression without places.
* `Parser.LeadsBack` : an expression is read as an operand that trailers may follow.
* `Parser.ReadsBack` : an expression is read in front of what is no part of it.
* `Parser.leadsBack_leaf`, `Parser.leadsBack_list`, `Parser.leadsBack_map`, `Parser.LeadsBack.call`,
  `Parser.LeadsBack.index`, `Parser.LeadsBack.get`, `Parser.leadsBack_infix`,
  `Parser.ReadsBack.unary` : one lemma for each form of expressions.
-/

namespace ScriptEngine

open Token

/-! ## Trees without places -/

mutual

/-- The expression with nothing in the places of its nodes. Functions are kept as they are. -/
def Expr.bare : Expr → Expr
  | .number x _ => .number x default
  | .float x _ => .float x default
  | .string text _ => .string text default
  | .bool b _ => .bool b default
  | .null _ => .null default
  | .var name _ => .var name default
  | .this _ => .this default
  | .binary left op right _ => .binary left.bare op right.bare default
  | .logical left op right _ => .logical left.bare op right.bare default
  | .unary op operand _ => .unary op operand.bare default
  | .call callee args _ => .call callee.bare (bareAll args) default
  | .lambda function _ => .lambda function default
  | .get object name _ => .get object.bare name default
  | .set object name op value _ => .set object.bare name op value.bare default
  | .index object key _ => .index object.bare key.bare default
  | .indexSet object key op value _ => .indexSet object.bare key.bare op value.bare default
  | .list elements _ => .list (bareAll elements) default
  | .map entries _ => .map (bareEntries entries) default
  | .template parts _ => .template (bareParts parts) default

/-- Expressions without places. -/
def bareAll : List Expr → List Expr
  | [] => []
  | e :: es => e.bare :: bareAll es

/-- The entries of a map without places. -/
def bareEntries : List (String × Expr) → List (String × Expr)
  | [] => []
  | (key, e) :: entries => (key, e.bare) :: bareEntries entries

/-- The pieces of a template without places. -/
def bareParts : List Part → List Part
  | [] => []
  | .literal text :: parts => .literal text :: bareParts parts
  | .embedded e :: parts => .embedded e.bare :: bareParts parts

end

/-- An entry of a map without places. -/
def bareEntry (entry : String × Expr) : String × Expr := (entry.1, entry.2.bare)

theorem bareAll_eq_map (es : List Expr) : bareAll es = es.map Expr.bare := by
  induction es with
  | nil => rfl
  | cons e es ih => rw [bareAll, ih, List.map_cons]

theorem bareEntries_eq_map (entries : List (String × Expr)) :
    bareEntries entries = entries.map bareEntry := by
  induction entries with
  | nil => rfl
  | cons entry entries ih => rw [bareEntries, ih, List.map_cons, bareEntry]

/-! ## Where expressions begin -/

/-- Whether an operand begins with the token. -/
def Kind.startsOperand : Kind → Bool
  | .number _ | .float _ | .string _ | .ident _ | .keyword _ => true
  | .symbol mark => [.leftParen, .leftBracket, .leftBrace].contains mark
  | _ => false

theorem Expr.Printable.exists_cons_kinds {e : Expr} (h : e.Printable) :
    ∃ k ks, e.kinds = k :: ks ∧
      if e.isUnary then ∃ op : UnaryOp, k = .symbol op.mark else k.startsOperand := by
  induction h with
  | number | float | string | bool | null | var | this => exact ⟨_, _, rfl, rfl⟩
  | binary | logical | list | map => exact ⟨_, _, rfl, rfl⟩
  | @unary op => exact ⟨_, _, rfl, op, rfl⟩
  | call hop h _ _ ih | get hop h _ ih | index hop h _ ih =>
    obtain ⟨k, ks, hcons, hk⟩ := ih
    rw [if_neg (by simp [hop])] at hk
    exact ⟨k, _, by rw [Expr.kinds, hcons, List.cons_append], hk⟩

/-- Whether the token is written in a text, and no comment. -/
def Kind.isText : Kind → Bool
  | .comment | .eof => false
  | _ => true

theorem all_isText_commas {kss : List (List Kind)} (h : ∀ ks ∈ kss, ks.all Kind.isText) :
    (commas kss).all Kind.isText := by
  induction kss with
  | nil => rfl
  | cons ks kss ih =>
    have hks := h ks List.mem_cons_self
    have ih := ih fun ks hmem => h ks (List.mem_cons_of_mem _ hmem)
    cases kss with
    | nil => exact hks
    | cons ks' kss =>
      change (ks ++ .symbol .comma :: commas (ks' :: kss)).all Kind.isText
      rw [List.all_append, List.all_cons, hks, ih]
      rfl

theorem Expr.Printable.all_isText {e : Expr} (h : e.Printable) : e.kinds.all Kind.isText := by
  induction h with
  | number | float | string | bool | null | var | this => rfl
  | binary _ _ ihl ihr | logical _ _ ihl ihr => simp [Expr.kinds, Kind.isText, ihl, ihr]
  | unary _ ih => simp [Expr.kinds, Kind.isText, ih]
  | @call callee args span _ _ _ _ ih ihargs =>
    have hargs : (commas (kindsAll args)).all Kind.isText := by
      rw [kindsAll_eq_map]
      exact all_isText_commas (List.forall_mem_map.mpr ihargs)
    rw [Expr.kinds, List.all_append, List.all_cons, List.all_append, ih, hargs]
    rfl
  | get _ _ _ ih => simp [Expr.kinds, Kind.isText, ih]
  | index _ _ _ ih ihkey => simp [Expr.kinds, Kind.isText, ih, ihkey]
  | @list elements span _ ih =>
    have helements : (commas (kindsAll elements)).all Kind.isText := by
      rw [kindsAll_eq_map]
      exact all_isText_commas (List.forall_mem_map.mpr ih)
    rw [Expr.kinds, List.all_cons, List.all_append, helements]
    rfl
  | @map entries span _ _ ih =>
    have hentries : (commas (kindsEntries entries)).all Kind.isText := by
      rw [kindsEntries_eq_map]
      exact all_isText_commas (List.forall_mem_map.mpr ih)
    rw [Expr.kinds, List.all_cons, List.all_append, hentries]
    rfl

/-- The marks that close calls, lists and maps. -/
def closers : List Symbol := [.rightParen, .rightBracket, .rightBrace]

/-- No expression begins with a mark that closes a list, so a list that is not empty is not taken
for an empty one. -/
theorem Expr.Printable.first_ne_close {e : Expr} (h : e.Printable) {close : Symbol}
    (hclose : close ∈ closers) (tail : List Kind) :
    Parser.first (e.kinds ++ tail) ≠ .symbol close := by
  obtain ⟨k, ks, hcons, hk⟩ := h.exists_cons_kinds
  rw [hcons, List.cons_append]
  change k ≠ .symbol close
  rintro rfl
  split at hk
  · obtain ⟨op, hop⟩ := hk
    revert hop hclose
    cases op <;> cases close <;> decide
  · revert hk hclose
    cases close <;> decide

theorem Expr.Printable.length_kinds_pos {e : Expr} (h : e.Printable) : 0 < e.kinds.length := by
  obtain ⟨k, ks, hcons, -⟩ := h.exists_cons_kinds
  rw [hcons]
  exact Nat.succ_pos _

namespace Parser

/-! ## Reading operands -/

section Operands

variable {tail : List Kind} {e : Expr} {n : Nat}

/-- Whether the same expression was read, up to places. -/
def Same (e e' : Expr) : Prop := e'.bare = e.bare

/-- No call, index or property goes on in front of the token. -/
def Stops (tail : List Kind) : Prop :=
  first tail ≠ .symbol .leftParen ∧ first tail ≠ .symbol .leftBracket ∧ first tail ≠ .symbol .dot

/-- No operator goes on in front of the token either. -/
def Ends (tail : List Kind) : Prop :=
  Stops tail ∧ ∀ operators ∈ levels, operatorIn operators (first tail) = none

/-- The calls, indices and properties behind an operand, so many of them at most. -/
def behind (again : Productions) (operand : Nat × Expr) : Parser Expr :=
  trailers again operand.1 operand.2

/-- With a budget that its tokens allow, the expression is read and then what may follow it as an
operand. -/
def LeadsBack (e : Expr) : Prop :=
  ∀ n tail, e.kinds.length ≤ n →
    Leads (primary (productions n) n >>= trailers (productions n) n) e.kinds tail
      (behind (productions n)) fun operand => n < operand.1 + e.kinds.length ∧ Same e operand.2

/-- With a budget that its tokens allow, the expression is read back in front of what is no part of
it. -/
def ReadsBack (e : Expr) : Prop :=
  ∀ n tail, e.kinds.length ≤ n → Stops tail →
    Reads (unary (productions n) n) e.kinds tail (Same e)

/-- Where nothing goes on, the operand is all. -/
theorem reads_behind {again : Productions} {operand : Nat × Expr} (hpos : 0 < operand.1)
    (ht : Stops tail) (he : Same e operand.2) : Reads (behind again operand) [] tail (Same e) := by
  obtain ⟨m, e'⟩ := operand
  obtain ⟨m, rfl⟩ := Nat.exists_eq_add_of_lt hpos
  refine reads_state.bind_look fun s hs => ?_
  have hparen : (s.kind == .symbol .leftParen) = false := beq_eq_false_iff_ne.mpr (hs ▸ ht.1)
  have hbracket : (s.kind == .symbol .leftBracket) = false := beq_eq_false_iff_ne.mpr (hs ▸ ht.2.1)
  have hdot : (s.kind == .symbol .dot) = false := beq_eq_false_iff_ne.mpr (hs ▸ ht.2.2)
  simp only [hparen, hbracket, hdot, Bool.and_false, Bool.false_eq_true, if_false]
  exact reads_pure he

/-- An operand that begins with no operator is read back where nothing goes on behind it. -/
theorem LeadsBack.readsBack_of_startsOperand (h : LeadsBack e) {k : Kind} {ks : List Kind}
    (hcons : e.kinds = k :: ks) (hk : k.startsOperand) : ReadsBack e := by
  intro n tail hn ht
  have hoperand : Reads (primary (productions n) n >>= trailers (productions n) n) e.kinds tail
      (Same e) :=
    (h n tail hn).trans_nil fun operand hoperand => reads_behind (by omega) ht hoperand.2
  refine leads_peek fun token hkind => ?_
  rw [hcons] at hkind
  have hkind : token.kind = k := hkind
  simp only [hkind]
  split
  · next op heq =>
    -- an operator in front would have to begin the operand
    split at heq
    · exact absurd hk (by decide)
    · exact absurd hk (by decide)
    · exact absurd heq (by simp)
  · exact hoperand

theorem LeadsBack.readsBack (h : LeadsBack e) (hp : e.Printable) (hop : e.isUnary = false) :
    ReadsBack e := by
  obtain ⟨k, ks, hcons, hk⟩ := hp.exists_cons_kinds
  rw [if_neg (by simp [hop])] at hk
  exact h.readsBack_of_startsOperand hcons hk

/-- An operator in front of an operand. -/
theorem ReadsBack.unary {op : UnaryOp} {span : Span} (h : ReadsBack e) :
    ReadsBack (.unary op e span) := by
  intro n tail hn ht
  have hlength : e.kinds.length < n := hn
  obtain ⟨n, rfl⟩ := Nat.exists_eq_add_of_lt hlength
  have hoperand := h (e.kinds.length + n) tail (by omega) ht
  refine leads_peek fun token hkind => ?_
  have hkind : token.kind = .symbol op.mark := hkind
  simp only [hkind]
  cases op <;>
    exact reads_take.bind fun _ _ => hoperand.bind_nil fun e' he =>
      reads_pure (congrArg (Expr.unary _ · default) he)

/-! ## Reading expressions -/

/-- An expression in front of what ends one. -/
theorem ReadsBack.expression (h : ReadsBack e) (hpos : 0 < e.kinds.length)
    (hn : e.kinds.length < n) (ht : Ends tail) :
    Reads (productions n).expression e.kinds tail (Same e) := by
  obtain ⟨n, rfl⟩ := Nat.exists_eq_add_of_lt hn
  have hoperand := h (e.kinds.length + n) tail (by omega) ht.1
  exact reads_levels (Nat.lt_of_lt_of_le hpos (Nat.le_add_right _ _)) ht.2 hoperand

theorem ends_nil : Ends [] :=
  ⟨⟨by decide, by decide, by decide⟩, fun _ _ => rfl⟩

theorem stops_mark {mark : Symbol} (h : mark ∉ [Symbol.leftParen, .leftBracket, .dot]) :
    Stops (.symbol mark :: tail) := by
  change Kind.symbol mark ≠ _ ∧ Kind.symbol mark ≠ _ ∧ Kind.symbol mark ≠ _
  revert h
  cases mark <;> decide

/-- An expression ends in front of a closing mark or a comma. -/
theorem ends_mark {mark : Symbol} (h : mark = .comma ∨ mark ∈ closers) :
    Ends (.symbol mark :: tail) := by
  refine ⟨stops_mark ?_, fun operators hmem => ?_⟩
  · revert h
    cases mark <;> decide
  · simp only [closers, List.mem_cons, List.not_mem_nil, or_false] at h
    simp only [levels, List.mem_cons, List.not_mem_nil, or_false] at hmem
    rcases h with rfl | rfl | rfl | rfl <;>
      rcases hmem with rfl | rfl | rfl | rfl | rfl | rfl <;> rfl

end Operands

/-! ## Reading without trailers -/

section Primary

variable {again : Productions} {tail ks : List Kind} {e : Expr} {n : Nat}

/-- The expression that a token is by itself. -/
def leaf? : Kind → Option (Span → Expr)
  | .number x => some (.number x)
  | .float x => some (.float x)
  | .string text => some (.string text)
  | .ident name => some (.var name)
  | .keyword .kwTrue => some (.bool true)
  | .keyword .kwFalse => some (.bool false)
  | .keyword .kwNull => some .null
  | .keyword .kwThis => some .this
  | _ => none

theorem reads_primary_leaf {k : Kind} {leaf : Span → Expr} (h : leaf? k = some leaf) :
    Reads (primary again n) [k] tail fun e => ∃ span, e = leaf span := by
  refine leads_peek fun token hkind => ?_
  have hkind : token.kind = k := hkind
  simp only [hkind]
  unfold leaf? at h
  split at h
  case h_9 => exact absurd h (by simp)
  all_goals
    obtain rfl := Option.some.inj h
    exact reads_take.bind fun _ _ => reads_pure ⟨token.span, rfl⟩

theorem reads_primary_parens {P : Expr → Prop}
    (h : Reads again.expression ks (.symbol .rightParen :: tail) P) :
    Reads (primary again n) (.symbol .leftParen :: (ks ++ [.symbol .rightParen])) tail P := by
  refine leads_peek fun token hkind => ?_
  have hkind : token.kind = .symbol .leftParen := hkind
  simp only [hkind]
  exact reads_take.bind fun _ _ => h.bind fun e he => reads_expect.bind_nil fun _ _ => reads_pure he

theorem LeadsBack.of_primary (hpos : 0 < e.kinds.length)
    (h : ∀ n tail, e.kinds.length ≤ n → Reads (primary (productions n) n) e.kinds tail (Same e)) :
    LeadsBack e := by
  intro n tail hn
  refine (h n tail hn).bind_nil fun e' he => ?_
  exact leads_self (behind (productions n)) (a := (n, e')) ⟨by omega, he⟩

theorem leadsBack_leaf {k : Kind} (leaf : Span → Expr) {span : Span} (h : leaf? k = some leaf)
    (hkinds : (leaf span).kinds = [k]) (hbare : ∀ span', (leaf span').bare = (leaf span).bare) :
    LeadsBack (leaf span) := by
  refine .of_primary (by simp [hkinds]) fun n tail _ => ?_
  rw [hkinds]
  refine (reads_primary_leaf h).mono ?_
  rintro _ ⟨span', rfl⟩
  exact hbare span'

/-! ### Lists and maps -/

theorem ends_item {mark close : Symbol} (hclose : close ∈ closers) (h : mark ∈ [.comma, close]) :
    Ends (.symbol mark :: tail) := by
  simp only [List.mem_cons, List.not_mem_nil, or_false] at h
  rcases h with rfl | rfl
  · exact ends_mark (.inl rfl)
  · exact ends_mark (.inr hclose)

theorem ReadsBack.readsItem {close : Symbol} (h : ReadsBack e) (hclose : close ∈ closers)
    (hpos : 0 < e.kinds.length) (hn : e.kinds.length < n) :
    ReadsItem (productions n).expression Expr.kinds Expr.bare close e :=
  fun _ _ hmark => h.expression hpos hn (ends_item hclose hmark)

/-- Expressions with commas between them, each read with the budget for all of them. -/
theorem readsItem_of_mem {es : List Expr} {close : Symbol} (hclose : close ∈ closers)
    (hp : ∀ e ∈ es, e.Printable) (h : ∀ e ∈ es, ReadsBack e)
    (hn : (commas (es.map Expr.kinds)).length < n) :
    ∀ e ∈ es, ReadsItem (productions n).expression Expr.kinds Expr.bare close e := by
  intro e he
  have hle := length_le_commas (List.mem_map_of_mem (f := Expr.kinds) he)
  exact (h e he).readsItem hclose (hp e he).length_kinds_pos (by omega)

theorem leadsBack_list {es : List Expr} {span : Span} (hp : ∀ e ∈ es, e.Printable)
    (h : ∀ e ∈ es, ReadsBack e) : LeadsBack (.list es span) := by
  refine .of_primary (by simp [Expr.kinds]) fun n tail hn => ?_
  rw [Expr.kinds, kindsAll_eq_map] at hn ⊢
  rw [List.length_cons, List.length_append, List.length_singleton] at hn
  refine leads_peek fun token hkind => ?_
  have hkind : token.kind = .symbol .leftBracket := hkind
  simp only [hkind]
  refine reads_take.bind fun _ _ => ?_
  refine reads_optional Expr.bare
    (fun e he tail => (hp e he).first_ne_close (by decide) tail) (fun hne => ?_) fun as has => ?_
  · have hitems : ∀ e ∈ es,
        ReadsItem (productions n).expression Expr.kinds Expr.bare .rightBracket e :=
      readsItem_of_mem (by decide) hp h (by omega)
    have hlength : (es.map Expr.kinds).length ≤ (commas (es.map Expr.kinds)).length :=
      length_le_length_commas (List.forall_mem_map.mpr fun e he => (hp e he).length_kinds_pos)
    rw [List.length_map] at hlength
    exact reads_trailing hne (by decide)
      (fun e he tail => (hp e he).first_ne_close (by decide) tail) hitems (by omega)
  · refine reads_expect.bind_nil fun token _ => reads_pure ?_
    simp [Same, Expr.bare, bareAll_eq_map, has]

/-- An entry of a map: the key is a string, and names are not needed for keys. -/
theorem reads_mapEntry {entry : String × Expr} {close : Symbol} (hclose : close ∈ closers)
    (h : ReadsBack entry.2) (hpos : 0 < entry.2.kinds.length) (hn : entry.2.kinds.length < n) :
    ReadsItem (mapEntry (productions n)) entryKinds bareEntry close entry := by
  intro tail mark hmark
  have hends : Ends (.symbol mark :: tail) := ends_item hclose hmark
  have hvalue := h.expression hpos hn hends
  refine leads_peek fun token hkind => ?_
  have hkind : token.kind = .string entry.1 := hkind
  simp only [hkind]
  refine (reads_pure (P := fun key => key = entry.1) rfl).bind_look fun key hkey => ?_
  refine reads_take.bind fun _ _ => reads_expect.bind fun _ _ => hvalue.bind_nil fun e he => ?_
  exact reads_pure (Prod.ext hkey he)

theorem leadsBack_map {entries : List (String × Expr)} {span : Span}
    (hp : ∀ entry ∈ entries, entry.2.Printable) (h : ∀ entry ∈ entries, ReadsBack entry.2) :
    LeadsBack (.map entries span) := by
  refine .of_primary (by simp [Expr.kinds]) fun n tail hn => ?_
  rw [Expr.kinds, kindsEntries_eq_map] at hn ⊢
  rw [List.length_cons, List.length_append, List.length_singleton] at hn
  have hopen : ∀ entry ∈ entries, ∀ tail, first (entryKinds entry ++ tail) ≠ .symbol .rightBrace :=
    fun entry _ tail => Kind.noConfusion
  refine leads_peek fun token hkind => ?_
  have hkind : token.kind = .symbol .leftBrace := hkind
  simp only [hkind]
  refine reads_take.bind fun _ _ => ?_
  refine reads_optional bareEntry hopen (fun hne => ?_) fun as has => ?_
  · have hitems : ∀ entry ∈ entries,
        ReadsItem (mapEntry (productions n)) entryKinds bareEntry .rightBrace entry := by
      intro entry hentry
      have hle := length_le_commas (List.mem_map_of_mem (f := entryKinds) hentry)
      rw [entryKinds, List.length_cons, List.length_cons] at hle
      have hpos := (hp entry hentry).length_kinds_pos
      exact reads_mapEntry (by decide) (h entry hentry) hpos (by omega)
    have hlength : (entries.map entryKinds).length ≤ (commas (entries.map entryKinds)).length :=
      length_le_length_commas (List.forall_mem_map.mpr fun entry _ => Nat.succ_pos _)
    rw [List.length_map] at hlength
    exact reads_trailing hne (by decide) hopen hitems (by omega)
  · refine reads_expect.bind_nil fun token _ => reads_pure ?_
    simp [Same, Expr.bare, bareEntries_eq_map, has]

end Primary

/-! ## Reading trailers -/

section Trailers

variable {tail ks : List Kind} {e e' : Expr} {n m : Nat} {again : Productions}

/-- One more trailer behind an operand. -/
theorem LeadsBack.extend (h : LeadsBack e) (ks : List Kind) (hkinds : e'.kinds = e.kinds ++ ks)
    (hpos : 0 < ks.length)
    (hstep : ∀ n m tail operand, e'.kinds.length ≤ n → Same e operand →
      Leads (trailers (productions n) (m + 1) operand) ks tail (behind (productions n))
        fun longer => longer.1 = m ∧ Same e' longer.2) :
    LeadsBack e' := by
  intro n tail hn
  have hlength : e'.kinds.length = e.kinds.length + ks.length := by
    rw [hkinds, List.length_append]
  rw [hkinds]
  refine Leads.trans (h n (ks ++ tail) (by omega)) fun operand hoperand => ?_
  obtain ⟨m, operand⟩ := operand
  obtain ⟨hm, hsame⟩ := hoperand
  -- a trailer uses up one round, and it has one token at least, so a round is left for it
  obtain ⟨m, rfl⟩ := Nat.exists_eq_succ_of_ne_zero (show m ≠ 0 by omega)
  refine (hstep n m tail operand hn hsame).mono fun longer hlonger => ⟨?_, hlonger.2⟩
  rw [hlonger.1, List.length_append]
  omega

/-- Behind an operand the state tells which trailer goes on. -/
theorem leads_trailers {k : Kind} {next : Nat × Expr → Parser Expr} {P : Nat × Expr → Prop}
    {p : Parser Expr}
    (hstep : ∀ s : State, s.kind = k → s.next.span.line = s.last.span.line →
      trailers again (m + 1) e s = p s)
    (h : Leads p (k :: ks) tail next P) :
    Leads (trailers again (m + 1) e) (k :: ks) tail next P := by
  intro s hs
  rw [hstep s hs.kind_eq hs.sameLine]
  exact h s hs

theorem LeadsBack.get {name : String} {span : Span} (h : LeadsBack e) :
    LeadsBack (.get e name span) := by
  refine h.extend [.symbol .dot, .ident name] rfl (Nat.succ_pos _)
    fun n m tail operand hn hsame => ?_
  refine leads_trailers (p := do
    let _ ← take
    let name ← expectName "expected property name after '.'"
    let s ← state
    trailers (productions n) m (.get operand name (operand.span.upTo s.last.span))) ?_ ?_
  · intro s hkind hline
    change (ite _ _ (ite _ _ (ite _ _ _)) : Parser Expr) s = _
    rw [hkind, if_neg (by simp), if_neg (by simp), if_pos (by rfl)]
  · refine reads_take.bind fun _ _ => reads_expectName.bind_nil fun read hread => ?_
    subst hread
    refine reads_state.bind_look fun s _ => ?_
    exact leads_self (behind (productions n)) (a := (m, _))
      ⟨rfl, congrArg (Expr.get · read default) hsame⟩

theorem LeadsBack.index {key : Expr} {span : Span} (h : LeadsBack e) (hkey : ReadsBack key)
    (hpos : 0 < key.kinds.length) : LeadsBack (.index e key span) := by
  refine h.extend (.symbol .leftBracket :: (key.kinds ++ [.symbol .rightBracket])) rfl
    (Nat.succ_pos _) fun n m tail operand hn hsame => ?_
  have hlength : key.kinds.length < n := by
    simp only [Expr.kinds, List.length_append, List.length_cons] at hn
    omega
  have hends : Ends (.symbol .rightBracket :: tail) := ends_mark (by decide)
  have hread := hkey.expression hpos hlength hends
  refine leads_trailers (p := do
    let _ ← take
    let key ← (productions n).expression
    let close ← expectMark .rightBracket "expected ']' after index"
    trailers (productions n) m (.index operand key (operand.span.upTo close.span))) ?_ ?_
  · intro s hkind hline
    change (ite _ _ (ite _ _ (ite _ _ _)) : Parser Expr) s = _
    rw [hkind, hline, if_neg (by simp), if_pos (by simp)]
  · refine reads_take.bind fun _ _ => hread.bind fun key' hkey' => ?_
    refine reads_expect.bind_nil fun close _ => ?_
    refine leads_self (behind (productions n)) (a := (m, _)) ⟨rfl, ?_⟩
    simp only [Same, Expr.bare]
    rw [hsame, hkey']

theorem LeadsBack.call {args : List Expr} {span : Span} (h : LeadsBack e)
    (hp : ∀ a ∈ args, a.Printable) (hargs : ∀ a ∈ args, ReadsBack a)
    (hroom : args.length ≤ maxArguments) : LeadsBack (.call e args span) := by
  refine h.extend (.symbol .leftParen :: (commas (kindsAll args) ++ [.symbol .rightParen])) rfl
    (Nat.succ_pos _) fun n m tail operand hn hsame => ?_
  rw [Expr.kinds, kindsAll_eq_map, List.length_append, List.length_cons, List.length_append] at hn
  rw [kindsAll_eq_map]
  refine leads_trailers (p := do
    let _ ← take
    let call ← callRest (productions n) operand
    trailers (productions n) m call) ?_ ?_
  · intro s hkind hline
    change (ite _ _ (ite _ _ (ite _ _ _)) : Parser Expr) s = _
    rw [hkind, hline, if_pos (by simp)]
  · refine reads_take.bind fun _ _ => Reads.bind_nil (P := Same (.call e args span)) ?_
      fun call hcall => leads_self (behind (productions n)) (a := (m, call)) ⟨rfl, hcall⟩
    have hitems : ∀ a ∈ args,
        ReadsItem (productions n).expression Expr.kinds Expr.bare .rightParen a :=
      readsItem_of_mem (by decide) hp hargs (by omega)
    refine reads_optional Expr.bare
      (fun a ha tail => (hp a ha).first_ne_close (by decide) tail)
      (fun hne => reads_separated hne (by decide) hitems hroom) fun as has => ?_
    refine reads_expect.bind_nil fun close _ => reads_pure ?_
    simp only [Same, Expr.bare, bareAll_eq_map, has]
    rw [hsame]

end Trailers

/-! ## Reading operators -/

section Operators

variable {left right e : Expr} {mark : Symbol} {combine : Expr → Expr → Expr}

theorem lookup_binary (op : BinaryOp) :
    levels.findSome? (·.lookup op.mark) = some (binaryTree op) := by
  cases op <;> rfl

theorem lookup_logical (op : LogicalOp) :
    levels.findSome? (·.lookup op.mark) = some (logicalTree op) := by
  cases op <;> rfl

/-- An operator in parentheses, whatever its level: nothing else is in the parentheses. -/
theorem leadsBack_infix (hmark : levels.findSome? (·.lookup mark) = some combine)
    (hstops : mark ∉ [Symbol.leftParen, .leftBracket, .dot])
    (hkinds : e.kinds = .symbol .leftParen ::
      (left.kinds ++ .symbol mark :: (right.kinds ++ [.symbol .rightParen])))
    (hpos : 0 < left.kinds.length) (hl : ReadsBack left) (hr : ReadsBack right)
    (hsame : ∀ l r, Same left l → Same right r → Same e (combine l r)) : LeadsBack e := by
  have hkinds : e.kinds = .symbol .leftParen ::
      ((left.kinds ++ .symbol mark :: right.kinds) ++ [.symbol .rightParen]) := by
    rw [hkinds, List.append_assoc, List.cons_append]
  have hlength : e.kinds.length = left.kinds.length + right.kinds.length + 3 := by
    rw [hkinds]
    simp only [List.length_cons, List.length_append, List.length_nil]
    omega
  refine .of_primary (by omega) fun n tail hn => ?_
  obtain ⟨n, rfl⟩ := Nat.exists_eq_succ_of_ne_zero (show n ≠ 0 by omega)
  -- the left operand stops at the operator, and the right one at the parenthesis behind it
  have hends : Ends (.symbol .rightParen :: tail) := ends_mark (by decide)
  have hleft := hl n (.symbol mark :: (right.kinds ++ .symbol .rightParen :: tail)) (by omega)
    (stops_mark hstops)
  have hright := hr n (.symbol .rightParen :: tail) (by omega) hends.1
  have hinner := reads_infix (show 1 < n by omega) hmark hends.2 hleft hright
  rw [hkinds]
  refine (reads_primary_parens hinner).mono ?_
  rintro _ ⟨l, r, hsl, hsr, rfl⟩
  exact hsame l r hsl hsr

theorem leadsBack_binary {op : BinaryOp} {span : Span} (hpos : 0 < left.kinds.length)
    (hl : ReadsBack left) (hr : ReadsBack right) : LeadsBack (.binary left op right span) := by
  refine leadsBack_infix (lookup_binary op) ?_ rfl hpos hl hr fun l r hsl hsr => ?_
  · cases op <;> decide
  · simp only [Same, binaryTree, Expr.bare]
    rw [hsl, hsr]

theorem leadsBack_logical {op : LogicalOp} {span : Span} (hpos : 0 < left.kinds.length)
    (hl : ReadsBack left) (hr : ReadsBack right) : LeadsBack (.logical left op right span) := by
  refine leadsBack_infix (lookup_logical op) ?_ rfl hpos hl hr fun l r hsl hsr => ?_
  · cases op <;> decide
  · simp only [Same, logicalTree, Expr.bare]
    rw [hsl, hsr]

end Operators

end Parser

end ScriptEngine
