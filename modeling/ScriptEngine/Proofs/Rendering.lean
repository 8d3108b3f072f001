import ScriptEngine.Parser.Grammar
import ScriptEngine.Proofs.Spelling
/-!
# The tokens of a rendered expression

The text of an expression spells the tokens that are expected of it, in front of any text that keeps
apart.

* `Expr.Printable` : the expressions whose text can be read back.
* `Expr.kinds` : the kinds of the tokens in the text of an expression.
* `Expr.Printable.spells_render` : the text spells these kinds.
-/

namespace ScriptEngine

open Token

/-! ## Operators -/

/-- The mark that stands for a binary operator. -/
def BinaryOp.mark : BinaryOp → Symbol
  | add => .plus
  | sub => .minus
  | mul => .star
  | div => .slash
  | mod => .percent
  | eq => .equal
  | ne => .notEqual
  | lt => .less
  | le => .lessEqual
  | gt => .greater
  | ge => .greaterEqual

/-- The mark that stands for a logical operator. -/
def LogicalOp.mark : LogicalOp → Symbol
  | and => .and
  | or => .or

/-- The mark that stands for a unary operator. -/
def UnaryOp.mark : UnaryOp → Symbol
  | neg => .minus
  | not => .not

section Operators

variable {tail : List Char}

theorem BinaryOp.spells_text (op : BinaryOp) :
    Spells op.text.toList [.symbol op.mark] (' ' :: tail) := by
  cases op <;> exact spells_token (by decide) (by decide) rfl

theorem LogicalOp.spells_text (op : LogicalOp) :
    Spells op.text.toList [.symbol op.mark] (' ' :: tail) := by
  cases op <;> exact spells_token (by decide) (by decide) rfl

theorem scanPair_short {short : Symbol} {longer : List (Char × Symbol)}
    (h : ∀ c ∈ tail.head?, longer.lookup c = none) :
    scanPair tail short longer = .found (.symbol short) 0 := by
  unfold scanPair
  cases tail with
  | nil => rfl
  | cons c tail =>
    have hc : longer.lookup c = none := h c rfl
    simp [hc]

/-- A unary operator is read by itself unless what follows makes another mark of it. -/
theorem UnaryOp.spells_text (op : UnaryOp) (h : ∀ c ∈ tail.head?, c ≠ '=' ∧ c ≠ '>') :
    Spells op.text.toList [.symbol op.mark] tail := by
  cases op with
  | neg =>
    change Spells ['-'] [.symbol .minus] tail
    refine spells_token (by decide) (by decide) (scanPair_short fun c hc => ?_)
    simp [List.lookup, beq_eq_false_iff_ne.mpr (h c hc).1, beq_eq_false_iff_ne.mpr (h c hc).2]
  | not =>
    change Spells ['!'] [.symbol .not] tail
    refine spells_token (by decide) (by decide) (scanPair_short fun c hc => ?_)
    simp [List.lookup, beq_eq_false_iff_ne.mpr (h c hc).1]

end Operators

/-! ## Printable expressions -/

/-- Whether the expression is an operator in front of an operand. -/
def Expr.isUnary : Expr → Bool
  | .unary .. => true
  | _ => false

/-- The expressions that can be read back from their text. No functions, assignments and templates
are in them; names are names, strings fit between quotes, and the plain text of a number is parsed
to it; and what is called, indexed or asked for a property is no operator in front of an operand,
which would be taken apart. -/
inductive Expr.Printable : Expr → Prop
  | number {x m e span} (hx : Number.exact x = .finite false m e)
      (hplain : Number.parse? (Number.plain x) = some x) : Printable (.number x span)
  | float {x m e span} (hx : Number.exact32 x = .finite false m e)
      (hplain : Number.parse32? (Number.plain32 x) = some x) : Printable (.float x span)
  | string {text span} (h : Quotable text) : Printable (.string text span)
  | bool {b span} : Printable (.bool b span)
  | null {span} : Printable (.null span)
  | var {name span} (h : IsName name) : Printable (.var name span)
  | this {span} : Printable (.this span)
  | binary {left op right span} (hl : left.Printable) (hr : right.Printable) :
      Printable (.binary left op right span)
  | logical {left op right span} (hl : left.Printable) (hr : right.Printable) :
      Printable (.logical left op right span)
  | unary {op operand span} (h : operand.Printable) : Printable (.unary op operand span)
  | call {callee args span} (hop : callee.isUnary = false) (h : callee.Printable)
      (hargs : ∀ a ∈ args, a.Printable) (hroom : args.length ≤ Parser.maxArguments) :
      Printable (.call callee args span)
  | get {object name span} (hop : object.isUnary = false) (h : object.Printable)
      (hname : IsName name) : Printable (.get object name span)
  | index {object key span} (hop : object.isUnary = false) (h : object.Printable)
      (hkey : key.Printable) : Printable (.index object key span)
  | list {elements span} (h : ∀ e ∈ elements, e.Printable) : Printable (.list elements span)
  | map {entries span} (hkeys : ∀ entry ∈ entries, Quotable entry.1)
      (h : ∀ entry ∈ entries, entry.2.Printable) : Printable (.map entries span)

/-! ## Kinds of tokens -/

/-- Things with commas between them. -/
def commas : List (List Kind) → List Kind
  | [] => []
  | [ks] => ks
  | ks :: kss => ks ++ .symbol .comma :: commas kss

mutual

/-- The kinds of the tokens in the text of an expression, unless it is a function, an assignment or
a template. -/
def Expr.kinds : Expr → List Kind
  | .number x _ => [.number x]
  | .float x _ => [.float x]
  | .string text _ => [.string text]
  | .bool b _ => [.keyword (if b then .kwTrue else .kwFalse)]
  | .null _ => [.keyword .kwNull]
  | .var name _ => [.ident name]
  | .this _ => [.keyword .kwThis]
  | .binary left op right _ =>
    .symbol .leftParen :: (left.kinds ++ .symbol op.mark :: (right.kinds ++ [.symbol .rightParen]))
  | .logical left op right _ =>
    .symbol .leftParen :: (left.kinds ++ .symbol op.mark :: (right.kinds ++ [.symbol .rightParen]))
  | .unary op operand _ => .symbol op.mark :: operand.kinds
  | .call callee args _ =>
    callee.kinds ++ .symbol .leftParen :: (commas (kindsAll args) ++ [.symbol .rightParen])
  | .get object name _ => object.kinds ++ [.symbol .dot, .ident name]
  | .index object key _ =>
    object.kinds ++ .symbol .leftBracket :: (key.kinds ++ [.symbol .rightBracket])
  | .list elements _ =>
    .symbol .leftBracket :: (commas (kindsAll elements) ++ [.symbol .rightBracket])
  | .map entries _ =>
    .symbol .leftBrace :: (commas (kindsEntries entries) ++ [.symbol .rightBrace])
  | .lambda .. | .set .. | .indexSet .. | .template .. => []

/-- The kinds of the tokens of each expression. -/
def kindsAll : List Expr → List (List Kind)
  | [] => []
  | e :: es => e.kinds :: kindsAll es

/-- The kinds of the tokens of each entry of a map. -/
def kindsEntries : List (String × Expr) → List (List Kind)
  | [] => []
  | (key, e) :: entries => (.string key :: .symbol .colon :: e.kinds) :: kindsEntries entries

end

/-- The text of an entry of a map. -/
def renderEntry (entry : String × Expr) : String :=
  quoteLiteral entry.1 ++ ": " ++ entry.2.render

/-- The kinds of the tokens of an entry of a map. -/
def entryKinds (entry : String × Expr) : List Kind :=
  .string entry.1 :: .symbol .colon :: entry.2.kinds

theorem renderAll_eq_map (es : List Expr) : renderAll es = es.map Expr.render := by
  induction es with
  | nil => rfl
  | cons e es ih => rw [renderAll, ih, List.map_cons]

theorem renderEntries_eq_map (entries : List (String × Expr)) :
    renderEntries entries = entries.map renderEntry := by
  induction entries with
  | nil => rfl
  | cons entry entries ih => rw [renderEntries, ih, List.map_cons, renderEntry]

theorem kindsAll_eq_map (es : List Expr) : kindsAll es = es.map Expr.kinds := by
  induction es with
  | nil => rfl
  | cons e es ih => rw [kindsAll, ih, List.map_cons]

theorem kindsEntries_eq_map (entries : List (String × Expr)) :
    kindsEntries entries = entries.map entryKinds := by
  induction entries with
  | nil => rfl
  | cons entry entries ih => rw [kindsEntries, ih, List.map_cons, entryKinds]

/-! ## Texts and tokens -/

section Spelling

variable {tail : List Char}

/-- Marks that are read by themselves and keep what is in front of them apart. -/
theorem spells_mark {c : Char} {mark : Symbol} (hblank : Text.isBlank c = false)
    (hscan : scan c tail = .found (.symbol mark) 0) (hline : c ≠ '\n') :
    Spells [c] [.symbol mark] tail :=
  spells_token hblank (by simpa using hline.symm) hscan

theorem spells_commas {α : Type} {text : α → String} {kinds : α → List Kind} {xs : List α}
    (h : ∀ x ∈ xs, ∀ {tail}, Apart tail → Spells (text x).toList (kinds x) tail)
    (ht : Apart tail) :
    Spells (commaSeparated (xs.map text)).toList (commas (xs.map kinds)) tail := by
  induction xs with
  | nil => exact spells_nil
  | cons x xs ih =>
    have ih := ih fun x hx => h x (List.mem_cons_of_mem _ hx)
    cases xs with
    | nil => simpa [commaSeparated, commas] using h x List.mem_cons_self ht
    | cons x' xs =>
      have hcomma : ∀ tail, Spells [',', ' '] [.symbol .comma] tail := fun tail =>
        (spells_mark (by decide) rfl (by decide)).append spells_blank
      have hx : ∀ tail, Spells (text x).toList (kinds x) (',' :: tail) := fun _ =>
        h x List.mem_cons_self (apart_cons (by decide))
      simpa [commaSeparated, commas] using (hx _).append ((hcomma _).append ih)

/-- A text that makes no other mark of a unary operator in front of it. -/
def Opens (cs : List Char) : Prop := ∃ c cs', cs = c :: cs' ∧ c ≠ '=' ∧ c ≠ '>'

theorem opens_cons {c : Char} {cs : List Char} (h : c ≠ '=' ∧ c ≠ '>') : Opens (c :: cs) :=
  ⟨c, cs, rfl, h⟩

theorem Opens.append {cs cs' : List Char} (h : Opens cs) : Opens (cs ++ cs') := by
  obtain ⟨c, cs, rfl, hc⟩ := h
  exact opens_cons hc

theorem opens_isNumeral {text : String} (h : Number.IsNumeral text) : Opens text.toList := by
  obtain ⟨whole, fraction, hne, hw, -, htext⟩ := h
  obtain ⟨d, ds, hcons, hd⟩ := Number.exists_digit_cons_numeral fraction hne hw
  rw [htext, hcons]
  have := isDigit_toNat hd
  refine opens_cons ⟨?_, ?_⟩
  · rintro rfl
    exact absurd this (by decide)
  · rintro rfl
    exact absurd this (by decide)

theorem opens_nameLike {name : String} (h : NameLike name) : Opens name.toList := by
  obtain ⟨c, cs, hname, hc, -⟩ := h
  rw [hname]
  refine opens_cons ⟨?_, ?_⟩
  · rintro rfl
    exact absurd hc (by decide)
  · rintro rfl
    exact absurd hc (by decide)

theorem Expr.Printable.opens_render {e : Expr} (h : e.Printable) : Opens e.render.toList := by
  induction h with
  | number hx hplain => exact opens_isNumeral (Number.isNumeral_scriptText hx)
  | float hx hplain =>
    rw [Expr.render, String.toList_append]
    exact (opens_isNumeral (Number.isNumeral_plain32 hx)).append
  | @string text =>
    rw [Expr.render, quoteLiteral]
    split
    · rw [String.append_assoc, String.toList_append]
      exact opens_cons (by decide)
    · rw [String.append_assoc, String.toList_append]
      exact opens_cons (by decide)
  | @bool b =>
    cases b with
    | true => exact opens_nameLike (nameLike_text .kwTrue)
    | false => exact opens_nameLike (nameLike_text .kwFalse)
  | null => exact opens_nameLike (nameLike_text .kwNull)
  | this => exact opens_nameLike (nameLike_text .kwThis)
  | var h => exact opens_nameLike h.1
  | binary | logical | list | map =>
    simp only [Expr.render, String.toList_append, List.append_assoc]
    exact opens_cons (by decide)
  | @unary op =>
    rw [Expr.render, String.toList_append]
    cases op <;> exact opens_cons (by decide)
  | call hop h hargs hroom ih | get hop h hname ih | index hop h hkey ih =>
    simp only [Expr.render, String.toList_append, List.append_assoc]
    exact ih.append

/-- A text between brackets. -/
theorem spells_enclosed {opening closing : Char} {left right : Symbol} {inner : List Char}
    {ks : List Kind} (hl : ∀ {tail}, Spells [opening] [.symbol left] tail)
    (hr : ∀ {tail}, Spells [closing] [.symbol right] tail)
    (hclosing : continuesName closing = false ∧ isQuote closing = false ∧ closing ≠ '.')
    (h : ∀ {tail}, Apart tail → Spells inner ks tail) :
    Spells (opening :: (inner ++ [closing])) (.symbol left :: (ks ++ [.symbol right])) tail :=
  hl.append ((h (apart_cons hclosing)).append hr)

theorem spells_parens (tail : List Char) {inner : List Char} {ks : List Kind}
    (h : ∀ {tail}, Apart tail → Spells inner ks tail) :
    Spells ('(' :: (inner ++ [')'])) (.symbol .leftParen :: (ks ++ [.symbol .rightParen])) tail :=
  spells_enclosed (spells_mark (by decide) rfl (by decide))
    (spells_mark (by decide) rfl (by decide)) (by decide) h

theorem spells_brackets (tail : List Char) {inner : List Char} {ks : List Kind}
    (h : ∀ {tail}, Apart tail → Spells inner ks tail) :
    Spells ('[' :: (inner ++ [']'])) (.symbol .leftBracket :: (ks ++ [.symbol .rightBracket]))
      tail :=
  spells_enclosed (spells_mark (by decide) rfl (by decide))
    (spells_mark (by decide) rfl (by decide)) (by decide) h

theorem spells_braces (tail : List Char) {inner : List Char} {ks : List Kind}
    (h : ∀ {tail}, Apart tail → Spells inner ks tail) :
    Spells ('{' :: (inner ++ ['}'])) (.symbol .leftBrace :: (ks ++ [.symbol .rightBrace])) tail :=
  spells_enclosed (spells_mark (by decide) rfl (by decide))
    (spells_mark (by decide) rfl (by decide)) (by decide) h

/-- An operator between operands, in parentheses. -/
theorem spells_infix (tail : List Char) {left op right : List Char} {ks ks' : List Kind}
    {mark : Symbol} (hl : ∀ {tail}, Apart tail → Spells left ks tail)
    (hop : ∀ {tail}, Spells op [.symbol mark] (' ' :: tail))
    (hr : ∀ {tail}, Apart tail → Spells right ks' tail) :
    Spells ('(' :: (left ++ ' ' :: (op ++ ' ' :: (right ++ [')']))))
      (.symbol .leftParen :: (ks ++ .symbol mark :: (ks' ++ [.symbol .rightParen]))) tail := by
  have hinner : ∀ {tail}, Apart tail → Spells (left ++ ([' '] ++ (op ++ ([' '] ++ right))))
      (ks ++ ([] ++ ([.symbol mark] ++ ([] ++ ks')))) tail := by
    intro tail ht
    have hoperator := hop.append (spells_blank.append (hr ht))
    exact (hl (apart_cons (by decide))).append (spells_blank.append hoperator)
  simpa using spells_parens tail hinner

/-- The text of an entry: the key as a string, a colon, and the value. -/
theorem spells_renderEntry {entry : String × Expr} (hkey : Quotable entry.1)
    (h : ∀ {tail}, Apart tail → Spells entry.2.render.toList entry.2.kinds tail)
    (ht : Apart tail) : Spells (renderEntry entry).toList (entryKinds entry) tail := by
  have hcolon : ∀ {tail}, Spells [':', ' '] [.symbol .colon] tail :=
    (spells_mark (by decide) rfl (by decide)).append spells_blank
  simpa [renderEntry, entryKinds] using (spells_quoteLiteral hkey).append (hcolon.append (h ht))

/-- A point and a name after an operand. -/
theorem spells_property {name : String} (h : IsName name) (ht : Apart tail) :
    Spells ('.' :: name.toList) [.symbol .dot, .ident name] tail :=
  (spells_mark (by decide) rfl (by decide)).append (spells_name h ht)

theorem apart_property {name : String} (h : IsName name) :
    Apart ('.' :: (name.toList ++ tail)) := by
  obtain ⟨⟨c, cs, hname, hc, -⟩, -⟩ := h
  rw [hname]
  exact apart_point hc

/-- The text of a printable expression spells its tokens. -/
theorem Expr.Printable.spells_render {e : Expr} (h : e.Printable) :
    ∀ {tail}, Apart tail → Spells e.render.toList e.kinds tail := by
  induction h with
  | number hx hplain => exact spells_number hx hplain
  | float hx hplain => exact spells_single hx hplain
  | string h => exact fun _ => spells_quoteLiteral h
  | @bool b =>
    cases b with
    | true => exact spells_keyword .kwTrue
    | false => exact spells_keyword .kwFalse
  | null => exact spells_keyword .kwNull
  | this => exact spells_keyword .kwThis
  | var h => exact spells_name h
  | @binary left op right span hl hr ihl ihr =>
    intro tail ht
    simpa [Expr.render, Expr.kinds] using spells_infix tail ihl op.spells_text ihr
  | @logical left op right span hl hr ihl ihr =>
    intro tail ht
    simpa [Expr.render, Expr.kinds] using spells_infix tail ihl op.spells_text ihr
  | @unary op operand span h ih =>
    intro tail ht
    obtain ⟨c, cs, hcons, hc⟩ := h.opens_render
    have hop : Spells op.text.toList [.symbol op.mark] (operand.render.toList ++ tail) := by
      rw [hcons]
      exact op.spells_text fun d hd => Option.some.inj hd ▸ hc
    simpa [Expr.render, Expr.kinds] using hop.append (ih ht)
  | call hop h hargs hroom ih ihargs =>
    intro tail ht
    have hargs := spells_parens tail (spells_commas ihargs)
    rw [← renderAll_eq_map, ← kindsAll_eq_map] at hargs
    simpa [Expr.render, Expr.kinds] using (ih (apart_cons (by decide))).append hargs
  | get hop h hname ih =>
    intro tail ht
    have hproperty := spells_property hname ht
    simpa [Expr.render, Expr.kinds] using (ih (apart_property hname)).append hproperty
  | index hop h hkey ih ihkey =>
    intro tail ht
    have hkey := spells_brackets tail ihkey
    simpa [Expr.render, Expr.kinds] using (ih (apart_cons (by decide))).append hkey
  | list h ih =>
    intro tail ht
    have helements := spells_brackets tail (spells_commas ih)
    rw [← renderAll_eq_map, ← kindsAll_eq_map] at helements
    simpa [Expr.render, Expr.kinds] using helements
  | map hkeys h ih =>
    intro tail ht
    have hentries := spells_braces tail
      (spells_commas fun entry hentry => spells_renderEntry (hkeys entry hentry) (ih entry hentry))
    rw [← renderEntries_eq_map, ← kindsEntries_eq_map] at hentries
    simpa [Expr.render, Expr.kinds] using hentries

end Spelling

end ScriptEngine
