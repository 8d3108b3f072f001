import Mathlib.Data.List.Forall2
import ScriptEngine.Proofs.ParsedShapes
/-!
# Embedded code ends where the lexer went on

The end of a template is found by counting braces, and so are the ends of the code that is embedded
in its body. The two counts differ at quotes and at braces that close nothing, but wherever embedded
code begins the lexer has counted no open brace. From there on both see the same, so the brace that
closes the code is in the body.

* `Template.Nesting`, `Template.Enclosed` : the count of open braces, and code that lies between two
  braces which belong together.
* `Template.closesAfter_of_codeLength` : what is found as the end of code is the brace that closes
  it.
* `Token.Body`, `Token.Body.exists_codeLength` : in the body of a template there is one.
* `Template.Piece.Fits`, `Template.fits_of_body` : the pieces of such a body, and the body as their
  concatenation.
* **`Token.templates_split`** : the templates of a source text.

The lexer counts in `fstring_ahead` and `scan_fstring`, the parser in `parse_fstring` and
`find_matching_brace`. Whether the code between two braces can be read is out of scope here: a
template whose code has a mistake is a mistake of the parser, though never that of an unmatched
brace.
-/

namespace ScriptEngine

namespace Template

/-! ## Counting braces -/

/-- What counts on the way through embedded code: how many braces are open, and the quote of the
string that the next character lies in. -/
structure Nesting where
  depth : Int
  inner : Option Char
  deriving DecidableEq

namespace Nesting

/-- After one more character. Nothing counts in a string but the quote that ends it. -/
def next (s : Nesting) (c : Char) : Nesting :=
  match s.inner with
  | some q => ⟨s.depth, if c = q then none else some q⟩
  | none =>
    if Token.isQuote c then ⟨s.depth, some c⟩
    else if c = '{' then ⟨s.depth + 1, none⟩
    else if c = '}' then ⟨s.depth - 1, none⟩
    else s

theorem next_open (depth : Int) : next ⟨depth, none⟩ '{' = ⟨depth + 1, none⟩ := rfl

theorem next_close (depth : Int) : next ⟨depth, none⟩ '}' = ⟨depth - 1, none⟩ := rfl

theorem next_quote (depth : Int) {c : Char} (hc : Token.isQuote c) :
    next ⟨depth, none⟩ c = ⟨depth, some c⟩ :=
  if_pos hc

theorem next_other (s : Nesting) {c : Char} (hs : s.inner = none) (hquote : ¬Token.isQuote c)
    (hopen : c ≠ '{') (hclose : c ≠ '}') : s.next c = s := by
  simp only [next, hs, if_neg hquote, if_neg hopen, if_neg hclose]

/-- After a run of characters. -/
def after (s : Nesting) (cs : List Char) : Nesting := cs.foldl next s

end Nesting

/-- In front of every character of the run, and behind the last one, a brace is open, and at its end
the first one alone: the next brace that closes one closes that. -/
structure ClosesAfter (s : Nesting) (cs : List Char) : Prop where
  inside : ∀ before rest, cs = before ++ rest → 1 ≤ (s.after before).depth
  last : s.after cs = ⟨1, none⟩

/-- The code lies between two braces that belong together. -/
abbrev Enclosed (code : List Char) : Prop := ClosesAfter ⟨1, none⟩ code

theorem closesAfter_nil : ClosesAfter ⟨1, none⟩ [] where
  inside before rest h := by
    obtain ⟨rfl, -⟩ := List.append_eq_nil_iff.mp h.symm
    exact Int.le_refl 1
  last := rfl

theorem ClosesAfter.cons {s : Nesting} {c : Char} {cs : List Char} (hs : 1 ≤ s.depth)
    (h : ClosesAfter (s.next c) cs) : ClosesAfter s (c :: cs) where
  inside before rest heq := by
    cases before with
    | nil => exact hs
    | cons d before =>
      obtain ⟨rfl, hcs⟩ := List.cons.inj heq
      exact h.inside before rest hcs
  last := h.last

/-- What is found to close the code is the brace that does. -/
theorem closesAfter_of_codeLength {depth : Nat} {inner : Option Char} {cs : List Char} {n : Nat}
    (hdepth : 1 ≤ depth) (h : codeLength? depth inner cs = some n) :
    ClosesAfter ⟨depth, inner⟩ (cs.take n) ∧ cs = cs.take n ++ '}' :: cs.drop (n + 1) := by
  induction cs generalizing depth inner n with
  | nil => cases inner <;> cases h
  | cons c cs ih =>
    -- all but the last brace leave something to look for in what is behind them
    have step {depth' : Nat} {inner' : Option Char} (hdepth' : 1 ≤ depth')
        (hnext : Nesting.next ⟨depth, inner⟩ c = ⟨depth', inner'⟩)
        (h : (codeLength? depth' inner' cs).map (· + 1) = some n) :
        ClosesAfter ⟨depth, inner⟩ ((c :: cs).take n) ∧
          c :: cs = (c :: cs).take n ++ '}' :: (c :: cs).drop (n + 1) := by
      obtain ⟨m, hm, rfl⟩ := Option.map_eq_some_iff.mp h
      obtain ⟨hcloses, hcs⟩ := ih hdepth' hm
      refine ⟨.cons (Int.ofNat_le.mpr hdepth) ?_, congrArg (c :: ·) hcs⟩
      rw [hnext]
      exact hcloses
    cases inner with
    | some q => exact step hdepth rfl h
    | none =>
      rw [codeLength?] at h
      split at h
      · next hquote => exact step hdepth (Nesting.next_quote _ hquote) h
      split at h
      · next hopen =>
        subst hopen
        exact step (Nat.le_succ_of_le hdepth) (Nesting.next_open _) h
      split at h
      · next hclose =>
        subst hclose
        split at h
        · next hone =>
          obtain rfl := Option.some.inj h
          subst hone
          exact ⟨closesAfter_nil, rfl⟩
        · next hone =>
          have hpred : ((depth - 1 : Nat) : Int) = depth - 1 := Int.ofNat_sub hdepth
          refine step (by omega) ?_ h
          rw [hpred]
          exact Nesting.next_close _
      · next hquote hopen hclose =>
          exact step hdepth (Nesting.next_other _ rfl hquote hopen hclose) h

end Template

/-! ## Bodies -/

namespace Token

variable {quote : Char} {depth n : Nat} {inner : Option Char} {cs : List Char}

/-- The characters go through to the end of a template in the given quote, from where so many braces
are open and `inner` is the quote of the string that the next character lies in. A brace that closes
nothing is passed over, and so are quotes of the other kind outside of braces. -/
inductive Body (quote : Char) : (depth : Nat) → (inner : Option Char) → List Char → Prop
  | ends : Body quote 0 none []
  | inString {depth : Nat} {q c : Char} {cs : List Char}
      (rest : Body quote depth (if c = q then none else some q) cs) :
      Body quote depth (some q) (c :: cs)
  | opens {depth : Nat} {cs : List Char} (rest : Body quote (depth + 1) none cs) :
      Body quote depth none ('{' :: cs)
  | closes {depth : Nat} {cs : List Char} (rest : Body quote (depth - 1) none cs) :
      Body quote depth none ('}' :: cs)
  | begins {depth : Nat} {c : Char} {cs : List Char} (hc : isQuote c)
      (rest : Body quote (depth + 1) (some c) cs) : Body quote (depth + 1) none (c :: cs)
  | plain {depth : Nat} {c : Char} {cs : List Char} (hend : ¬(c = quote ∧ depth = 0))
      (hopen : c ≠ '{') (hclose : c ≠ '}') (hquote : ¬(isQuote c ∧ 0 < depth))
      (rest : Body quote depth none cs) :
      Body quote depth none (c :: cs)

/-- The length of the body is that of characters that go through to the quote. -/
theorem body_of_bodyLength (h : bodyLength? quote depth inner cs = some n) :
    Body quote depth inner (cs.take n) ∧ cs.take (n + 1) = cs.take n ++ [quote] := by
  induction cs generalizing depth inner n with
  | nil => cases inner <;> cases h
  | cons c cs ih =>
    have step {depth' : Nat} {inner' : Option Char}
        (hrest : ∀ {cs}, Body quote depth' inner' cs → Body quote depth inner (c :: cs))
        (h : (bodyLength? quote depth' inner' cs).map (· + 1) = some n) :
        Body quote depth inner ((c :: cs).take n) ∧
          (c :: cs).take (n + 1) = (c :: cs).take n ++ [quote] := by
      obtain ⟨m, hm, rfl⟩ := Option.map_eq_some_iff.mp h
      obtain ⟨hbody, hcs⟩ := ih hm
      exact ⟨hrest hbody, congrArg (c :: ·) hcs⟩
    cases inner with
    | some q => exact step .inString h
    | none =>
      rw [bodyLength?] at h
      split at h
      · next hend =>
        obtain ⟨rfl, rfl⟩ := hend
        obtain rfl := Option.some.inj h
        exact ⟨.ends, rfl⟩
      next hend =>
      split at h
      · next hopen =>
        subst hopen
        exact step .opens h
      next hopen =>
      split at h
      · next hclose =>
        subst hclose
        exact step .closes h
      next hclose =>
      split at h
      · next hquote =>
        obtain ⟨d, rfl⟩ := Nat.exists_eq_add_of_lt hquote.2
        rw [Nat.zero_add] at h step ⊢
        exact step (.begins hquote.1) h
      · next hquote => exact step (.plain hend hopen hclose hquote) h

/-- Behind an open brace of the body comes the one that closes it, and the body goes on behind
that. -/
theorem Body.exists_codeLength (h : Body quote (depth + 1) inner cs) :
    ∃ n, Template.codeLength? (depth + 1) inner cs = some n ∧
      Body quote 0 none (cs.drop (n + 1)) := by
  generalize hd : depth + 1 = d at h
  induction h generalizing depth with
  | ends => cases hd
  | @inString _ q c cs _ ih =>
    obtain ⟨n, hn, hbody⟩ := ih hd
    refine ⟨n + 1, ?_, hbody⟩
    rw [Template.codeLength?, hn]
    rfl
  | opens _ ih =>
    obtain ⟨n, hn, hbody⟩ := ih rfl
    refine ⟨n + 1, ?_, hbody⟩
    rw [Template.codeLength?, if_neg (by decide), if_pos rfl, hn]
    rfl
  | closes rest ih =>
    subst hd
    cases depth with
    | zero => exact ⟨0, rfl, rest⟩
    | succ depth =>
      obtain ⟨n, hn, hbody⟩ := ih rfl
      refine ⟨n + 1, ?_, hbody⟩
      rw [Template.codeLength?, if_neg (by decide), if_neg (by decide), if_pos rfl,
        if_neg (by omega)]
      exact congrArg (Option.map (· + 1)) hn
  | begins hc _ ih =>
    obtain ⟨n, hn, hbody⟩ := ih hd
    refine ⟨n + 1, ?_, hbody⟩
    rw [Template.codeLength?, if_pos hc, hn]
    rfl
  | plain _ hopen hclose hquote _ ih =>
    obtain ⟨n, hn, hbody⟩ := ih hd
    refine ⟨n + 1, ?_, hbody⟩
    have hquote : ¬isQuote _ := fun hc => hquote ⟨hc, by omega⟩
    rw [Template.codeLength?, if_neg hquote, if_neg hopen, if_neg hclose, hn]
    rfl

end Token

/-! ## Pieces -/

namespace Template

variable {quote : Char}

/-- The characters of the body that a piece was made from. -/
def Piece.source : Piece → List Char
  | .text cs => cs
  | .code cs => '{' :: cs ++ ['}']
  | .unmatched => []

/-- What the pieces of a template in the given quote are like: no brace opens in a text and the
quote is not in it, and code lies between braces that belong together. -/
def Piece.Fits (quote : Char) : Piece → Prop
  | .text cs => cs ≠ [] ∧ quote ∉ cs ∧ '{' ∉ cs
  | .code cs => Enclosed cs
  | .unmatched => False

theorem fits_of_mem_textPiece {reversed : List Char} (hquote : quote ∉ reversed)
    (hopen : '{' ∉ reversed) :
    ∀ piece ∈ textPiece reversed, piece.Fits quote := by
  intro piece hpiece
  unfold textPiece at hpiece
  split at hpiece
  · cases hpiece
  · next hne =>
    obtain rfl := List.mem_singleton.mp hpiece
    refine ⟨?_, ?_, ?_⟩ <;> simp_all

theorem flatMap_source_textPiece (reversed : List Char) :
    (textPiece reversed).flatMap Piece.source = reversed.reverse := by
  unfold textPiece
  split <;> simp_all [Piece.source]

theorem body_of_opens {cs : List Char} (h : Token.Body quote 0 none ('{' :: cs)) :
    Token.Body quote 1 none cs := by
  cases h with
  | opens rest => exact rest
  | plain _ hopen => exact absurd rfl hopen

/-- **The braces around every piece of code are found**, and nothing of a body that the lexer read
is lost between its pieces. -/
theorem fits_of_body (hq : Token.isQuote quote) {reversed cs : List Char}
    (hbody : Token.Body quote 0 none cs) (hquote : quote ∉ reversed)
    (hopen : '{' ∉ reversed) :
    (∀ piece ∈ piecesFrom reversed cs, piece.Fits quote) ∧
      (piecesFrom reversed cs).flatMap Piece.source = reversed.reverse ++ cs := by
  induction reversed, cs using piecesFrom.induct with
  | case1 reversed =>
    rw [piecesFrom, flatMap_source_textPiece, List.append_nil]
    exact ⟨fits_of_mem_textPiece hquote hopen, rfl⟩
  | case2 reversed cs hcode =>
    obtain ⟨n, hn, -⟩ := (body_of_opens hbody).exists_codeLength
    rw [hcode] at hn
    cases hn
  | case3 reversed cs n hcode ih =>
    obtain ⟨m, hm, hrest⟩ := (body_of_opens hbody).exists_codeLength
    obtain rfl : m = n := Option.some.inj (hm.symm.trans hcode)
    obtain ⟨hcloses, hcs⟩ := closesAfter_of_codeLength (Nat.le_refl 1) hcode
    obtain ⟨hfits, hsource⟩ := ih hrest List.not_mem_nil List.not_mem_nil
    rw [piecesFrom, hcode]
    refine ⟨List.forall_mem_append.mpr ⟨fits_of_mem_textPiece hquote hopen,
      List.forall_mem_cons.mpr ⟨hcloses, hfits⟩⟩, ?_⟩
    rw [List.flatMap_append, List.flatMap_cons, flatMap_source_textPiece, hsource]
    have hall : (Piece.code (cs.take m)).source ++ cs.drop (m + 1) = '{' :: cs := by
      rw [Piece.source, List.append_assoc]
      exact congrArg ('{' :: ·) hcs.symm
    exact congrArg (reversed.reverse ++ ·) hall
  | case4 reversed c cs hne ih =>
    have hc : c ≠ '{' := fun h => hne h
    have hrest : Token.Body quote 0 none cs ∧ c ≠ quote := by
      cases hbody with
      | opens => exact absurd rfl hc
      | closes rest =>
        refine ⟨rest, ?_⟩
        rintro rfl
        exact absurd hq (by decide)
      | plain hend _ _ _ rest => exact ⟨rest, fun h => hend ⟨h, rfl⟩⟩
    obtain ⟨hfits, hsource⟩ := ih hrest.1 (List.not_mem_cons_of_ne_of_not_mem hrest.2.symm hquote)
      (List.not_mem_cons_of_ne_of_not_mem hc.symm hopen)
    have hpieces : piecesFrom reversed (c :: cs) = piecesFrom (c :: reversed) cs := by
      rw [piecesFrom]
      exact hne
    rw [hpieces]
    refine ⟨hfits, ?_⟩
    rw [hsource, List.reverse_cons, List.append_assoc]
    rfl

/-! ### Trees -/

variable {again : Parser.Productions} {span : Span}

/-- What a piece is read as. -/
inductive Piece.ReadsAs (again : Parser.Productions) (span : Span) : Piece → Part → Prop
  | text (cs : List Char) : ReadsAs again span (.text cs) (.literal (String.ofList cs))
  | code {cs : List Char} {e : Expr} {s t : Parser.State} (hnb : ¬cs.all Text.isBlank)
      (he : Parser.embedded again (String.ofList cs) span s = .ok e t) :
      ReadsAs again span (.code cs) (.embedded e)

/-- The parts of a template are what its pieces are read as, one by one. -/
theorem gives_readsAs (pieces : List Piece) :
    Parser.Gives (Parser.templateParts again span pieces)
      (List.Forall₂ (Piece.ReadsAs again span) pieces) := by
  induction pieces with
  | nil => exact .pure .nil
  | cons piece pieces ih =>
    cases piece with
    | text cs => exact ih.bind fun parts hparts => .pure (.cons (.text cs) hparts)
    | unmatched => exact .fail _
    | code cs =>
      rw [Parser.templateParts]
      split
      · exact .fail _
      · next hnb =>
        refine Parser.Gives.bind (P := fun e => ∃ s t, Parser.embedded again (String.ofList cs) span
          s = .ok e t)
          (fun s e t he => ⟨s, t, he⟩) fun e ⟨s, t, he⟩ => ?_
        exact ih.bind fun parts hparts => .pure (.cons (.code hnb he) hparts)

theorem fault_of_embedded {code : String} {f : Fault} {s t : Parser.State}
    (h : Parser.embedded again code span s = .error f t) :
    ∃ message, f = .placed (.syntactic (.invalidTemplate (.badExpression code message))) span := by
  unfold Parser.embedded at h
  split at h
  · cases h
    exact ⟨_, rfl⟩
  · split at h
    · cases h
    · cases h
      exact ⟨_, rfl⟩
    · split at h
      · cases h
        exact ⟨_, rfl⟩
      · split at h
        · cases h
          exact ⟨_, rfl⟩
        · cases h

theorem error_of_cons {parts : Parser (List Part)} {part : Part} {f : Fault} {s t : Parser.State}
    (h : (do return part :: (← parts) : Parser (List Part)) s = .error f t) :
    parts s = .error f t := by
  simp only [Bind.bind] at h
  cases hparts : parts s with
  | ok rest u => rw [hparts] at h; cases h
  | error f' u => rw [hparts] at h; cases h; rfl
  | exhausted => rw [hparts] at h; cases h

/-- Unless a brace is unmatched, no fault says so. -/
theorem ne_unmatched_of_templateParts {pieces : List Piece} {f : Fault} {s t : Parser.State}
    (hmatched : .unmatched ∉ pieces) (h : Parser.templateParts again span pieces s = .error f t) :
    f ≠ .placed (.syntactic (.invalidTemplate .unmatchedBrace)) span := by
  induction pieces generalizing s with
  | nil => cases h
  | cons piece pieces ih =>
    obtain ⟨hhead, hrest⟩ := List.ne_and_not_mem_of_not_mem_cons hmatched
    cases piece with
    | text cs => exact ih hrest (error_of_cons h)
    | unmatched => exact absurd rfl hhead
    | code cs =>
      rw [Parser.templateParts] at h
      split at h
      · cases h
        exact nofun
      · simp only [Bind.bind] at h
        cases he : Parser.embedded again (String.ofList cs) span s with
        | ok e u =>
          rw [he] at h
          exact ih hrest (error_of_cons h)
        | error f' u =>
          rw [he] at h
          cases h
          obtain ⟨message, rfl⟩ := fault_of_embedded he
          exact nofun
        | exhausted => rw [he] at h; cases h

end Template

/-! ## Templates in a text -/

namespace Token

/-- What is found is no template, or one whose quotes and body were taken. -/
def Scan.Encloses (c : Char) (cs : List Char) : Scan → Prop
  | .found kind more => ∀ body, kind = .template body → ∃ quote, isQuote quote ∧
      Body quote 0 none body.toList ∧ c :: cs.take more = 'f' :: quote :: body.toList ++ [quote]
  | .failed .. => True

theorem encloses_found {c : Char} {cs : List Char} {kind : Kind} {more : Nat}
    (h : ∀ body, kind ≠ .template body) : (Scan.found kind more).Encloses c cs :=
  fun body hbody => absurd hbody (h body)

theorem encloses_scanTemplate {quote : Char} (hq : isQuote quote) (cs : List Char) :
    (scanTemplate quote cs).Encloses 'f' (quote :: cs) := by
  unfold scanTemplate
  split
  · next n hn =>
    intro body hbody
    obtain rfl := Kind.template.inj hbody
    obtain ⟨hbody, hcs⟩ := body_of_bodyLength hn
    rw [String.toList_ofList]
    exact ⟨quote, hq, hbody, congrArg ('f' :: quote :: ·) hcs⟩
  · trivial

theorem Scan.Encloses.ite {p : Prop} [Decidable p] {c : Char} {cs : List Char} {a b : Scan}
    (ha : a.Encloses c cs) (hb : b.Encloses c cs) : (if p then a else b).Encloses c cs := by
  split
  · exact ha
  · exact hb

theorem encloses_scanPair (c : Char) (cs : List Char) (short : Symbol)
    (longer : List (Char × Symbol)) :
    (scanPair cs short longer).Encloses c cs := by
  unfold scanPair
  split <;> exact encloses_found fun _ => nofun

theorem encloses_scanNumber (c : Char) (cs : List Char) : (scanNumber c cs).Encloses c cs := by
  unfold scanNumber
  refine .ite ?_ ?_ <;> split
  · exact encloses_found fun _ => nofun
  · trivial
  · exact encloses_found fun _ => nofun
  · trivial

theorem encloses_scanString (c : Char) (cs : List Char) : (scanString c cs).Encloses c cs := by
  unfold scanString
  exact .ite (encloses_found fun _ => nofun) trivial

theorem encloses_scanName (c : Char) (cs : List Char) : (scanName c cs).Encloses c cs := by
  unfold scanName
  refine encloses_found fun body => ?_
  split <;> exact nofun

theorem encloses_scan (c : Char) (cs : List Char) : (scan c cs).Encloses c cs := by
  unfold scan
  split
  case h_19 =>
    split
    · exact encloses_found fun _ => nofun
    · split
      · exact encloses_found fun _ => nofun
      · trivial
    · exact encloses_scanPair ..
  case h_20 | h_21 => exact .ite (encloses_found fun _ => nofun) trivial
  case h_22 =>
    refine .ite (encloses_scanString c cs) (.ite (encloses_scanNumber c cs) ?_)
    split
    · exact encloses_scanTemplate (by decide) _
    · exact encloses_scanTemplate (by decide) _
    · exact .ite (encloses_scanName c cs) trivial
  all_goals first | exact encloses_found fun _ => nofun | exact encloses_scanPair ..

/-- A template among the tokens of a text is written with its quotes around its body. -/
theorem encloses_of_tokensFrom {p : Position} {cs : List Char} {tokens : List Token}
    (h : tokensFrom p cs = .ok tokens) {t : Token} (ht : t ∈ tokens) {body : String}
    (hbody : t.kind = .template body) :
    ∃ quote, isQuote quote ∧ Body quote 0 none body.toList ∧
      t.lexeme = String.ofList ('f' :: quote :: body.toList ++ [quote]) := by
  induction p, cs using tokensFrom.induct generalizing tokens with
  | case1 p =>
    rw [tokensFrom] at h
    cases h
    obtain rfl := List.mem_singleton.mp ht
    cases hbody
  | case2 p c cs hblank ih =>
    rw [tokensFrom, if_pos hblank] at h
    exact ih h ht
  | case3 p c cs hblank error more hscan =>
    rw [tokensFrom, if_neg hblank, hscan] at h
    cases h
  | case4 p c cs hblank kind more hscan lexeme =>
    rename_i ih
    rw [tokensFrom, if_neg hblank, hscan] at h
    have hencloses := encloses_scan c cs
    rw [hscan] at hencloses
    cases hrest : tokensFrom (p.after (c :: cs.take more)) (cs.drop more) with
    | error fault => simp [hrest, bind, Except.bind] at h
    | ok rest =>
      simp only [hrest, bind, Except.bind, pure, Except.pure, Except.ok.injEq] at h
      subst h
      rcases List.mem_cons.mp ht with rfl | ht
      · obtain ⟨quote, hq, hclosed, hlexeme⟩ := hencloses body hbody
        exact ⟨quote, hq, hclosed, congrArg String.ofList hlexeme⟩
      · exact ih hrest ht

/-- **Lexer and parser agree on where embedded code ends.** Every template among the tokens of a
text is its body between two quotes. The parser cuts the body into pieces without losing any of it;
none of them is an unmatched brace, and the count of open braces in a piece of code comes to nothing
first at the brace behind it; and the quote that closes the template is in none of the texts between
them. Whatever the code is read by, no brace is blamed for being unmatched, and the parts of the
template are what the pieces are read as. -/
theorem templates_split {first : Nat} {source : String} {tokens : List Token}
    (hread : tokenizeAt first source = .ok tokens) :
    ∀ t ∈ tokens, ∀ body, t.kind = .template body →
      (∃ quote, isQuote quote ∧ t.lexeme = String.ofList ('f' :: quote :: body.toList ++ [quote]) ∧
        ∀ piece ∈ Template.pieces body, piece.Fits quote) ∧
      (Template.pieces body).flatMap Template.Piece.source = body.toList ∧
      ∀ again span s,
        (∀ f s', Parser.templateParts again span (Template.pieces body) s = .error f s' →
          f ≠ .placed (.syntactic (.invalidTemplate .unmatchedBrace)) span) ∧
        ∀ parts s', Parser.templateParts again span (Template.pieces body) s = .ok parts s' →
          List.Forall₂ (Template.Piece.ReadsAs again span) (Template.pieces body) parts := by
  intro t ht body hbody
  obtain ⟨quote, hq, hclosed, hlexeme⟩ := encloses_of_tokensFrom hread ht hbody
  obtain ⟨hfits, hsource⟩ := Template.fits_of_body hq hclosed (List.not_mem_nil) (List.not_mem_nil)
  refine ⟨⟨quote, hq, hlexeme, hfits⟩, hsource, fun again span s =>
    ⟨fun f s' hf => ?_, fun parts s' hparts => ?_⟩⟩
  · exact Template.ne_unmatched_of_templateParts (fun hmem => hfits _ hmem) hf
  · exact Template.gives_readsAs _ _ _ _ hparts

/-- A brace that closes nothing, one in a string of the code, and a template in the code of a
template, with quotes of the other kind around it. -/
def nestedQuotes : String := "f\"a\x7d \x7bm['\x7d']\x7d '\x7bf'\x7bx\x7d'\x7d'b\""

theorem templates_split_nested :
    ∃ t last body, tokenizeAt 1 nestedQuotes = .ok [t, last] ∧ t.kind = .template body ∧
      (∃ quote, ∀ piece ∈ Template.pieces body, piece.Fits quote) ∧
      (Template.pieces body).flatMap Template.Piece.source = body.toList ∧
      Template.pieces body =
        [.text ['a', '}', ' '], .code ['m', '[', '\'', '}', '\'', ']'], .text [' ', '\''],
          .code ['f', '\'', '{', 'x', '}', '\''], .text ['\'', 'b']] := by
  have hmap : (tokenizeAt 1 nestedQuotes).toOption.map (List.map Token.kind) =
      some [.template "a\x7d \x7bm['\x7d']\x7d '\x7bf'\x7bx\x7d'\x7d'b", .eof] := by
    decide +kernel
  cases hread : tokenizeAt 1 nestedQuotes with
  | error fault =>
    rw [hread] at hmap
    cases hmap
  | ok tokens =>
    rw [hread] at hmap
    obtain ⟨t, tokens, rfl, ht, hmap⟩ := List.map_eq_cons_iff.mp (Option.some.inj hmap)
    obtain ⟨last, tokens, rfl, -, hnil⟩ := List.map_eq_cons_iff.mp hmap
    obtain rfl := List.map_eq_nil_iff.mp hnil
    obtain ⟨⟨quote, -, -, hfits⟩, hsource, -⟩ := templates_split hread t List.mem_cons_self _ ht
    exact ⟨t, last, _, rfl, ht, ⟨quote, hfits⟩, hsource, by decide +kernel⟩

end Token

end ScriptEngine
