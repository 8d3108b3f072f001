import ScriptEngine.Proofs.Spelling
/-!
# Tokens lie in the text they were read from

Nothing of a text is lost on the way to its tokens but white space, and each token knows where it
stands: in bytes, which lie between characters, and in lines and columns, which are counted in
characters from the beginning.

* `Position.offset_after`, `Position.line_after_eq`, `Position.column_after_atLine` : what a place
  says of the characters in front of it.
* `Token.Lays` : tokens laid out over a text with white space between them.
* `Token.tokenizeAt_lossless` : the tokens of a text lie in it, in order, with white space between
  them.

This is `tokenize` with its cursor (`advance`). What is between tokens is white space; comments are
tokens.
-/

namespace ScriptEngine

/-! ## Places -/

namespace Position

theorem offset_after (p : Position) (cs : List Char) :
    (p.after cs).offset = p.offset + String.utf8Len cs := by
  induction cs generalizing p with
  | nil => rfl
  | cons c cs ih =>
    have hnext : (p.next c).offset = p.offset + c.utf8Size := by
      unfold next
      split <;> rfl
    calc ((p.next c).after cs).offset
        = p.offset + c.utf8Size + String.utf8Len cs := by rw [ih, hnext]
      _ = p.offset + String.utf8Len (c :: cs) := by
        rw [String.utf8Len_cons]
        omega

/-- Each newline passed begins a line. -/
theorem line_after_eq (p : Position) (cs : List Char) :
    (p.after cs).line = p.line + cs.count '\n' := by
  induction cs generalizing p with
  | nil => rfl
  | cons c cs ih =>
    change ((p.next c).after cs).line = _
    rw [ih, List.count_cons]
    by_cases hc : c = '\n'
    · simp [next, hc]
      omega
    · simp [next, hc]

/-- The characters of the last line of a text. -/
def lastLine (cs : List Char) : List Char := cs.reverse.takeWhile (· ≠ '\n')

/-- Columns count the characters since the last newline, or since the beginning. -/
theorem column_after_atLine (line : Nat) (cs : List Char) :
    ((atLine line).after cs).column = 1 + (lastLine cs).length := by
  induction cs using List.reverseRecOn with
  | nil => rfl
  | append_singleton cs c ih =>
    have hlast : (atLine line).after (cs ++ [c]) = ((atLine line).after cs).next c :=
      after_append _ cs [c]
    rw [hlast]
    by_cases hc : c = '\n'
    · simp [next, hc, lastLine]
    · simp only [next, hc, if_false, ih]
      simp [lastLine, hc]
      omega

end Position

namespace Token

open Position

variable {first : Nat} {before cs gap lexeme rest : List Char} {kind : Kind} {tokens : List Token}

/-! ## Texts by bytes -/

/-- The text between two bytes. -/
def textBetween (source : String) (start stop : Nat) : String :=
  String.Pos.Raw.extract source ⟨start⟩ ⟨stop⟩

theorem textBetween_append (before lexeme rest : List Char) :
    textBetween (String.ofList (before ++ lexeme ++ rest)) (String.utf8Len before)
      (String.utf8Len before + String.utf8Len lexeme) = String.ofList lexeme :=
  String.extract_of_valid before lexeme rest

/-- The bytes of a text that begin a character, and its end. -/
def IsBoundary (source : String) (offset : Nat) : Prop :=
  String.Pos.Raw.IsValid source ⟨offset⟩

theorem isBoundary_append (before rest : List Char) :
    IsBoundary (String.ofList (before ++ rest)) (String.utf8Len before) := by
  refine String.Pos.Raw.isValid_iff_exists_append.mpr
    ⟨String.ofList before, String.ofList rest, String.ofList_append, ?_⟩
  rw [String.rawEndPos, String.utf8ByteSize_ofList]

/-- The token says truly where it stands in a text whose first line has the number `first`. -/
structure Placed (first : Nat) (source : String) (t : Token) : Prop where
  start : IsBoundary source t.span.start
  stop : IsBoundary source t.span.stop
  lexeme : textBetween source t.span.start t.span.stop = t.lexeme
  line : t.span.line = first + (textBetween source 0 t.span.start).toList.count '\n'
  column : t.span.column = 1 + (lastLine (textBetween source 0 t.span.start).toList).length

theorem start_ofScan (before lexeme : List Char) (kind : Kind) :
    (ofScan ((atLine first).after before) kind lexeme).span.start = String.utf8Len before := by
  change ((atLine first).after before).offset = _
  rw [offset_after]
  exact Nat.zero_add _

theorem stop_ofScan (before lexeme : List Char) (kind : Kind) :
    (ofScan ((atLine first).after before) kind lexeme).span.stop
      = String.utf8Len before + String.utf8Len lexeme := by
  change (((atLine first).after before).after lexeme).offset = _
  rw [← after_append, offset_after, String.utf8Len_append]
  exact Nat.zero_add _

theorem placed_ofScan (before lexeme rest : List Char) :
    (ofScan ((atLine first).after before) kind lexeme).Placed first
      (String.ofList (before ++ lexeme ++ rest)) := by
  have hbefore : textBetween (String.ofList (before ++ lexeme ++ rest)) 0 (String.utf8Len before)
      = String.ofList before := by
    have := textBetween_append [] before (lexeme ++ rest)
    rwa [List.nil_append, ← List.append_assoc, String.utf8Len_nil, Nat.zero_add] at this
  constructor
  · rw [start_ofScan, List.append_assoc]
    exact isBoundary_append before _
  · rw [stop_ofScan, ← String.utf8Len_append]
    exact isBoundary_append (before ++ lexeme) rest
  · rw [start_ofScan, stop_ofScan, textBetween_append]
    rfl
  · rw [start_ofScan, hbefore, String.toList_ofList]
    exact line_after_eq _ _
  · rw [start_ofScan, hbefore, String.toList_ofList]
    exact column_after_atLine _ _

/-! ## Layouts -/

/-- The tokens are laid out over the characters that follow those in `before`: white space and the
characters of a token in turn, and the end token after white space. -/
inductive Lays (first : Nat) : (before cs : List Char) → List Token → Prop
  | ends {before gap : List Char} (hgap : ∀ c ∈ gap, Text.isBlank c) :
      Lays first before gap [ofScan ((atLine first).after (before ++ gap)) .eof []]
  | token {before gap lexeme rest : List Char} {kind : Kind} {tokens : List Token}
      (hgap : ∀ c ∈ gap, Text.isBlank c) (hne : lexeme ≠ []) (hkind : kind ≠ .eof)
      (hrest : Lays first (before ++ gap ++ lexeme) rest tokens) :
      Lays first before (gap ++ lexeme ++ rest)
        (ofScan ((atLine first).after (before ++ gap)) kind lexeme :: tokens)

theorem Lays.blank {c : Char} (hc : Text.isBlank c)
    (hlays : Lays first (before ++ [c]) cs tokens) : Lays first before (c :: cs) tokens := by
  generalize hbefore : before ++ [c] = b at hlays
  cases hlays with
  | ends hgap =>
    subst hbefore
    rw [List.append_assoc]
    exact .ends (List.forall_mem_cons.mpr ⟨hc, hgap⟩)
  | @token _ gap lexeme rest kind tokens hgap hne hkind hrest =>
    subst hbefore
    rw [List.append_assoc before [c] gap]
    have hgap : ∀ d ∈ [c] ++ gap, Text.isBlank d := List.forall_mem_cons.mpr ⟨hc, hgap⟩
    refine .token hgap hne hkind ?_
    rwa [← List.append_assoc before [c] gap]

/-- What is found is not the end of the text. -/
def Scan.IsInside : Scan → Prop
  | .found kind _ => kind ≠ .eof
  | .failed .. => True

theorem found_isInside {more : Nat} (hkind : kind ≠ .eof) : (Scan.found kind more).IsInside :=
  hkind

theorem Scan.IsInside.ite {p : Prop} [Decidable p] {a b : Scan} (ha : a.IsInside)
    (hb : b.IsInside) : (if p then a else b).IsInside := by
  split
  · exact ha
  · exact hb

theorem scanPair_isInside (short : Symbol) (longer : List (Char × Symbol)) :
    (scanPair cs short longer).IsInside := by
  unfold scanPair
  split <;> exact nofun

theorem scanTemplate_isInside (quote : Char) : (scanTemplate quote cs).IsInside := by
  unfold scanTemplate
  split
  · exact nofun
  · trivial

theorem scanName_isInside (c : Char) : (scanName c cs).IsInside := by
  unfold scanName
  refine found_isInside ?_
  split <;> exact nofun

theorem scanNumber_isInside (c : Char) : (scanNumber c cs).IsInside := by
  unfold scanNumber
  refine .ite ?_ ?_ <;> split
  · exact nofun
  · trivial
  · exact nofun
  · trivial

theorem scanString_isInside (quote : Char) : (scanString quote cs).IsInside := by
  unfold scanString
  exact .ite nofun trivial

theorem scan_isInside (c : Char) (cs : List Char) : (scan c cs).IsInside := by
  unfold scan
  split
  case h_19 =>
    split
    · exact nofun
    · split
      · exact nofun
      · trivial
    · exact scanPair_isInside ..
  case h_20 | h_21 => exact .ite nofun trivial
  case h_22 =>
    refine .ite (scanString_isInside c) (.ite (scanNumber_isInside c) ?_)
    split
    · exact scanTemplate_isInside _
    · exact scanTemplate_isInside _
    · exact .ite (scanName_isInside c) trivial
  all_goals first | exact scanPair_isInside .. | exact nofun

/-- Only the end of the text is read as an end token. -/
theorem scan_ne_eof {c : Char} {more : Nat} (hscan : scan c cs = .found kind more) :
    kind ≠ .eof := by
  have hinside := scan_isInside c cs
  rwa [hscan] at hinside

/-- Reading lays tokens out over the characters. -/
theorem lays_of_tokensFrom (before cs : List Char)
    (hread : tokensFrom ((atLine first).after before) cs = .ok tokens) :
    Lays first before cs tokens := by
  generalize hlength : cs.length = n
  induction n using Nat.strong_induction_on generalizing before cs tokens with
  | _ n ih =>
    cases cs with
    | nil =>
      rw [tokensFrom] at hread
      obtain rfl := Except.ok.inj hread
      have hends : Lays first before [] [ofScan ((atLine first).after (before ++ [])) .eof []] :=
        .ends (List.forall_mem_nil _)
      rwa [List.append_nil] at hends
    | cons c cs =>
      rw [tokensFrom] at hread
      split_ifs at hread with hblank
      · refine .blank hblank (ih cs.length ?_ _ cs ?_ rfl)
        · rw [← hlength]
          exact Nat.lt_succ_self _
        · rwa [after_append]
      cases hscan : scan c cs with
      | failed error more =>
        rw [hscan] at hread
        cases hread
      | found kind more =>
        simp only [hscan] at hread
        cases hrest : tokensFrom (((atLine first).after before).after (c :: cs.take more))
            (cs.drop more) with
        | error fault =>
          rw [hrest] at hread
          cases hread
        | ok tokens' =>
          rw [hrest] at hread
          obtain rfl := Except.ok.inj hread
          rw [← after_append] at hrest
          have htail := ih (cs.drop more).length (by
            rw [← hlength, List.length_drop, List.length_cons]
            omega) _ (cs.drop more) hrest rfl
          rw [← List.append_nil before] at htail
          have htoken := Lays.token (List.forall_mem_nil _) (List.cons_ne_nil _ _)
            (scan_ne_eof hscan) htail
          rwa [List.append_nil, List.nil_append, List.cons_append, List.take_append_drop] at htoken

theorem Lays.placed (hlays : Lays first before cs tokens) :
    ∀ t ∈ tokens, t.Placed first (String.ofList (before ++ cs)) := by
  induction hlays with
  | @ends before gap =>
    intro t ht
    obtain rfl := List.mem_singleton.mp ht
    have hplaced : (ofScan ((atLine first).after (before ++ gap)) .eof []).Placed first
        (String.ofList (before ++ gap ++ [] ++ [])) := placed_ofScan (before ++ gap) [] []
    rwa [List.append_nil, List.append_nil] at hplaced
  | @token before gap lexeme rest kind tokens _ _ _ _ ih =>
    have htext : before ++ (gap ++ lexeme ++ rest) = before ++ gap ++ lexeme ++ rest := by simp
    rw [htext]
    intro t ht
    rcases List.mem_cons.mp ht with rfl | ht
    · exact placed_ofScan (before ++ gap) lexeme rest
    · exact ih t ht

/-- What lies in front of each token and after the one before it. -/
def gaps : (previous : Nat) → List Token → List (Nat × Nat)
  | _, [] => []
  | previous, t :: ts => (previous, t.span.start) :: gaps t.span.stop ts

theorem Lays.gaps_blank (hlays : Lays first before cs tokens) :
    ∀ gap ∈ gaps (String.utf8Len before) tokens, gap.1 ≤ gap.2 ∧
      ∀ c ∈ (textBetween (String.ofList (before ++ cs)) gap.1 gap.2).toList, Text.isBlank c := by
  induction hlays with
  | @ends before gap hgap =>
    intro g hg
    obtain rfl := List.mem_singleton.mp hg
    rw [start_ofScan, String.utf8Len_append]
    refine ⟨Nat.le_add_right _ _, ?_⟩
    have htext := textBetween_append before gap []
    rw [List.append_nil] at htext
    rwa [htext, String.toList_ofList]
  | @token before gap lexeme rest kind tokens hgap _ _ _ ih =>
    have htext : before ++ (gap ++ lexeme ++ rest) = before ++ gap ++ lexeme ++ rest := by simp
    rw [htext]
    intro g hg
    rcases List.mem_cons.mp hg with rfl | hg
    · rw [start_ofScan, String.utf8Len_append]
      refine ⟨Nat.le_add_right _ _, ?_⟩
      have htext := textBetween_append before gap (lexeme ++ rest)
      rw [← List.append_assoc] at htext
      rwa [htext, String.toList_ofList]
    · refine ih g ?_
      rwa [stop_ofScan, ← String.utf8Len_append] at hg

/-- The tokens of a text, all but the end token with characters of their own, one after another. -/
theorem Lays.in_order (hlays : Lays first before cs tokens) :
    ∃ (body : List Token) (last : Token), tokens = body ++ [last] ∧
      (last.kind = .eof ∧ last.lexeme = "" ∧ last.span.start = String.utf8Len (before ++ cs) ∧
        last.span.stop = String.utf8Len (before ++ cs)) ∧
      (∀ t ∈ body, t.kind ≠ .eof ∧ String.utf8Len before ≤ t.span.start ∧
        t.span.start < t.span.stop) ∧
      body.Pairwise fun t u => t.span.stop ≤ u.span.start := by
  induction hlays with
  | @ends before gap =>
    refine ⟨[], _, rfl, ⟨rfl, rfl, start_ofScan _ _ _, ?_⟩, by simp, List.Pairwise.nil⟩
    exact stop_ofScan _ _ _
  | @token before gap lexeme rest kind tokens _ hne hkind _ ih =>
    obtain ⟨body, last, rfl, hlast, hbody, hpairwise⟩ := ih
    have hstart := @start_ofScan first (before ++ gap) lexeme kind
    have hstop := @stop_ofScan first (before ++ gap) lexeme kind
    have hlexeme : 0 < String.utf8Len lexeme := by
      obtain ⟨c, cs, rfl⟩ := List.exists_cons_of_ne_nil hne
      rw [String.utf8Len_cons]
      exact Nat.add_pos_right _ c.utf8Size_pos
    refine ⟨_ :: body, last, rfl, ?_, List.forall_mem_cons.mpr ⟨⟨hkind, ?_⟩, fun t ht => ?_⟩,
      List.pairwise_cons.mpr ⟨fun t ht => ?_, hpairwise⟩⟩
    · simpa using hlast
    · rw [hstart, hstop, String.utf8Len_append]
      omega
    · obtain ⟨hk, hle, hlt⟩ := hbody t ht
      rw [String.utf8Len_append, String.utf8Len_append] at hle
      exact ⟨hk, by omega, hlt⟩
    · have hle := (hbody t ht).2.1
      rwa [String.utf8Len_append, ← hstop] at hle

/-- **Reading loses nothing but white space, and tokens know their places.** The tokens in front of
the end token have bytes of their own, in order; between them, in front of the first and behind the
last one there is white space only. -/
theorem tokenizeAt_lossless {source : String} (hread : tokenizeAt first source = .ok tokens) :
    ∃ (body : List Token) (last : Token), tokens = body ++ [last] ∧
      (last.kind = .eof ∧ last.lexeme = "" ∧ last.span.start = source.utf8ByteSize ∧
        last.span.stop = source.utf8ByteSize) ∧
      (∀ t ∈ body, t.kind ≠ .eof ∧ t.span.start < t.span.stop) ∧
      body.Pairwise (fun t u => t.span.stop ≤ u.span.start) ∧
      (∀ t ∈ tokens, t.Placed first source) ∧
      ∀ gap ∈ gaps 0 tokens, gap.1 ≤ gap.2 ∧
        ∀ c ∈ (textBetween source gap.1 gap.2).toList, Text.isBlank c := by
  have hlays := lays_of_tokensFrom [] source.toList hread
  have hsource : String.ofList ([] ++ source.toList) = source := String.ofList_toList
  have hsize : String.utf8Len ([] ++ source.toList) = source.utf8ByteSize := by
    rw [← String.utf8ByteSize_ofList, hsource]
  obtain ⟨body, last, rfl, hlast, hbody, hpairwise⟩ := hlays.in_order
  have hplaced := hlays.placed
  have hgaps := hlays.gaps_blank
  rw [hsize] at hlast
  rw [hsource] at hplaced hgaps
  refine ⟨body, last, rfl, hlast, fun t ht => ?_, hpairwise, hplaced, hgaps⟩
  obtain ⟨hkind, -, hlt⟩ := hbody t ht
  exact ⟨hkind, hlt⟩

/-- Three lines with characters of several bytes, a string over two of them and a comment. -/
def threeLines : String := "é = 'ü\nö' // ß\n  x"

theorem tokenizeAt_lossless_lines :
    ∃ tokens, tokenizeAt 7 threeLines = .ok tokens ∧ (∀ t ∈ tokens, t.Placed 7 threeLines) ∧
      tokens.map (fun t => (t.span, t.lexeme)) =
        [(⟨0, 2, 7, 1⟩, "é"), (⟨3, 4, 7, 3⟩, "="), (⟨5, 12, 7, 5⟩, "'ü\nö'"),
          (⟨13, 18, 8, 4⟩, "// ß"), (⟨21, 22, 9, 3⟩, "x"), (⟨22, 22, 9, 4⟩, "")] := by
  have hmap : (tokenizeAt 7 threeLines).toOption.map (List.map fun t => (t.span, t.lexeme)) =
      some [(⟨0, 2, 7, 1⟩, "é"), (⟨3, 4, 7, 3⟩, "="), (⟨5, 12, 7, 5⟩, "'ü\nö'"),
        (⟨13, 18, 8, 4⟩, "// ß"), (⟨21, 22, 9, 3⟩, "x"), (⟨22, 22, 9, 4⟩, "")] := by
    decide +kernel
  cases hread : tokenizeAt 7 threeLines with
  | error fault =>
    rw [hread] at hmap
    cases hmap
  | ok tokens =>
    obtain ⟨-, -, -, -, -, -, hplaced, -⟩ := tokenizeAt_lossless hread
    rw [hread] at hmap
    exact ⟨tokens, rfl, hplaced, Option.some.inj hmap⟩

end Token

end ScriptEngine
