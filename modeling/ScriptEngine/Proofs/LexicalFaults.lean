import ScriptEngine.Proofs.Lookahead
/-!
# Where no token can be found

A text whose characters are wrong somewhere is right in front of that place: up to there it has the
tokens that were read, whatever comes behind it. The fault says where that is.

* `Token.Reads.cut` : what is read in front of a place is read again if the text ends there.
* `Token.Reports` : what is wrong with a text, where, and what was read in front of it.
* **`Token.reports_of_tokenizeAt`** : every text that has no tokens is reported so.

The fault is that of `lex_error`: its place is the token that could not be found, from its first
character through the last one that was looked at.
-/

namespace ScriptEngine

open Position

namespace Token

variable {p q : Position} {c d : Char} {cs rest front : List Char} {tokens : List Token}
    {kind : Kind} {more : Nat}

/-! ## Texts that end early -/

theorem fractionDigits_eq_nil_of_append (h : fractionDigits (front ++ rest) = []) :
    fractionDigits front = [] := by
  unfold fractionDigits at h ⊢
  split
  · next ds =>
    cases ds with
    | nil => rfl
    | cons d ds =>
      rw [List.cons_append, List.cons_append] at h
      by_cases hd : d.isDigit
      · simp [hd] at h
      · simp [hd]
  · rfl

/-- A name takes the characters behind its first one that go on with it. -/
theorem lt_of_reads_name (hd : beginsName d) (hc : continuesName c)
    (h : Reads p (d :: c :: cs) tokens q rest) (hne : rest ≠ d :: c :: cs) :
    rest.length < cs.length + 1 := by
  cases h with
  | done => exact absurd rfl hne
  | blank hblank =>
    rw [not_isBlank_of_beginsName hd] at hblank
    cases hblank
  | token _ hscan hreads =>
    have hquote : ∀ e ∈ (c :: cs).head?, isQuote e = false := by
      intro e he
      obtain rfl : c = e := Option.some.inj he
      exact not_isQuote hc (by decide)
    rw [scan_name hd fun _ => hquote, scanName] at hscan
    obtain ⟨-, rfl⟩ := Scan.found.inj hscan
    have hle := hreads.length_le
    rw [List.length_drop, List.takeWhile_cons_of_pos hc, List.length_cons, List.length_cons] at hle
    omega

/-- A letter behind a number that is not its mark goes on as a name, so reading does not stop behind
that letter. -/
theorem singleMark_eq_false_of_reads (h : singleMark (front ++ rest) = false)
    (hreads : Reads p (front ++ rest) tokens q rest) : singleMark front = false := by
  refine Bool.eq_false_iff.mpr fun hmark => ?_
  match front with
  | [] => cases hmark
  | d :: e :: front =>
    refine Bool.eq_false_iff.mp h (singleMark_cons.mpr ?_)
    exact singleMark_cons.mp hmark
  | [d] =>
    obtain ⟨hd, -⟩ := singleMark_cons.mp hmark
    have hname : beginsName d := by rcases hd with rfl | rfl <;> decide
    cases rest with
    | nil => exact Bool.eq_false_iff.mp h hmark
    | cons c rest =>
      have hc : continuesName c := by
        refine Bool.not_eq_false _ ▸ fun hc => Bool.eq_false_iff.mp h (singleMark_cons.mpr ⟨hd, ?_⟩)
        rintro e ⟨⟩
        exact hc
      have hne : c :: rest ≠ d :: c :: rest := fun heq => by
        have hlength := congrArg List.length heq
        simp at hlength
      exact absurd (lt_of_reads_name hname hc hreads hne) (Nat.lt_irrefl _)

/-- **Nothing that is read in front of a place depends on what is behind it.** -/
theorem Reads.cut (h : Reads p cs tokens q rest) :
    ∃ front, cs = front ++ rest ∧ q = p.after front ∧ Reads p front tokens q [] := by
  induction h with
  | done => exact ⟨[], rfl, rfl, .done⟩
  | @blank p q c cs rest tokens hblank _ ih =>
    obtain ⟨front, rfl, rfl, hreads⟩ := ih
    exact ⟨c :: front, rfl, rfl, .blank hblank hreads⟩
  | @token p q c cs rest kind more tokens hblank hscan hreads ih =>
    obtain ⟨front, hcs, hq, hfront⟩ := ih
    rw [hcs] at hreads
    have hbars : Bars (cs.drop more) front := by
      rw [hcs]
      refine ⟨fun d hd => .inr ?_, fractionDigits_eq_nil_of_append, fun h =>
        singleMark_eq_false_of_reads h hreads⟩
      obtain ⟨front, rfl⟩ := List.head?_eq_some_iff.mp hd
      rfl
    refine ⟨c :: (cs.take more ++ front), ?_, ?_, .found hblank (scan_again hscan hbars) hfront⟩
    · rw [List.cons_append, List.append_assoc, ← hcs, List.take_append_drop]
    · rw [hq]
      exact (after_append p (c :: cs.take more) front).symm

/-! ## Numbers are never wrong -/

/-- If nothing is found, it is not because of a number. -/
def Scan.SparesNumbers : Scan → Prop
  | .found .. => True
  | .failed error _ => ∀ text, error ≠ .invalidNumber text

theorem sparesNumbers_scanPair (short : Symbol) (longer : List (Char × Symbol)) :
    (scanPair cs short longer).SparesNumbers := by
  unfold scanPair
  split <;> trivial

theorem sparesNumbers_scanTemplate (quote : Char) : (scanTemplate quote cs).SparesNumbers := by
  unfold scanTemplate
  split
  · trivial
  · exact fun _ => nofun

/-- The text of a number that begins with a digit has a value, so it is never found to be wrong. -/
theorem sparesNumbers_scanNumber (hc : c.isDigit) : (scanNumber c cs).SparesNumbers := by
  obtain ⟨digits, exponent, length, hscan | hscan⟩ := exists_scanNumber hc cs
  · rw [hscan]
    trivial
  · rw [hscan]
    trivial

theorem sparesNumbers_scanString (quote : Char) : (scanString quote cs).SparesNumbers := by
  unfold scanString
  simp only
  split
  · trivial
  · exact fun _ => nofun

theorem sparesNumbers_scan (c : Char) (cs : List Char) : (scan c cs).SparesNumbers := by
  unfold scan
  split
  case h_19 =>
    split
    · trivial
    · split
      · trivial
      · exact fun _ => nofun
    · exact sparesNumbers_scanPair ..
  case h_20 | h_21 =>
    split
    · trivial
    · exact fun _ => nofun
  case h_22 =>
    split
    · exact sparesNumbers_scanString _
    · split
      · next hdigit => exact sparesNumbers_scanNumber hdigit
      · split
        · exact sparesNumbers_scanTemplate _
        · exact sparesNumbers_scanTemplate _
        · split
          · trivial
          · exact fun _ => nofun
  all_goals first | trivial | exact sparesNumbers_scanPair ..

/-! ## Reports -/

/-- The error `error` at `span` is what is wrong with a text whose first line has the number
`first`, and `body` are the tokens in front of it. -/
structure Reports (first : Nat) (source : String) (error : LexicalError) (span : Span)
    (body : List Token) : Prop where
  /-- It is a character, or a string, a template or a comment without an end, and not a number. -/
  cause : ∀ text, error ≠ .invalidNumber text
  /-- Some of the text is blamed. -/
  nonempty : span.start < span.stop
  inside : span.stop ≤ source.utf8ByteSize
  /-- The place is between two characters, and its line and column are right. -/
  boundary : IsBoundary source span.start
  line : span.line = first + (textBetween source 0 span.start).toList.count '\n'
  column : span.column = 1 + (lastLine (textBetween source 0 span.start).toList).length
  /-- The tokens are those that were read up to there, and no further one can be found. -/
  before : ∃ (q : Position) (c : Char) (rest : List Char) (more : Nat), q.offset = span.start ∧
    Reads (atLine first) source.toList body q (c :: rest) ∧ ¬Text.isBlank c ∧
    scan c rest = .failed error more
  /-- The text in front of the place has these tokens and is right. -/
  front : ∃ last, last.kind = .eof ∧ tokenizeAt first (textBetween source 0 span.start) =
    .ok (body ++ [last])

/-- **What is wrong with a text is located precisely**, and nothing in front of it is to blame. -/
theorem reports_of_tokenizeAt {first : Nat} {source : String} {fault : Fault}
    (hread : tokenizeAt first source = .error fault) :
    ∃ error span body, fault = .placed (.lexical error) span ∧
      Reports first source error span body := by
  obtain ⟨body, q, c, rest, error, more, hreads, hblank, hscan, rfl⟩ :=
    tokensFrom_error_iff.mp hread
  obtain ⟨front, hcs, rfl, hfront⟩ := hreads.cut
  have hsource : source = String.ofList (front ++ (c :: rest.take more) ++ rest.drop more) := by
    rw [← String.ofList_toList (s := source), hcs, List.append_assoc, List.cons_append,
      List.take_append_drop]
  have hplaced : (ofScan ((atLine first).after front) .eof (c :: rest.take more)).Placed first
      source :=
    hsource ▸ placed_ofScan front (c :: rest.take more) (rest.drop more)
  have hstart : (ofScan ((atLine first).after front) .eof (c :: rest.take more)).span.start =
      String.utf8Len front :=
    start_ofScan ..
  have hstop : (ofScan ((atLine first).after front) .eof (c :: rest.take more)).span.stop =
      String.utf8Len front + String.utf8Len (c :: rest.take more) := stop_ofScan ..
  have htext : textBetween source 0 (String.utf8Len front) = String.ofList front := by
    have := textBetween_append [] front (c :: rest)
    rwa [List.nil_append, ← hcs, String.ofList_toList, String.utf8Len_nil, Nat.zero_add] at this
  have hspares := sparesNumbers_scan c rest
  rw [hscan] at hspares
  refine ⟨error, _, body, rfl, hspares, ?_, ?_, hplaced.start, hplaced.line, hplaced.column,
    ⟨_, c, rest, more, rfl, hreads, hblank, hscan⟩, ?_⟩
  · refine hstart.trans_lt (lt_of_lt_of_eq ?_ hstop.symm)
    rw [String.utf8Len_cons]
    have := c.utf8Size_pos
    omega
  · refine hstop.trans_le ?_
    rw [hsource, String.utf8ByteSize_ofList, String.utf8Len_append, String.utf8Len_append]
    exact Nat.le_add_right _ _
  · refine ⟨ofScan ((atLine first).after front) .eof [], rfl, ?_⟩
    have hspan : (((atLine first).after front).spanTo (((atLine first).after front).after
      (c :: rest.take more))).start =
        String.utf8Len front := hstart
    rw [hspan, htext, tokenizeAt, String.toList_ofList]
    exact hfront.tokensFrom_ok

/-- Two lines; a number, a name that begins like its mark, and a template in whose code a string has
no end. -/
def openTemplate : String := "é = 2fx\n  f'\x7b\"x\x7d'"

theorem reports_of_tokenizeAt_template :
    tokenizeAt 7 openTemplate = .error (.placed (.lexical .unterminatedTemplate) ⟨11, 18, 8, 3⟩) ∧
      ∃ body, Reports 7 openTemplate .unterminatedTemplate ⟨11, 18, 8, 3⟩ body := by
  have hread : tokenizeAt 7 openTemplate =
      .error (.placed (.lexical .unterminatedTemplate) ⟨11, 18, 8, 3⟩) := by
    decide +kernel
  obtain ⟨error, span, body, hfault, hreports⟩ := reports_of_tokenizeAt hread
  cases hfault
  exact ⟨hread, body, hreports⟩

end Token

end ScriptEngine
