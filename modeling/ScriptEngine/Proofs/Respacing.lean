import ScriptEngine.Proofs.Lookahead
/-!
# Tokens delimit themselves

No token needs what stands behind it. Put on lines of their own, the tokens of a text are read as
the same tokens: a name does not go on into the next line, a mark that another one could lengthen
stays short, and a letter behind a number that was not its mark begins a name there too.

* `Token.Whole` : the token is found at the end of every line.
* `Token.onLines` : the tokens, each on a line of its own.
* **`Token.tokenizeAt_onLines`** : the tokens of that text are the same.

Comments are tokens like all others. The new lines may not be put inside a token: a string or a
comment that goes over several lines stays as it is.
-/

namespace ScriptEngine

namespace Token

variable {p q : Position} {cs rest : List Char} {t : Token} {tokens body : List Token}

/-- What the token is apart from its place. -/
def content (t : Token) : Kind × String := (t.kind, t.lexeme)

/-- The characters of the token are found as a token of its kind at the end of every line. -/
def Whole (t : Token) : Prop :=
  ∃ c cs, t.lexeme = String.ofList (c :: cs) ∧ ¬Text.isBlank c ∧
    ∀ rest : List Char, (∀ d ∈ rest.head?, d = '\n') → scan c (cs ++ rest) = .found t.kind cs.length

/-- Whatever is read as a token is found again at the end of every line. -/
theorem Reads.whole (h : Reads p cs tokens q rest) : ∀ t ∈ tokens, t.kind ≠ .eof ∧ t.Whole := by
  induction h with
  | done => exact List.forall_mem_nil _
  | blank _ _ ih => exact ih
  | @token p q c cs rest kind more tokens hblank hscan _ ih =>
    refine List.forall_mem_cons.mpr ⟨⟨scan_ne_eof hscan, c, cs.take more, rfl, hblank,
      fun rest' hline => ?_⟩, ih⟩
    exact scan_again hscan (bars_line hline)

/-- A token is read at the end of a line, and the next line after it. -/
theorem Whole.reads (h : t.Whole) (hline : ∀ d ∈ rest.head?, d = '\n')
    (hreads : Reads (p.after t.lexeme.toList) rest body q []) :
    Reads p (t.lexeme.toList ++ rest) (ofScan p t.kind t.lexeme.toList :: body) q [] := by
  obtain ⟨c, cs, hlexeme, hblank, hscan⟩ := h
  rw [hlexeme, String.toList_ofList] at hreads ⊢
  exact .found hblank (hscan rest hline) hreads

/-- Tokens on lines of their own are read as they are. -/
theorem exists_reads_lines (h : ∀ t ∈ tokens, t.Whole) (p : Position) :
    ∃ body q, Reads p (['\n'].intercalate (tokens.map fun t => t.lexeme.toList)) body q [] ∧
      body.map content = tokens.map content := by
  have hcontent (p : Position) (t : Token) : (ofScan p t.kind t.lexeme.toList).content =
      t.content :=
    congrArg (t.kind, ·) String.ofList_toList
  induction tokens generalizing p with
  | nil => exact ⟨[], p, .done, rfl⟩
  | cons t tokens ih =>
    obtain ⟨hhead, htail⟩ := List.forall_mem_cons.mp h
    cases tokens with
    | nil =>
      have hreads : Reads p (t.lexeme.toList ++ []) [ofScan p t.kind t.lexeme.toList] _ [] :=
        hhead.reads nofun .done
      rw [List.append_nil] at hreads
      rw [List.map_singleton, List.intercalate_singleton]
      exact ⟨_, _, hreads, congrArg (· :: []) (hcontent p t)⟩
    | cons u tokens =>
      obtain ⟨body, q, hreads, hbody⟩ := ih htail ((p.after t.lexeme.toList).next '\n')
      have hblank : Text.isBlank '\n' := by decide
      have hline : ∀ d ∈ ('\n' :: ['\n'].intercalate
          ((u :: tokens).map fun t => t.lexeme.toList)).head?, d = '\n' :=
        fun d hd => (Option.some.inj hd).symm
      have hreads := hhead.reads hline (.blank hblank hreads)
      rw [List.map_cons, List.map_cons, List.intercalate_cons_cons, List.append_assoc,
        List.singleton_append]
      exact ⟨_, q, hreads, congrArg₂ (· :: ·) (hcontent p t) hbody⟩

/-- The tokens in front of the end, each on a line of its own. -/
def onLines (tokens : List Token) : String :=
  "\n".intercalate ((tokens.filter fun t => t.kind != .eof).map Token.lexeme)

theorem toList_onLines (h : ∀ t ∈ body, t.kind ≠ .eof) {last : Token} (hlast : last.kind = .eof) :
    (onLines (body ++ [last])).toList = ['\n'].intercalate (body.map fun t => t.lexeme.toList) := by
  have hbody : (body ++ [last]).filter (fun t => t.kind != .eof) = body := by
    rw [List.filter_append, List.filter_eq_self.mpr fun t ht => bne_iff_ne.mpr (h t ht)]
    simp [hlast]
  rw [onLines, hbody, String.toList_intercalate, List.map_map]
  rfl

/-- **Tokens delimit themselves.** The tokens of a text, comments among them, are read again from a
text that has each of them on a line of its own: they have the same kinds, values and lexemes, and
are in the same order. -/
theorem tokenizeAt_onLines {first : Nat} {source : String}
    (hread : tokenizeAt first source = .ok tokens) (line : Nat) :
    ∃ tokens', tokenizeAt line (onLines tokens) = .ok tokens' ∧
      tokens'.map content = tokens.map content := by
  obtain ⟨body, q, hreads, rfl⟩ := tokensFrom_ok_iff.mp hread
  obtain ⟨body', q', hreads', hsame⟩ := exists_reads_lines (fun t ht => (hreads.whole t ht).2)
    (.atLine line)
  refine ⟨body' ++ [ofScan q' .eof []], ?_, ?_⟩
  · rw [tokenizeAt, toList_onLines (fun t ht => (hreads.whole t ht).1) rfl]
    exact hreads'.tokensFrom_ok
  · rw [List.map_append, List.map_append, hsame]
    rfl

/-- Tokens without white space between them, of which several would go on if the next one began
otherwise. -/
def crowdedTokens : String := "2fx=-1f'a'1..5/*b*/f//c"

theorem tokenizeAt_onLines_crowded : ∃ tokens tokens', tokenizeAt 1 crowdedTokens = .ok tokens ∧
    onLines tokens = "2\nfx\n=\n-\n1f\n'a'\n1\n.\n.\n5\n/*b*/\nf\n//c" ∧
      tokenizeAt 1 (onLines tokens) = .ok tokens' ∧ tokens'.map content = tokens.map content := by
  have hlines : (tokenizeAt 1 crowdedTokens).toOption.map onLines =
      some "2\nfx\n=\n-\n1f\n'a'\n1\n.\n.\n5\n/*b*/\nf\n//c" := by
    decide +kernel
  cases hread : tokenizeAt 1 crowdedTokens with
  | error fault =>
    rw [hread] at hlines
    cases hlines
  | ok tokens =>
    rw [hread] at hlines
    obtain ⟨tokens', hread', hsame⟩ := tokenizeAt_onLines hread 1
    exact ⟨tokens, tokens', rfl, Option.some.inj hlines, hread', hsame⟩

end Token

end ScriptEngine
