import ScriptEngine.Proofs.Reparsing
/-!
# Rendering and reading back

The text of a printable expression is read back as the same expression, up to the places of its
nodes. The text spells the tokens that are expected, these are read back, and the budget that they
give is enough.

* `Parser.leadsBack_readsBack` : an expression is read back from the kinds of its tokens.
* `Parser.length_lt_budget` : tokens give a budget that is greater than their number.
* `Expr.Printable.render_readsBack` : an expression is read back from its text.

Numbers beyond the range of doubles, strings with both quotes in them and the bodies of functions
have no text that is read back, and are no part of printable expressions.
-/

namespace ScriptEngine

open Token

namespace Parser

/-! ## The round trip -/

/-- Every expression is read back, and those that are no operators in front of operands can be built
on. -/
theorem leadsBack_readsBack {e : Expr} (h : e.Printable) :
    (e.isUnary = false → LeadsBack e) ∧ ReadsBack e := by
  have of_leadsBack : ∀ {e : Expr}, e.Printable → e.isUnary = false → LeadsBack e →
      (e.isUnary = false → LeadsBack e) ∧ ReadsBack e :=
    fun hp hop h => ⟨fun _ => h, h.readsBack hp hop⟩
  -- by induction on why the expression is printable: operands are read back because their parts are
  induction h with
  | @number x m e span hx hplain =>
    exact of_leadsBack (.number hx hplain) rfl (leadsBack_leaf (.number x) rfl rfl fun _ => rfl)
  | @float x m e span hx hplain =>
    exact of_leadsBack (.float hx hplain) rfl (leadsBack_leaf (.float x) rfl rfl fun _ => rfl)
  | @string text span h =>
    exact of_leadsBack (.string h) rfl (leadsBack_leaf (.string text) rfl rfl fun _ => rfl)
  | @bool b span =>
    have : LeadsBack (.bool b span) := by
      cases b with
      | true => exact leadsBack_leaf (.bool true) rfl rfl fun _ => rfl
      | false => exact leadsBack_leaf (.bool false) rfl rfl fun _ => rfl
    exact of_leadsBack .bool rfl this
  | @null span =>
    exact of_leadsBack .null rfl (leadsBack_leaf .null rfl rfl fun _ => rfl)
  | @var name span h =>
    exact of_leadsBack (.var h) rfl (leadsBack_leaf (.var name) rfl rfl fun _ => rfl)
  | @this span =>
    exact of_leadsBack .this rfl (leadsBack_leaf .this rfl rfl fun _ => rfl)
  | binary hl hr ihl ihr =>
    exact of_leadsBack (.binary hl hr) rfl (leadsBack_binary hl.length_kinds_pos ihl.2 ihr.2)
  | logical hl hr ihl ihr =>
    exact of_leadsBack (.logical hl hr) rfl (leadsBack_logical hl.length_kinds_pos ihl.2 ihr.2)
  | unary h ih => exact ⟨Bool.noConfusion, ih.2.unary⟩
  | call hop h hargs hroom ih ihargs =>
    exact of_leadsBack (.call hop h hargs hroom) rfl
      ((ih.1 hop).call hargs (fun a ha => (ihargs a ha).2) hroom)
  | get hop h hname ih => exact of_leadsBack (.get hop h hname) rfl (ih.1 hop).get
  | index hop h hkey ih ihkey =>
    exact of_leadsBack (.index hop h hkey) rfl ((ih.1 hop).index ihkey.2 hkey.length_kinds_pos)
  | list h ih => exact of_leadsBack (.list h) rfl (leadsBack_list h fun e he => (ih e he).2)
  | map hkeys h ih =>
    exact of_leadsBack (.map hkeys h) rfl (leadsBack_map h fun entry hentry => (ih entry hentry).2)

/-- Each token counts for one in a budget at least. -/
theorem length_lt_budget (tokens : List Token) : tokens.length + 1 < budget tokens := by
  induction tokens with
  | nil => exact Nat.lt_succ_self 1
  | cons t ts ih =>
    have hweight : 1 ≤ weight t := by
      unfold weight
      split
      · exact Nat.succ_pos _
      · exact Nat.le_refl 1
    have hbudget : budget (t :: ts) = weight t + budget ts := rfl
    rw [hbudget, List.length_cons]
    omega

/-- The state in front of tokens without comments, up to the end token. -/
theorem ahead_ofTokens {ts : List Token} {stop : Token} {line : Nat}
    (hkinds : (ts.map Token.kind).all Kind.isText) (hline : ∀ t ∈ ts, t.span.line = line)
    (hstop : stop.kind = .eof) : (State.ofTokens (ts ++ [stop])).Ahead (ts.map Token.kind) := by
  have htext : ∀ t ∈ ts, t.kind.isText := by
    simpa using hkinds
  have hseen : ((ts ++ [stop]).filter fun t => t.kind != .comment) = ts ++ [stop] := by
    refine List.filter_eq_self.mpr fun t ht => bne_iff_ne.mpr fun hcomment => ?_
    rcases List.mem_append.mp ht with ht | ht
    · exact absurd (hcomment ▸ htext t ht) (by decide)
    · rw [List.mem_singleton.mp ht, hstop] at hcomment
      exact Kind.noConfusion hcomment
  have hrest : (State.ofTokens (ts ++ [stop])).rest = ts := by
    have htake : ∀ t ∈ ts, (t.kind != .eof) = true := fun t ht =>
      bne_iff_ne.mpr fun heof => absurd (heof ▸ htext t ht) (by decide)
    simp only [State.ofTokens]
    rw [hseen, List.takeWhile_append_of_pos htake]
    simp [hstop]
  refine ⟨by rw [hrest], line, fun t ht => hline t (hrest ▸ ht), ?_⟩
  rintro t ⟨⟩

end Parser

open ScriptEngine.Parser

/-- The text of a printable expression is a sequence of tokens. Reading an expression from them uses
all of them up and gives the same expression, up to places. -/
theorem Expr.Printable.render_readsBack {e : Expr} (h : e.Printable) :
    ∃ tokens e' s, Token.tokenize e.render = .ok tokens ∧
      (productions (budget tokens)).expression (.ofTokens tokens) = .ok e' s ∧ s.atEnd ∧
      e'.bare = e.bare := by
  obtain ⟨ts, stop, htokens, hkinds, hline, hstop⟩ :=
    (h.spells_render apart_nil).tokenizeAt 1
  have hlength : ts.length = e.kinds.length := by
    rw [← hkinds, List.length_map]
  have hbudget := length_lt_budget (ts ++ [stop])
  rw [List.length_append, List.length_singleton] at hbudget
  -- behind the last token nothing is left, and nothing goes on there
  have hread := (leadsBack_readsBack h).2.expression h.length_kinds_pos
    (n := budget (ts ++ [stop])) (by omega) ends_nil
  have hahead := ahead_ofTokens (hkinds ▸ h.all_isText) hline hstop
  rw [hkinds, ← List.append_nil e.kinds] at hahead
  obtain ⟨e', s, hexpression, hsame, hend⟩ := hread _ hahead
  refine ⟨ts ++ [stop], e', s, htokens, hexpression, ?_, hsame⟩
  rw [State.atEnd, List.isEmpty_iff]
  exact List.map_eq_nil_iff.mp hend.kinds

/-- `((-x.y(1, 2.5f)[0] < f) || ['it"s', {"k": this.f}])`, whose tokens stand close together. -/
def crowded : Expr :=
  .logical
    (.binary
      (.unary .neg
        (.index
          (.call (.get (.var "x" default) "y" default)
            [.number 1 default, .float 2.5 default] default)
          (.number 0 default) default) default)
      .lt (.var "f" default) default)
    .or
    (.list
      [.string "it\"s" default, .map [("k", .get (.this default) "f" default)] default] default)
    default

theorem crowded_printable : crowded.Printable := by
  have hx : IsName "x" := ⟨⟨'x', [], rfl, by decide, by simp⟩, by decide⟩
  have hy : IsName "y" := ⟨⟨'y', [], rfl, by decide, by simp⟩, by decide⟩
  have hf : IsName "f" := ⟨⟨'f', [], rfl, by decide, by simp⟩, by decide⟩
  have hone : (Expr.number 1 default).Printable :=
    .number (m := 2 ^ 52) (e := -52) (by decide +kernel) (by decide +kernel)
  have hzero : (Expr.number 0 default).Printable :=
    .number (m := 0) (e := -1074) (by decide +kernel) (by decide +kernel)
  have hsingle : (Expr.float 2.5 default).Printable :=
    .float (m := 5 * 2 ^ 21) (e := -22) (by decide +kernel) (by decide +kernel)
  have hcall : (Expr.call (.get (.var "x" default) "y" default)
      [.number 1 default, .float 2.5 default] default).Printable :=
    .call rfl (.get rfl (.var hx) hy) (by simp [hone, hsingle]) (by decide)
  have hmap : (Expr.map [("k", .get (.this default) "f" default)] default).Printable :=
    .map (by simpa using ⟨by decide, .inl (by decide)⟩) (by simpa using .get rfl .this hf)
  have hstring : (Expr.string "it\"s" default).Printable := .string ⟨by decide, .inr (by decide)⟩
  exact .logical (.binary (.unary (.index rfl hcall hzero)) (.var hf))
    (.list (by simp [hstring, hmap]))

/-- What is written close together is taken apart again. -/
theorem crowded_readsBack :
    crowded.Printable ∧ ∃ tokens e' s, Token.tokenize crowded.render = .ok tokens ∧
      (productions (budget tokens)).expression (.ofTokens tokens) = .ok e' s ∧ s.atEnd ∧
      e'.bare = crowded.bare :=
  ⟨crowded_printable, Expr.Printable.render_readsBack crowded_printable⟩

end ScriptEngine
