import ScriptEngine.Library.Lists
import ScriptEngine.Library.Strings
import ScriptEngine.Proofs.Crossing
/-!
# Delimiters

A text is scanned for a delimiter once, whether it is split or the delimiter is replaced: replacing
is splitting and joining with the other text. A delimiter that is replaced by itself changes
nothing, so the pieces joined with the delimiter are the text again. The scan finds a delimiter
wherever one begins that does not overlap one before it, so no piece contains one.

* `Text.replaceAll_eq` : replacing is splitting and joining.
* `Text.intercalate_split` : the pieces joined with the delimiter are the text.
* `Text.not_infix_of_mem_splitAt` : no piece contains the delimiter.
* **`Library.split_joins`** : how `split`, `listJoin` and `replace` fit together.

These are `split`, `replace` and `listJoin` of the library. An empty delimiter lies between all
characters and at both ends: the pieces joined with it are the text again, and the other two laws
are about delimiters that are not empty.
-/

namespace ScriptEngine

namespace Text

variable {first c : Char} {more cs : List Char}

/-! ## One character of the scan -/

/-- Whether a delimiter begins at a character. -/
theorem begins_iff : (c == first && more.isPrefixOf cs) = true ↔ first :: more <+: c :: cs := by
  rw [Bool.and_eq_true, beq_iff_eq, List.isPrefixOf_iff_prefix, List.cons_prefix_cons, eq_comm]

theorem splitAt_of_begins (h : first :: more <+: c :: cs) :
    splitAt first more (c :: cs) = [] :: splitAt first more (cs.drop more.length) := by
  rw [splitAt, if_pos (begins_iff.mpr h)]

theorem splitAt_of_not_begins (h : ¬ first :: more <+: c :: cs) :
    splitAt first more (c :: cs) = consFirst c (splitAt first more cs) := by
  rw [splitAt, if_neg (mt begins_iff.mp h)]

theorem replaceAll_of_begins {new : List Char} (h : first :: more <+: c :: cs) :
    replaceAll first more new (c :: cs) = new ++ replaceAll first more new
      (cs.drop more.length) := by
  rw [replaceAll, if_pos (begins_iff.mpr h)]

theorem replaceAll_of_not_begins {new : List Char} (h : ¬ first :: more <+: c :: cs) :
    replaceAll first more new (c :: cs) = c :: replaceAll first more new cs := by
  rw [replaceAll, if_neg (mt begins_iff.mp h)]

/-- What follows a delimiter. -/
theorem append_drop_of_begins (h : first :: more <+: c :: cs) :
    first :: (more ++ cs.drop more.length) = c :: cs := by
  obtain ⟨rfl, rest, rfl⟩ := List.cons_prefix_cons.mp h
  rw [List.drop_left]

theorem intercalate_consFirst (sep : List Char) (c : Char) (pieces : List (List Char)) :
    sep.intercalate (consFirst c pieces) = c :: sep.intercalate pieces := by
  match pieces with
  | [] => rfl
  | [piece] => rw [consFirst, List.intercalate_singleton, List.intercalate_singleton]
  | piece :: next :: pieces =>
    rw [consFirst, List.intercalate_cons_cons, List.intercalate_cons_cons]
    rfl

theorem consFirst_ne_nil (c : Char) (pieces : List (List Char)) : consFirst c pieces ≠ [] := by
  cases pieces <;> exact List.cons_ne_nil _ _

/-- There is always a piece. -/
theorem splitAt_ne_nil (first : Char) (more cs : List Char) : splitAt first more cs ≠ [] := by
  cases cs with
  | nil =>
    rw [splitAt]
    exact List.cons_ne_nil _ _
  | cons c cs =>
    by_cases h : first :: more <+: c :: cs
    · rw [splitAt_of_begins h]
      exact List.cons_ne_nil _ _
    · rw [splitAt_of_not_begins h]
      exact consFirst_ne_nil _ _

/-! ## The whole scan -/

/-- What holds of the empty text, passes a character at which no delimiter begins, and passes a
delimiter as a whole holds of all texts. -/
theorem scan_induction {P : List Char → Prop} (first : Char) (more : List Char) (nil : P [])
    (delimiter : ∀ c cs, first :: more <+: c :: cs → P (cs.drop more.length) → P (c :: cs))
    (other : ∀ c cs, ¬ first :: more <+: c :: cs → P cs → P (c :: cs)) : ∀ cs, P cs
  | [] => nil
  | c :: cs =>
    if h : first :: more <+: c :: cs then
      delimiter c cs h (scan_induction first more nil delimiter other (cs.drop more.length))
    else other c cs h (scan_induction first more nil delimiter other cs)
termination_by cs => cs.length
decreasing_by all_goals (simp only [List.length_drop, List.length_cons]; omega)

/-- **Replacing is splitting and joining** with the other text. -/
theorem replaceAll_eq (first : Char) (more new cs : List Char) :
    replaceAll first more new cs = new.intercalate (splitAt first more cs) := by
  induction cs using scan_induction first more with
  | nil => rw [replaceAll, splitAt, List.intercalate_singleton]
  | delimiter c cs h ih =>
    rw [replaceAll_of_begins h, splitAt_of_begins h, List.intercalate_cons_of_ne_nil
      (splitAt_ne_nil _ _ _), ih]
    rfl
  | other c cs h ih =>
    rw [replaceAll_of_not_begins h, splitAt_of_not_begins h, intercalate_consFirst, ih]

/-- A delimiter replaced by itself changes nothing. -/
theorem replaceAll_self (first : Char) (more cs : List Char) :
    replaceAll first more (first :: more) cs = cs := by
  induction cs using scan_induction first more with
  | nil => rw [replaceAll]
  | delimiter c cs h ih =>
    rw [replaceAll_of_begins h, ih]
    exact append_drop_of_begins h
  | other c cs h ih => rw [replaceAll_of_not_begins h, ih]

/-- The pieces joined with the delimiter are the text; the empty delimiter is between all
characters. -/
theorem intercalate_split (sep cs : List Char) : sep.intercalate (split sep cs) = cs := by
  cases sep with
  | cons first more =>
    rw [split, ← replaceAll_eq]
    exact replaceAll_self first more cs
  | nil =>
    induction cs with
    | nil => rfl
    | cons c cs ih =>
      cases cs with
      | nil => rfl
      | cons d cs =>
        change [].intercalate ([c] :: [d] :: cs.map fun c => [c]) = _
        rw [List.intercalate_cons_cons]
        exact congrArg (c :: ·) ih

/-- The first piece begins where the text begins, and no delimiter begins in it. -/
theorem head_splitAt (first : Char) (more cs : List Char) :
    ∃ piece pieces, splitAt first more cs = piece :: pieces ∧ piece <+: cs ∧
      ¬ first :: more <:+: piece := by
  have hnil : ¬ first :: more <:+: [] := fun h => List.cons_ne_nil _ _ (List.infix_nil.mp h)
  induction cs using scan_induction first more with
  | nil => exact ⟨[], [], by rw [splitAt], List.prefix_rfl, hnil⟩
  | delimiter c cs h ih => exact ⟨[], _, splitAt_of_begins h, List.nil_prefix, hnil⟩
  | other c cs h ih =>
    obtain ⟨piece, pieces, hsplit, hpiece, hnone⟩ := ih
    refine ⟨c :: piece, pieces, ?_, List.cons_prefix_cons.mpr ⟨rfl, hpiece⟩, fun hinfix => ?_⟩
    · rw [splitAt_of_not_begins h, hsplit, consFirst]
    · -- a delimiter at the front of the piece would begin at `c`
      rcases List.infix_cons_iff.mp hinfix with hbegins | hinfix
      · exact h (hbegins.trans (List.cons_prefix_cons.mpr ⟨rfl, hpiece⟩))
      · exact hnone hinfix

/-- **No piece contains the delimiter.** -/
theorem not_infix_of_mem_splitAt {piece : List Char} (h : piece ∈ splitAt first more cs) :
    ¬ first :: more <:+: piece := by
  induction cs using scan_induction first more with
  | nil =>
    rw [splitAt, List.mem_singleton] at h
    subst h
    exact fun hinfix => List.cons_ne_nil _ _ (List.infix_nil.mp hinfix)
  | delimiter c cs hbegins ih =>
    rw [splitAt_of_begins hbegins, List.mem_cons] at h
    rcases h with rfl | h
    · exact fun hinfix => List.cons_ne_nil _ _ (List.infix_nil.mp hinfix)
    · exact ih h
  | other c cs hbegins ih =>
    obtain ⟨head, pieces, hwhole, -, hnone⟩ := head_splitAt first more (c :: cs)
    obtain ⟨head', pieces', hsplit, -, -⟩ := head_splitAt first more cs
    rw [hwhole, List.mem_cons] at h
    rw [splitAt_of_not_begins hbegins, hsplit, consFirst, List.cons.injEq] at hwhole
    rcases h with rfl | h
    · exact hnone
    · exact ih (hsplit ▸ List.mem_cons_of_mem _ (hwhole.2 ▸ h))

example : split "aa".toList "aaaba".toList = ["".toList, "aba".toList] := by cbv

end Text

/-! ## The functions of the library -/

namespace Library

/-- The pieces of a text as strings. -/
def pieces (s d : String) : List String := (Text.split d.toList s.toList).map String.ofList

/-- How the pieces of a text, a new list, fit together with the text. -/
structure SplitJoins (s d : String) (w : World) (id : ListId) (w' : World) : Prop where
  /-- The text is split at the delimiter. -/
  split_eq : split [.string s, .string d] w = .ok (.list id) w'
  /-- Joined with the delimiter, the pieces are the text again. -/
  join_eq : listJoin [.list id, .string d] w' = .ok (.string s) w'
  /-- Joined with another text, they are the text with the other one in place of the delimiter. -/
  replace_eq (hd : d ≠ "") (t : String) : ∃ replaced,
    replace [.string s, .string d, .string t] = .ok (.string replaced) ∧
      listJoin [.list id, .string t] w' = .ok (.string replaced) w'
  /-- The pieces are strings, and none contains the delimiter. -/
  not_infix (hd : d ≠ "") :
      ∀ v ∈ w'.heap.list id, ∃ piece, v = .string piece ∧ ¬ d.toList <:+: piece.toList

theorem intercalate_pieces (t s d : String) :
    String.intercalate t (pieces s d) =
      String.ofList (t.toList.intercalate (Text.split d.toList s.toList)) := by
  have hpieces : (pieces s d).map String.toList = Text.split d.toList s.toList := by
    rw [pieces, List.map_map]
    exact (List.map_congr_left fun cs _ => String.toList_ofList).trans (List.map_id _)
  rw [← hpieces, ← String.toList_intercalate, String.ofList_toList]

/-- Joining strings joins their texts. -/
theorem listJoin_strings {w : World} {id : ListId} {texts : List String} (t : String)
    (hid : w.heap.list id = (texts.map Value.string).toArray) :
    listJoin [.list id, .string t] w = .ok (.string (String.intercalate t texts)) w := by
  have htexts : (w.heap.list id).toList.map w.heap.text = texts := by
    rw [hid, List.map_map]
    exact List.map_id texts
  change Outcome.ok (Value.string (String.intercalate t ((w.heap.list id).toList.map w.heap.text)))
    w = _
  rw [htexts]

/-- **The pieces of a text joined with the delimiter are the text**, joined with another text they
are what replacing gives, and none of them contains the delimiter. -/
theorem split_joins (s d : String) (w : World) : ∃ id w', SplitJoins s d w id w' := by
  have hlist : (w.heap.addList ((pieces s d).map Value.string).toArray).2.list ⟨w.heap.lists.size⟩ =
      _ :=
    (Heap.Grows.refl _).list_eq
  refine ⟨⟨w.heap.lists.size⟩, { w with heap :=
    (w.heap.addList ((pieces s d).map Value.string).toArray).2 },
    ⟨?_, ?_, fun hd t => ?_, fun hd v hv => ?_⟩⟩
  · rw [pieces, List.map_map]
    rfl
  · rw [listJoin_strings d hlist, intercalate_pieces, Text.intercalate_split, String.ofList_toList]
  · refine ⟨_, rfl, ?_⟩
    rw [listJoin_strings t hlist, intercalate_pieces]
    cases hchars : d.toList with
    | nil => exact absurd (String.toList_inj.mp hchars) hd
    | cons first more => rw [Text.split, Text.replace, Text.replaceAll_eq]
  · rw [hlist, List.mem_toArray, pieces, List.map_map, List.mem_map] at hv
    obtain ⟨piece, hpiece, rfl⟩ := hv
    refine ⟨String.ofList piece, rfl, ?_⟩
    rw [String.toList_ofList]
    cases hchars : d.toList with
    | nil => exact absurd (String.toList_inj.mp hchars) hd
    | cons first more =>
      rw [hchars] at hpiece
      exact Text.not_infix_of_mem_splitAt hpiece

end Library

end ScriptEngine
