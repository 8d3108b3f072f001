import ScriptEngine.Library.Strings
import ScriptEngine.Proofs.Ranges
/-!
# Parts of strings

A range of numbers is refused if its start is below zero, its end is beyond the text, or the end is
before the start. Numbers that pass are in order, and the part is what lies between the places they
truncate to. What is not a number is in no order with others, so it passes too: as a start it counts
as zero, and as an end it is before all places but the first, so that there is no part to answer
with and the run is stuck.

* `Library.OutOfRange` : the ranges that are refused.
* **`Library.substring_ends`** : how `substring` ends for all ranges.

The stuck run is where the text would be cut out of order, which no script sees the end of.
-/

namespace ScriptEngine

/-! ## Ranges -/

namespace Library

variable {s : String} {start stop : Float} {args : List Value}

/-- A start below zero, an end beyond the text, or an end before the start. -/
def OutOfRange (s : String) (start stop : Float) : Prop :=
  start < 0.0 ∨ Float.ofNat s.toList.length < stop ∨ stop < start

/-- The arguments of `substring`. Without an end, the range goes to that of the string. -/
abbrev SubstringArguments (s : String) : List Value → Float → Float → Prop :=
  RangeArguments (.string s) (Float.ofNat s.toList.length)

/-- The characters between two places as a string. -/
def part (s : String) (i j : Nat) : Value := .string (String.ofList ((s.toList.take j).drop i))

/-- How `substring` ends for a string and a range. -/
structure SubstringEnds (s : String) (start stop : Float) (w : World) (o : Outcome Fault Value) :
    Prop where
  /-- A range outside the text or out of order is refused, with its numbers and the length in the
  message. -/
  refused (hout : OutOfRange s start stop) :
    o = .error (.runtime (.refused (.substringRange start stop s.toList.length))) w
  /-- Two numbers that pass are in order, as the places are that they truncate to. The answer is the
  characters between these, if the text goes as far. -/
  ordered (hin : ¬ OutOfRange s start stop) (hstart : start.isNaN = false)
      (hstop : stop.isNaN = false) :
    0.0 ≤ start ∧ start ≤ stop ∧ Number.toWord start ≤ Number.toWord stop ∧
      o = if Number.toWord stop ≤ s.toList.length then
          .ok (part s (Number.toWord start) (Number.toWord stop)) w
        else .stopped .stuck
  /-- A text of no more characters than doubles count goes as far as any end that passes. -/
  inside (hin : ¬ OutOfRange s start stop) (hstop : stop.isNaN = false)
      (hlength : s.toList.length ≤ 2 ^ 53) :
    stop ≤ Float.ofNat s.toList.length ∧ Number.toWord stop ≤ s.toList.length
  /-- In such a text the places are just the parts of the numbers before the point. -/
  truncated (hin : ¬ OutOfRange s start stop) (hstart : start.isNaN = false)
      (hstop : stop.isNaN = false) (hlength : s.toList.length ≤ 2 ^ 53) :
    (Number.exact start).truncate? = some ↑(Number.toWord start) ∧
      (Number.exact stop).truncate? = some ↑(Number.toWord stop)
  /-- A start that is not a number counts as zero. -/
  nan_start (hin : ¬ OutOfRange s start stop) (hstart : start.isNaN = true) :
    o = if Number.toWord stop ≤ s.toList.length then .ok (part s 0 (Number.toWord stop)) w
      else .stopped .stuck
  /-- An end that is not a number counts as zero too, which is no end for a start of one or more:
  there is no answer and no error, and the run is stuck. -/
  nan_stop (hin : ¬ OutOfRange s start stop) (hstop : stop.isNaN = true) :
    (start.isNaN = true ∨ start < 1.0 → o = .ok (.string "") w) ∧
      (1.0 ≤ start → o = .stopped .stuck)

theorem substringRange?_of_outOfRange (hout : OutOfRange s start stop) :
    substringRange? s.toList start stop =
      .error (.refused (.substringRange start stop s.toList.length)) := by
  refine if_pos ?_
  simpa [OutOfRange, or_assoc] using hout

theorem substringRange?_of_inRange (hin : ¬ OutOfRange s start stop) :
    substringRange? s.toList start stop =
    .ok (range? s.toList (Number.toWord start) (Number.toWord stop)) := by
  refine if_neg ?_
  simpa [OutOfRange, not_or, and_assoc] using hin

/-- Both kinds of arguments ask for a range. -/
theorem substring_eq (hargs : SubstringArguments s args start stop) :
    substring args = (do
      match ← Script.ofExcept (substringRange? s.toList start stop) with
      | some cs => return .string (String.ofList cs)
      | none => Run.stuck) := by
  have htext : Script.ofExcept (stringAt "substring" args 0) = pure s := by
    rw [stringAt, wantedAt, hargs.subject_eq]
    rfl
  unfold substring
  rw [htext, hargs.start_eq, pure_bind, hargs.stop_eq]
  rfl

variable {w : World}

theorem substring_of_outOfRange (hargs : SubstringArguments s args start stop)
    (hout : OutOfRange s start stop) :
    substring args w = .error (.runtime (.refused (.substringRange start stop s.toList.length)))
      w := by
  rw [substring_eq hargs, substringRange?_of_outOfRange hout]
  rfl

theorem substring_of_inRange (hargs : SubstringArguments s args start stop)
    (hin : ¬ OutOfRange s start stop) (hle : Number.toWord start ≤ Number.toWord stop) :
    substring args w =
      if Number.toWord stop ≤ s.toList.length then
        .ok (part s (Number.toWord start) (Number.toWord stop)) w
      else .stopped .stuck := by
  rw [substring_eq hargs, substringRange?_of_inRange hin, range?, decide_eq_true hle, Bool.true_and]
  by_cases h : Number.toWord stop ≤ s.toList.length
  · rw [if_pos h, if_pos (decide_eq_true h)]
    rfl
  · rw [if_neg h, if_neg (mt of_decide_eq_true h)]
    rfl

theorem substring_stuck (hargs : SubstringArguments s args start stop)
    (hin : ¬ OutOfRange s start stop) (hlt : Number.toWord stop < Number.toWord start) :
    substring args w = .stopped .stuck := by
  rw [substring_eq hargs, substringRange?_of_inRange hin, range?,
    decide_eq_false (Nat.not_le.mpr hlt), Bool.false_and]
  rfl

/-- What passes is in order with zero, the length and itself, as far as numbers are. -/
theorem not_lt_of_inRange (hin : ¬ OutOfRange s start stop) :
    ¬ start < 0.0 ∧ ¬ Float.ofNat s.toList.length < stop ∧ ¬ stop < start := by
  simpa [OutOfRange] using hin

theorem zero_le_of_inRange (hin : ¬ OutOfRange s start stop) (hstart : start.isNaN = false) :
    0.0 ≤ start :=
  (Number.not_lt_iff rfl hstart).mp (not_lt_of_inRange hin).1

theorem le_of_inRange (hin : ¬ OutOfRange s start stop) (hstart : start.isNaN = false)
    (hstop : stop.isNaN = false) :
    start ≤ stop :=
  (Number.not_lt_iff hstart hstop).mp (not_lt_of_inRange hin).2.2

theorem le_length_of_inRange (hin : ¬ OutOfRange s start stop) (hstop : stop.isNaN = false)
    (hlength : s.toList.length ≤ 2 ^ 53) : stop ≤ Float.ofNat s.toList.length :=
  (Number.not_lt_iff hstop (Number.isNaN_ofNat hlength)).mp (not_lt_of_inRange hin).2.1

/-- **Every range is refused or answered with the characters between its places**, except for what
is not a number: such an end leaves a run stuck whose start is one or more. -/
theorem substring_ends (hargs : SubstringArguments s args start stop) (w : World) :
    SubstringEnds s start stop w (substring args w) where
  refused hout := substring_of_outOfRange hargs hout
  ordered hin hstart hstop := by
    have hle := le_of_inRange hin hstart hstop
    have hwords := Number.toWord_le_of_le hstart hstop hle
    exact ⟨zero_le_of_inRange hin hstart, hle, hwords, substring_of_inRange hargs hin hwords⟩
  inside hin hstop hlength := by
    have hle := le_length_of_inRange hin hstop hlength
    have hword := Number.toWord_le_of_le hstop (Number.isNaN_ofNat hlength) hle
    exact ⟨hle, (Number.toWord_ofNat hlength) ▸ hword⟩
  truncated hin hstart hstop hlength := by
    have hle := le_of_inRange hin hstart hstop
    have hlast := le_length_of_inRange hin hstop hlength
    have hfirst := zero_le_of_inRange hin hstart
    exact ⟨Number.truncate?_eq_toWord hlength hstart hfirst (Number.le_trans hle hlast),
      Number.truncate?_eq_toWord hlength hstop (Number.le_trans hfirst hle) hlast⟩
  nan_start hin hstart := by
    have hzero := Number.toWord_of_isNaN hstart
    have h := substring_of_inRange (w := w) hargs hin (hzero ▸ Nat.zero_le _)
    rwa [hzero] at h
  nan_stop hin hstop := by
    have hstopZero := Number.toWord_of_isNaN hstop
    refine ⟨fun hstart => ?_, fun hone => ?_⟩
    · have hstartZero : Number.toWord start = 0 := by
        rcases hstart with hstart | hone
        · exact Number.toWord_of_isNaN hstart
        · have hstart : start.isNaN = false := Bool.eq_false_iff.mpr fun h =>
            Number.not_lt_of_isNaN (.inl h) hone
          exact (Number.toWord_eq_zero_iff hstart (zero_le_of_inRange hin hstart)).mpr hone
      have h := substring_of_inRange (w := w) hargs hin (hstartZero ▸ Nat.zero_le _)
      rw [hstartZero, hstopZero, if_pos (Nat.zero_le _)] at h
      exact h
    · obtain ⟨-, hstart⟩ := Number.not_isNaN_of_le hone
      have hpositive : Number.toWord start ≠ 0 := by
        rw [Ne, Number.toWord_eq_zero_iff hstart (zero_le_of_inRange hin hstart)]
        exact (Number.not_lt_iff rfl hstart).mpr hone
      exact substring_stuck hargs hin (hstopZero ▸ Nat.pos_of_ne_zero hpositive)

/-- The end is not a number, and the start is one: the run is stuck. -/
theorem substring_ends_stuck :
    SubstringArguments "abc" [.string "abc", .number 1.0, .number Number.notANumber] 1.0
      Number.notANumber ∧
    substring [.string "abc", .number 1.0, .number Number.notANumber] (.initial .default 0 0) =
      .stopped .stuck := by
  have hargs :
      SubstringArguments "abc" [.string "abc", .number 1.0, .number Number.notANumber] 1.0
        Number.notANumber :=
    .both rfl rfl
  have hin : ¬ OutOfRange "abc" 1.0 Number.notANumber := by
    unfold OutOfRange
    decide +kernel
  exact ⟨hargs, ((substring_ends hargs (.initial .default 0 0)).nan_stop hin rfl).2
    (by decide +kernel)⟩

end Library

end ScriptEngine
