import ScriptEngine.Proofs.ErrorPlaces
/-!
# Templates as sums

A template is evaluated part by part, and each value is turned into text before the next part is
evaluated. A sum that starts with the empty string does the same from left to right: what is added
to a string is turned into text when it is added. So the two end alike in every state, with the same
value or the same error, and leave the same state and the same output behind.

* `Part.operand`, `IsSum` : the sum `"" + p₁ + ... + pₙ` of the parts of a template.
* `Evaluation.Evaluates` : how an expression ends, within every budget from some one on.
* `Evaluation.evaluate_sum_below`, `Evaluation.template_below` : within the same budget a sum ends
  as the template or is exhausted, and a template ends as the sum within a budget that is greater by
  the number of the parts.
* **`Evaluation.evaluates_template_iff`** : a template ends as the sum does.

A part that is text is a literal of the sum, and a part that is code an operand. The sum starts with
the empty string, because two numbers in front of the first text would be added.
-/

namespace ScriptEngine

open Run Evaluation

/-- A part of a template as an operand, a literal text being a string literal. -/
def Part.operand (place : Span) : Part → Expr
  | .literal text => .string text place
  | .embedded e => e

/-- The empty string with the parts added to it one after another. The literals and the sums may
stand anywhere. -/
inductive IsSum : List Part → Expr → Prop
  | empty (place : Span) : IsSum [] (.string "" place)
  | add {parts : List Part} {sum : Expr} (hsum : IsSum parts sum) (p : Part) (place span : Span) :
      IsSum (parts ++ [p]) (.binary sum .add (p.operand place) span)

/-! ## One part more -/

namespace Run

variable {ε α β : Type}

theorem collect_append (r : β → Run ε α) (bs bs' : List β) :
    collect r (bs ++ bs') = (do let as ← collect r bs; return as ++ (← collect r bs')) := by
  induction bs with
  | nil => simp [collect]
  | cons b bs ih => simp [collect, ih]

end Run

namespace Evaluation

variable {again : Calls} {parts : List Part} {sum : Expr} {n m : Nat}

/-- The text of a part is appended to a text. -/
def appended (again : Calls) (text : String) (p : Part) : Script Value := do
  return .string (text ++ (← partText again p))

/-- What is added to a string is appended to it as text. -/
theorem add_string (text : String) (v : Value) :
    Operators.binary .add (.string text) v = do return .string (text ++ (← Script.text v)) := rfl

/-- A template with one part more appends the text of the part to the template before it. -/
theorem template_append (parts : List Part) (p : Part) (span : Span) :
    valueOf again (.template (parts ++ [p]) span) =
    (do let texts ← Run.collect (partText again) parts; appended again (String.join texts) p) := by
  have hone : Run.collect (partText again) [p] = (do return [← partText again p]) := by
    simp [Run.collect]
  simp [valueOf, appended, collect_append, hone, String.join_append]

/-- Adding the operand of a part appends its text, where there is any budget. -/
theorem add_operand (text : String) (p : Part) (place : Span) (n : Nat) :
    (do Operators.binary .add (.string text) (← (machine (n + 1)).evaluate (p.operand place))) =
      appended (machine (n + 1)) text p := by
  simp only [add_string, appended]
  cases p with
  | literal t => rfl
  | embedded e => exact (bind_assoc ..).symm

theorem appended_below (hle : n ≤ m) (text : String) (p : Part) :
    (appended (machine n) text p).Below (appended (machine m) text p) := by
  refine .bind ?_ fun _ => .refl _
  exact Run.below_iff_agrees.mpr (partText_agrees (Calls.below_iff_agree.mp (machine_below hle)) p)

theorem template_below_of_le (hle : n ≤ m) (parts : List Part) (span : Span) :
    (valueOf (machine n) (.template parts span)).Below
      (valueOf (machine m) (.template parts span)) :=
  Run.below_iff_agrees.mpr
    (valueOf_agrees Region.everywhere_around (Calls.below_iff_agree.mp (machine_below hle)) _)

/-- All errors of a template are placed: they are those of the expressions in it. -/
theorem template_placing (n : Nat) (parts : List Part) (span : Span) :
    (valueOf (machine n) (.template parts span)).Placing := by
  refine .bind (.collect (fun p => ?_) parts) fun _ => .never fun _ _ _ h => by cases h
  cases p with
  | literal text => exact .never fun _ _ _ h => by cases h
  | embedded e => exact .bind (evaluate_placing e n) fun _ => .never fun _ _ _ h => by cases h

/-- Adding a part to a template appends the text of the part to it. -/
theorem template_add (parts : List Part) (p : Part) (place span : Span) (n : Nat) :
    (do let v ← valueOf again (.template parts span)
        Operators.binary .add v (← (machine (n + 1)).evaluate (p.operand place))) =
      (do let texts ← Run.collect (partText again) parts
          appended (machine (n + 1)) (String.join texts) p) := by
  simp only [← add_operand _ p place n, valueOf, bind_assoc, pure_bind]

/-! ## Templates and sums -/

/-- **A sum ends as the template** of its parts does, unless it is exhausted. -/
theorem evaluate_sum_below (hsum : IsSum parts sum) (span : Span) (n : Nat) :
    ((machine n).evaluate sum).Below (valueOf (machine n) (.template parts span)) := by
  induction hsum generalizing n with
  | empty place =>
    cases n with
    | zero => exact .exhausted _
    | succ n => exact .refl _
  | @add parts sum hsum p place outer ih =>
    match n with
    | 0 => exact .exhausted _
    | 1 => exact fun w => .inl rfl
    | n + 2 =>
      have hadd : (valueOf (machine (n + 1)) (.binary sum .add (p.operand place) outer)).Below
          (valueOf (machine (n + 1)) (.template (parts ++ [p]) span)) := by
        rw [template_append, ← template_add parts p place span]
        exact (ih (n + 1)).bind fun _ => .refl _
      have hmore := hadd.trans (template_below_of_le (Nat.le_succ _) (parts ++ [p]) span)
      rw [← (template_placing (n + 2) (parts ++ [p]) span).placedAt_eq outer]
      exact hmore.mapError _

/-- **A template ends as the sum** of its parts does, unless it is exhausted; the sum goes deeper by
one for each part. -/
theorem template_below (hsum : IsSum parts sum) (span : Span) (n : Nat) :
    (valueOf (machine n) (.template parts span)).Below
      ((machine (n + parts.length + 1)).evaluate sum) := by
  induction hsum with
  | empty place => exact .refl _
  | @add parts sum hsum p place outer ih =>
    have hadd : (valueOf (machine n) (.template (parts ++ [p]) span)).Below
        (valueOf (machine (n + parts.length + 1)) (.binary sum .add (p.operand place) outer)) := by
      have happended (text : String) :=
        appended_below (n := n) (Nat.le_add_right n (parts.length + 1)) text p
      rw [template_append]
      refine Below.trans (.bind (.refl _) fun texts => happended (String.join texts)) ?_
      rw [← Nat.add_assoc, ← template_add parts p place span]
      exact ih.bind fun _ => .refl _
    rw [← (template_placing n (parts ++ [p]) span).placedAt_eq outer, List.length_append,
      ← Nat.add_assoc]
    exact hadd.mapError _

/-! ## How expressions end -/

/-- How an expression ends in a state: not exhausted, and the same within every budget from some one
on. -/
def Evaluates (e : Expr) (w : World) (o : Outcome Fault Value) : Prop :=
  o ≠ .stopped .exhausted ∧ ∃ n, ∀ m, n ≤ m → (machine m).evaluate e w = o

/-- Once is enough. -/
theorem evaluates_iff {e : Expr} {w : World} {o : Outcome Fault Value} :
    Evaluates e w o ↔ o ≠ .stopped .exhausted ∧ ∃ n, (machine n).evaluate e w = o := by
  refine and_congr_right fun hne => ⟨fun ⟨n, hn⟩ => ⟨n, hn n (Nat.le_refl n)⟩, fun ⟨n, hn⟩ =>
    ⟨n, fun m hle => ?_⟩⟩
  rw [← hn] at hne ⊢
  exact (((machine_below hle).evaluate e).eq_of_ne hne).symm

/-- **A template is a sum.** From whatever state, it ends as the sum `"" + p₁ + ... + pₙ` of its
parts ends: with the same value or the same error, the same output, and the same state behind it;
and the one goes on for ever if the other does. -/
theorem evaluates_template_iff (hsum : IsSum parts sum) (span : Span) (w : World)
    (o : Outcome Fault Value) :
    Evaluates (.template parts span) w o ↔ Evaluates sum w o := by
  have htemplate (n : Nat) : (machine (n + 1)).evaluate (.template parts span) =
      valueOf (machine n) (.template parts span) := (template_placing n parts span).placedAt_eq span
  rw [evaluates_iff, evaluates_iff]
  refine and_congr_right fun hne => ⟨fun ⟨n, hn⟩ => ?_, fun ⟨n, hn⟩ => ?_⟩
  · cases n with
    | zero => exact absurd hn.symm hne
    | succ n =>
      rw [htemplate] at hn
      refine ⟨n + parts.length + 1, ?_⟩
      rw [← (template_below hsum span n).eq_of_ne (by rwa [hn]), hn]
  · refine ⟨n + 1, ?_⟩
    rw [htemplate, ← (evaluate_sum_below hsum span n).eq_of_ne (by rwa [hn]), hn]

/-- The parts of `f"a{["x"]}"`, and the sum `"" + "a" + ["x"]`. -/
def letterParts : List Part := [.literal "a", .embedded (.list [.string "x" default] default)]

def letterSum : Expr :=
  .binary (.binary (.string "" default) .add (.string "a" default) default) .add
    (.list [.string "x" default] default) default

/-- Both make a new list and end with the same text. -/
theorem evaluates_template_letters : IsSum letterParts letterSum ∧ ∃ w',
    Evaluates (.template letterParts default) (World.initial .default 0 0)
      (.ok (.string "a[x]") w') ∧
      Evaluates letterSum (World.initial .default 0 0) (.ok (.string "a[x]") w') := by
  have hsum : IsSum letterParts letterSum :=
    .add (.add (.empty default) (.literal "a") default default)
      (.embedded (.list [.string "x" default] default)) default default
  have hends : ∃ w', (machine 3).evaluate letterSum (World.initial .default 0 0) =
    .ok (.string "a[x]") w' := ⟨_, rfl⟩
  obtain ⟨w', hends⟩ := hends
  have hevaluates : Evaluates letterSum (World.initial .default 0 0) (.ok (.string "a[x]") w') :=
    evaluates_iff.mpr ⟨nofun, 3, hends⟩
  exact ⟨hsum, w', (evaluates_template_iff hsum default _ _).mpr hevaluates, hevaluates⟩

end Evaluation

end ScriptEngine
