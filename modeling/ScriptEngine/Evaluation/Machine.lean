import ScriptEngine.Evaluation.Expression
/-!
# Evaluation

* `machine` : evaluation within a budget, the one place where the recursion is tied (`execute`,
  `evaluate`, `call_value`, and the host's ways back). A run that is not exhausted is the same
  within any greater budget.
* `budget` : more than any run can use up before it has run for longer than anybody waits.

Errors are placed here, at the innermost expression or statement that is being evaluated.
-/

namespace ScriptEngine.Evaluation

/-- Evaluation that starts itself again no more than so many times inside itself, and goes no more
often through a loop. Errors are placed at the innermost expression or statement. -/
def machine : (budget : Nat) → Calls
  | 0 => .exhausted
  | budget + 1 => {
    evaluate := fun e w => Script.placedAt e.span (valueOf (machine budget) e) w
    execute := fun stmt w => Script.placedAt stmt.span (step (machine budget) budget stmt) w
    call := fun callee args w => callValue (machine budget) callee args w
    callVirtual := fun this name args w => Host.callVirtual (machine budget) this name args w
    readHost := fun this name w => Host.readHost (machine budget) this name w }

/-- The budget of a run. -/
def budget : Nat := Nat.pow 2 60

/-- Evaluation within the budget of a run. -/
def calls : Calls := machine budget

end ScriptEngine.Evaluation
