import ScriptEngine.Parser.Grammar
/-!
# Programs from text

* `programOf` : the statements of a source text, or everything that is wrong with it (`parse`,
  `check`). A lexical fault ends the reading, so it stands alone; syntactic ones are collected from
  the whole text.
* `programOf?` : the statements, or the first fault, as execution asks for them.
-/

namespace ScriptEngine.Parser

/-- The statements of a source text, or its faults with the lines they stand in. -/
def programOf (source : String) : Except (List Fault) (List Stmt) :=
  match Token.tokenize source with
  | .error f => .error [f.withSource source]
  | .ok tokens =>
    match readProgram tokens with
    | (program, []) => .ok program
    | (_, faults) => .error (faults.map (·.withSource source))

/-- The statements of a source text, or its first fault. -/
def programOf? (source : String) : Except Fault (List Stmt) :=
  match programOf source with
  | .ok program => .ok program
  | .error (f :: _) => .error f
  | .error [] => .ok []

end ScriptEngine.Parser
