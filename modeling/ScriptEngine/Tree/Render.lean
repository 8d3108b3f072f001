import ScriptEngine.Number.Decimal
import ScriptEngine.Tree
/-!
# Expressions as text

Every operator is written with its parentheses, so a tree is shown without ambiguity. Literals are
written as the language reads them, as far as it can: a number beyond the range of doubles is
written as a word. The bodies of functions are left out.

* `quoteLiteral` : a string between the quotes that it does not contain (`quote`).
* `Expr.render` : an expression. Numbers are written by `Number.scriptText` (`format_number`).
-/

namespace ScriptEngine

/-- A string in the quotes it does not contain, in double quotes if it contains neither. -/
def quoteLiteral (s : String) : String :=
  if s.toList.contains '"' then "'" ++ s ++ "'" else "\"" ++ s ++ "\""

/-- Texts with commas between them. -/
def commaSeparated (texts : List String) : String := String.intercalate ", " texts

mutual

/-- The text of an expression. -/
def Expr.render : Expr → String
  | .number value _ => Number.scriptText value
  | .float value _ => Number.plain32 value ++ "f"
  | .string value _ => quoteLiteral value
  | .bool value _ => if value then "true" else "false"
  | .null _ => "null"
  | .var name _ => name
  | .this _ => "this"
  | .binary left op right _ =>
    "(" ++ left.render ++ " " ++ op.text ++ " " ++ right.render ++ ")"
  | .logical left op right _ =>
    "(" ++ left.render ++ " " ++ op.text ++ " " ++ right.render ++ ")"
  | .unary op operand _ => op.text ++ operand.render
  | .call callee args _ => callee.render ++ "(" ++ commaSeparated (renderAll args) ++ ")"
  | .lambda function _ => "fun (" ++ commaSeparated function.params ++ ") \x7b ... \x7d"
  | .get object name _ => object.render ++ "." ++ name
  | .set object name op value _ =>
    object.render ++ "." ++ name ++ " " ++ op.text ++ " " ++ value.render
  | .index object key _ => object.render ++ "[" ++ key.render ++ "]"
  | .indexSet object key op value _ =>
    object.render ++ "[" ++ key.render ++ "] " ++ op.text ++ " " ++ value.render
  | .list elements _ => "[" ++ commaSeparated (renderAll elements) ++ "]"
  | .map entries _ => "\x7b" ++ commaSeparated (renderEntries entries) ++ "\x7d"
  | .template parts _ => "f\"" ++ renderParts parts ++ "\""

/-- The texts of expressions. -/
def renderAll : List Expr → List String
  | [] => []
  | e :: es => e.render :: renderAll es

/-- The texts of the entries of a map. -/
def renderEntries : List (String × Expr) → List String
  | [] => []
  | (key, e) :: entries => (quoteLiteral key ++ ": " ++ e.render) :: renderEntries entries

/-- The pieces of a template, one after another. -/
def renderParts : List Part → String
  | [] => ""
  | .literal text :: parts => text ++ renderParts parts
  | .embedded e :: parts => "\x7b" ++ e.render ++ "\x7d" ++ renderParts parts

end

end ScriptEngine
