import ScriptEngine.Text.Lines
import ScriptEngine.Token.Scan
/-!
# The pieces of a template

The body of a template is text with embedded code in braces. Inside the braces, braces nest and a
string may hold any of them.

* `codeLength?` : how far embedded code goes (`find_matching_brace`).
* `pieces` : a body as texts and codes in order; an unmatched brace ends it (`parse_fstring`).

Doubled braces have no meaning of their own. What the code says is read by the grammar.
-/

namespace ScriptEngine.Template

/-- A piece of a template's body. -/
inductive Piece
  | text (cs : List Char)
  | code (cs : List Char)
  | unmatched
  deriving DecidableEq, Repr

/-- The length of embedded code up to the brace that closes it, where `depth` braces are open and
`inner` is the quote of the string the next character lies in. -/
def codeLength? : (depth : Nat) → (inner : Option Char) → List Char → Option Nat
  | _, _, [] => none
  | depth, some q, c :: cs =>
    (codeLength? depth (if c = q then none else some q) cs).map (· + 1)
  | depth, none, c :: cs =>
    if Token.isQuote c then (codeLength? depth (some c) cs).map (· + 1)
    else if c = '{' then (codeLength? (depth + 1) none cs).map (· + 1)
    else if c = '}' then
      if depth = 1 then some 0 else (codeLength? (depth - 1) none cs).map (· + 1)
    else (codeLength? depth none cs).map (· + 1)

/-- A text piece, unless it is empty. The characters come backwards. -/
def textPiece (reversed : List Char) : List Piece :=
  if reversed.isEmpty then [] else [.text reversed.reverse]

/-- The pieces of a body, where `reversed` is text already read, backwards. -/
def piecesFrom (reversed : List Char) (cs : List Char) : List Piece :=
  match cs with
  | [] => textPiece reversed
  | '{' :: cs =>
    match codeLength? 1 none cs with
    | none => [.unmatched]
    | some n => textPiece reversed ++ .code (cs.take n) :: piecesFrom [] (cs.drop (n + 1))
  | c :: cs => piecesFrom (c :: reversed) cs
termination_by cs.length
decreasing_by all_goals simp only [List.length_cons, List.length_drop]; omega

/-- The pieces of a body. -/
def pieces (body : String) : List Piece := piecesFrom [] body.toList

end ScriptEngine.Template
