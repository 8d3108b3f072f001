/-!
# Places in a source text

A place is counted in bytes from the beginning of the text, and in lines and columns from 1, columns
in characters. Only a newline begins a line, so a carriage return is a column of the line it ends.

* `Span` : the bytes a token or a tree covers, and the line and column where it begins.
* `Position` : the place between two characters. `Position.next` is what `advance` does to the
  cursor of the lexer, and `Position.after` does it for a run of characters.
* `Position.spanTo` : the span from one place to another, as each scanner gives it to its token.
* `Span.upTo` : the span of a node from its first token through its last.
-/

namespace ScriptEngine

/-- The bytes `start … stop` of a source text, and the line and column of the first one. Lines and
columns count from 1, columns in characters. -/
structure Span where
  start : Nat
  stop : Nat
  line : Nat
  column : Nat
  deriving DecidableEq, Repr, Inhabited

/-- The span from the beginning of `s` through `t`, placed at `s`. -/
def Span.upTo (s t : Span) : Span := { s with stop := max t.stop s.stop }

/-- A place between two characters of a source text. -/
structure Position where
  offset : Nat
  line : Nat
  column : Nat
  deriving DecidableEq, Repr, Inhabited

namespace Position

/-- The beginning of a text whose first line has the given number. -/
def atLine (line : Nat) : Position := ⟨0, line, 1⟩

/-- The place after one more character. Only a newline begins a line. -/
def next (p : Position) (c : Char) : Position :=
  if c = '\n' then ⟨p.offset + c.utf8Size, p.line + 1, 1⟩
  else ⟨p.offset + c.utf8Size, p.line, p.column + 1⟩

/-- The place after a run of characters. -/
def after (p : Position) (cs : List Char) : Position := cs.foldl next p

/-- The span from `p` to `q`. -/
def spanTo (p q : Position) : Span := ⟨p.offset, q.offset, p.line, p.column⟩

end Position

end ScriptEngine
