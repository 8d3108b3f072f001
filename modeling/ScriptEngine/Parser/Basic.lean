import ScriptEngine.Token.Scan
import ScriptEngine.Tree
/-!
# Reading tokens

A parser takes a state and replies with a value and the state after it, or with a fault and the
state it was met in. A budget bounds how deeply productions nest; running out of it is a reply of
its own, apart from every fault.

* `State` : the tokens ahead, the one just taken, the faults recorded and the nesting of blocks.
  Comments are dropped from the tokens at the start, and the end token is never taken.
* `peek`, `take`, `check`, `accept`, `expect` : moving over tokens (`peek`, `advance`, `check`,
  `match_token`, `expect`).
* `unexpected` : the fault of a token that does not fit (`error_at_peek`).
* `gather`, `separated`, `chain` : the loops of the grammar: statements up to a brace, items between
  commas, operators of one level.
* `recover` : a statement that cannot be read is recorded, and tokens are skipped up to where
  another may begin (`declaration`, `synchronize`, here `skipFrom` and `State.resume`).
* `nested` : one block deeper, which tells where skipping ends at a brace.

How deep the parser's own calls may nest on the machine it runs on is out of scope: it is given as
much stack as it needs.
-/

namespace ScriptEngine.Parser

/-- What lies ahead of a parser and what it has met. The comments are left out of `rest`, and the
end of the tokens is kept apart as the place `stop`. -/
structure State where
  previous : Option Token
  rest : List Token
  stop : Span
  recorded : List Fault
  depth : Nat

namespace State

/-- The state at the front of some tokens: comments are dropped and nothing after an end token is
seen. Without an end token the last token's place ends the text. -/
def ofTokens (tokens : List Token) : State :=
  let seen := tokens.filter fun t => t.kind != .comment
  let stop := match seen.find? fun t => t.kind == .eof with
    | some t => t.span
    | none => (seen.getLast?.map Token.span).getD ⟨0, 0, 0, 0⟩
  ⟨none, seen.takeWhile fun t => t.kind != .eof, stop, [], 0⟩

/-- The next token, the end token once the others are used up. -/
def next (s : State) : Token := s.rest.headD ⟨.eof, s.stop, ""⟩

/-- The kind of the next token. -/
def kind (s : State) : Kind := s.next.kind

/-- Whether every token is used up. -/
def atEnd (s : State) : Bool := s.rest.isEmpty

/-- The state after the next token. The end token is never passed. -/
def advance (s : State) : State :=
  match s.rest with
  | [] => s
  | t :: ts => { s with previous := some t, rest := ts }

/-- The token taken last. -/
def last (s : State) : Token := s.previous.getD s.next

end State

/-- What a parser replies. -/
inductive Reply (α : Type)
  | ok (value : α) (state : State)
  | error (fault : Fault) (state : State)
  | exhausted

end Parser

/-- A parser of things of type `α`. -/
def Parser (α : Type) := Parser.State → Parser.Reply α

namespace Parser

instance : Monad Parser where
  pure a := fun s => .ok a s
  bind p f := fun s => match p s with
    | .ok a s' => f a s'
    | .error e s' => .error e s'
    | .exhausted => .exhausted

/-- The reply when the budget is used up. -/
def exhausted {α : Type} : Parser α := fun _ => .exhausted

/-- Stops with a fault. -/
def fail {α : Type} (fault : Fault) : Parser α := fun s => .error fault s

/-- Stops with a syntax error at a place. -/
def failAt {α : Type} (error : SyntaxError) (span : Span) : Parser α :=
  fail (.placed (.syntactic error) span)

/-- The state as it is. -/
def state : Parser State := fun s => .ok s s

/-- The next token, left where it is. -/
def peek : Parser Token := fun s => .ok s.next s

/-- Takes the next token. -/
def take : Parser Token := fun s => .ok s.next s.advance

/-- Whether the next token is of the given kind. -/
def check (kind : Kind) : Parser Bool := fun s => .ok (s.kind == kind) s

/-- Takes the next token if it is of the given kind, and says whether it was. -/
def accept (kind : Kind) : Parser Bool := fun s =>
  if s.kind == kind then .ok true s.advance else .ok false s

/-- Stops because the next token is not what was wanted. -/
def unexpected {α : Type} (wanted : String) : Parser α := fun s =>
  .error (.placed (.syntactic (.expectedToken wanted s.kind.text)) s.next.span) s

/-- Takes a token of the given kind. -/
def expect (kind : Kind) (wanted : String) : Parser Token := fun s =>
  if s.kind == kind then .ok s.next s.advance else unexpected wanted s

/-- Takes a name. -/
def expectName (wanted : String) : Parser String := fun s =>
  match s.kind with
  | .ident name => .ok name s.advance
  | _ => unexpected wanted s

/-! ### Loops -/

/-- Repeats a step until it yields nothing, and joins what it yields. -/
def gather {α : Type} (step : Parser (Option (List α))) : Nat → Parser (List α)
  | 0 => exhausted
  | n + 1 => do
    match ← step with
    | none => return []
    | some items => return items ++ (← gather step n)

/-- At least one item, with commas between items and room for so many. -/
def separated {α : Type} (what : String) (item : Parser α) : Nat → Parser (List α)
  | 0 => do failAt (.tooMany what) (← peek).span
  | room + 1 => do
    let a ← item
    if ← accept (.symbol .comma) then return a :: (← separated what item room) else return [a]

/-- At least one item, with commas between items. A last comma may stand before `close`. -/
def trailing {α : Type} (close : Symbol) (item : Parser α) : Nat → Parser (List α)
  | 0 => exhausted
  | n + 1 => do
    let a ← item
    if ← accept (.symbol .comma) then
      if ← check (.symbol close) then return [a] else return a :: (← trailing close item n)
    else return [a]

/-- Goes on with operators and operands after a left operand. -/
def chainFrom (operator? : Kind → Option (Expr → Expr → Expr)) (operand : Parser Expr) :
    Nat → Expr → Parser Expr
  | 0, _ => exhausted
  | n + 1, left => do
    match operator? (← peek).kind with
    | none => return left
    | some combine =>
      let _ ← take
      let right ← operand
      chainFrom operator? operand n (combine left right)

/-- Operands with operators between them, grouped to the left. -/
def chain (operator? : Kind → Option (Expr → Expr → Expr)) (operand : Parser Expr) (n : Nat) :
    Parser Expr := do
  chainFrom operator? operand n (← operand)

/-! ### Recovery -/

/-- Passes tokens until one was a semicolon or the next one begins a statement or closes a
block. -/
def skipFrom (previous : Option Token) : List Token → Option Token × List Token
  | [] => (previous, [])
  | t :: ts =>
    if previous.any (·.kind == .symbol .semicolon) || t.kind.startsStatement
        || t.kind == .symbol .rightBrace then (previous, t :: ts)
    else skipFrom (some t) ts

/-- Moves to where reading can go on after a mistake. The next token is passed over first, unless
it closes the block being read. -/
def State.resume (s : State) : State :=
  let s := if 0 < s.depth && s.kind == .symbol .rightBrace then s else s.advance
  let (previous, rest) := skipFrom s.previous s.rest
  { s with previous, rest }

/-- Reads a thing, or records why it cannot be read and moves on. -/
def recover {α : Type} (p : Parser α) : Parser (Option α) := fun s =>
  match p s with
  | .ok a s' => .ok (some a) s'
  | .error f s' => .ok none { s' with recorded := f :: s'.recorded }.resume
  | .exhausted => .exhausted

/-- Reads inside a block. -/
def nested {α : Type} (p : Parser α) : Parser α := fun s =>
  match p { s with depth := s.depth + 1 } with
  | .ok a s' => .ok a { s' with depth := s'.depth - 1 }
  | .error f s' => .error f { s' with depth := s'.depth - 1 }
  | .exhausted => .exhausted

end Parser

end ScriptEngine
