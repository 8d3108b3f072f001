import ScriptEngine.Parser.Basic
import ScriptEngine.Parser.Template
/-!
# The grammar

Each production is a parser that is given the productions it may start again. Those are only started
after a token has been taken, so a budget of one more than the tokens is enough.

* `expression` : operators in six levels, each grouped to the left, above unary operators and calls,
  indices and properties (`or_expr`, `and_expr`, `equality`, `comparison`, `term`, `factor`,
  `unary`, `call`, here `levels`).
* `primary` : literals, names, lists, maps, functions and templates. The code of a template is
  tokenized and read as an expression of its own (`parse_embedded`, here `embedded`) and placed from
  the first byte on, so its spans are not those of the text around it.
* `callRest`, `trailers` : a call or an index has to open on the line its callee stands on.
* `statement`, `declaration` : statements; a statement that cannot be read is recorded and reading
  goes on with the next (`statement`, `declaration_inner`, `declaration`).
* `endStatement` : the end of a statement is a semicolon, a line end, a brace or the end of the text
  (`end_statement`).
* `expressionStatement`, `assignTo` : an assignment is read as an expression and then checked for
  what it assigns to (`expression_statement`).
* `productions` : the productions with a budget.
* `readProgram`, `readProgram?`, `readExpression` : a whole text, and a single expression
  (`parse_with_recovery`, `parse`).
-/

namespace ScriptEngine.Parser

/-- The most parameters a function and the most arguments a call may have. -/
def maxArguments : Nat := 255

/-- The productions that other productions start again. -/
structure Productions where
  expression : Parser Expr
  unary : Parser Expr
  statement : Parser Stmt
  declaration : Parser (Option Stmt)

/-- Whether the next token is the given mark. -/
def checkMark (mark : Symbol) : Parser Bool := check (.symbol mark)

/-- Takes the given mark if it is next. -/
def acceptMark (mark : Symbol) : Parser Bool := accept (.symbol mark)

/-- Takes the given mark. -/
def expectMark (mark : Symbol) (wanted : String) : Parser Token := expect (.symbol mark) wanted

/-- Takes the given word if it is next. -/
def acceptWord (word : Keyword) : Parser Bool := accept (.keyword word)

section Productions

variable (again : Productions) (n : Nat)

/-! ### Blocks and functions -/

/-- Statements up to a token of one of the given kinds or the end. Semicolons between them are
passed over. -/
def sequence (stops : Kind → Bool) : Parser (List Stmt) :=
  gather (do
    let kind := (← peek).kind
    if kind == .eof || stops kind then return none
    else if ← acceptMark .semicolon then return some []
    else return some (← again.declaration).toList) n

/-- The rest of a block after its opening brace. -/
def block : Parser (List Stmt) := do
  let body ← nested (sequence again n (· == .symbol .rightBrace))
  let _ ← expectMark .rightBrace "expected '\x7d' after block"
  return body

/-- The parameters and the body of a function. Only a function without a name may have a single
expression for its body. -/
def functionRest (name : Option String) (span : Span) : Parser FunctionDecl := do
  let _ ← expectMark .leftParen "expected '(' before parameters"
  let params ← if ← checkMark .rightParen then pure []
    else separated "parameters" (expectName "expected parameter name") maxArguments
  let _ ← expectMark .rightParen "expected ')' after parameters"
  let short ← if name.isNone then acceptMark .arrow else pure false
  if short then
    let value ← again.expression
    return ⟨name, params, [.ret (some value) value.span], span⟩
  else
    let _ ← expectMark .leftBrace "expected '\x7b' before function body"
    return ⟨name, params, ← block again n, span⟩

/-! ### Expressions -/

/-- An expression embedded in a template. It is read from its own tokens, whose lines count from
the template's, and must use all of them. -/
def embedded (code : String) (span : Span) : Parser Expr := fun s =>
  let bad (f : Fault) : Reply Expr :=
    .error (.placed (.syntactic (.invalidTemplate (.badExpression code f.message))) span) s
  match Token.tokenizeAt span.line code with
  | .error f => bad f
  | .ok tokens =>
    match again.expression (.ofTokens tokens) with
    | .exhausted => .exhausted
    | .error f _ => bad f
    | .ok e inner =>
      if !inner.atEnd then
        bad (.placed (.syntactic (.expectedToken "expected end of expression" inner.kind.text))
          inner.next.span)
      else match inner.recorded.getLast? with
        | some f => bad f
        | none => .ok e s

/-- The pieces of a template as trees. -/
def templateParts (span : Span) : List Template.Piece → Parser (List Part)
  | [] => return []
  | .text cs :: pieces => return .literal (String.ofList cs) :: (← templateParts span pieces)
  | .unmatched :: _ => failAt (.invalidTemplate .unmatchedBrace) span
  | .code cs :: pieces => do
    if cs.all Text.isBlank then failAt (.invalidTemplate .emptyExpression) span
    else
      let e ← embedded again (String.ofList cs) span
      return .embedded e :: (← templateParts span pieces)

/-- The rest of a list literal that begins at `span`. -/
def listLiteral (span : Span) : Parser Expr := do
  let elements ← if ← checkMark .rightBracket then pure []
    else trailing .rightBracket again.expression n
  let close ← expectMark .rightBracket "expected ']' after list elements"
  return .list elements (span.upTo close.span)

/-- An entry of a map literal: a name or a string, and a value. -/
def mapEntry : Parser (String × Expr) := do
  let key ← match (← peek).kind with
    | .ident name => pure name
    | .string text => pure text
    | _ => unexpected "expected identifier or string as map key"
  let _ ← take
  let _ ← expectMark .colon "expected ':' after map key"
  return (key, ← again.expression)

/-- The rest of a map literal that begins at `span`. -/
def mapLiteral (span : Span) : Parser Expr := do
  let entries ← if ← checkMark .rightBrace then pure []
    else trailing .rightBrace (mapEntry again) n
  let close ← expectMark .rightBrace "expected '\x7d' after map entries"
  return .map entries (span.upTo close.span)

/-- An operand without trailers. -/
def primary : Parser Expr := do
  let token ← peek
  let span := token.span
  let leaf (e : Expr) : Parser Expr := do
    let _ ← take
    return e
  match token.kind with
  | .number value => leaf (.number value span)
  | .float value => leaf (.float value span)
  | .string value => leaf (.string value span)
  | .ident name => leaf (.var name span)
  | .keyword .kwTrue => leaf (.bool true span)
  | .keyword .kwFalse => leaf (.bool false span)
  | .keyword .kwNull => leaf (.null span)
  | .keyword .kwThis => leaf (.this span)
  | .template body => do
    let _ ← take
    return .template (← templateParts again span (Template.pieces body)) span
  | .keyword .kwFun => do
    let _ ← take
    return .lambda (← functionRest again n none span) span
  | .symbol .leftParen => do
    let _ ← take
    let e ← again.expression
    let _ ← expectMark .rightParen "expected ')' after expression"
    return e
  | .symbol .leftBracket => do
    let _ ← take
    listLiteral again n span
  | .symbol .leftBrace => do
    let _ ← take
    mapLiteral again n span
  | kind => failAt (.expectedExpression kind.text) span

/-- The rest of a call after its opening parenthesis. -/
def callRest (callee : Expr) : Parser Expr := do
  let args ← if ← checkMark .rightParen then pure []
    else separated "arguments" again.expression maxArguments
  let close ← expectMark .rightParen "expected ')' after arguments"
  return .call callee args (callee.span.upTo close.span)

/-- Calls, indices and properties after an operand. A call or an index must begin on the line
where the token in front of it begins. -/
def trailers : Nat → Expr → Parser Expr
  | 0, _ => exhausted
  | m + 1, e => do
    let s ← state
    let sameLine := s.next.span.line == s.last.span.line
    if sameLine && s.kind == .symbol .leftParen then
      let _ ← take
      trailers m (← callRest again e)
    else if sameLine && s.kind == .symbol .leftBracket then
      let _ ← take
      let key ← again.expression
      let close ← expectMark .rightBracket "expected ']' after index"
      trailers m (.index e key (e.span.upTo close.span))
    else if s.kind == .symbol .dot then
      let _ ← take
      let name ← expectName "expected property name after '.'"
      let span := e.span.upTo (← state).last.span
      trailers m (.get e name span)
    else return e

/-- An operand with its unary operators and trailers. -/
def unary : Parser Expr := do
  let token ← peek
  let operator? : Option UnaryOp := match token.kind with
    | .symbol .minus => some .neg
    | .symbol .not => some .not
    | _ => none
  match operator? with
  | some op => do
    let _ ← take
    return .unary op (← again.unary) token.span
  | none => do trailers again n (← primary again n)

/-- The tree of a binary operator. It covers both operands. -/
def binaryTree (op : BinaryOp) (left right : Expr) : Expr :=
  .binary left op right (left.span.upTo right.span)

/-- The tree of a logical operator. It covers both operands. -/
def logicalTree (op : LogicalOp) (left right : Expr) : Expr :=
  .logical left op right (left.span.upTo right.span)

/-- The operator among `operators` that a token stands for, as a tree. -/
def operatorIn (operators : List (Symbol × (Expr → Expr → Expr))) :
    Kind → Option (Expr → Expr → Expr)
  | .symbol mark => operators.lookup mark
  | _ => none

/-- The operators in levels, the tightest first. -/
def levels : List (List (Symbol × (Expr → Expr → Expr))) :=
  [[(.star, binaryTree .mul), (.slash, binaryTree .div), (.percent, binaryTree .mod)],
    [(.plus, binaryTree .add), (.minus, binaryTree .sub)],
    [(.less, binaryTree .lt), (.lessEqual, binaryTree .le), (.greater, binaryTree .gt),
      (.greaterEqual, binaryTree .ge)],
    [(.equal, binaryTree .eq), (.notEqual, binaryTree .ne)],
    [(.and, logicalTree .and)],
    [(.or, logicalTree .or)]]

/-- An expression. -/
def expression : Parser Expr :=
  levels.foldl (fun operand operators => chain (operatorIn operators) operand n) (unary again n)

/-! ### Statements -/

/-- A statement ends at a semicolon, before a closing brace or a word that goes on with what is
around it, at the end of the text, or where the next token begins on a later line. -/
def endStatement (wanted : String) : Parser Unit := do
  if ← acceptMark .semicolon then return ()
  else
    let s ← state
    let closes := match s.kind with
      | .eof | .symbol .rightBrace | .keyword .kwElse | .keyword .kwCase | .keyword .kwDefault =>
        true
      | _ => false
    if closes || s.last.span.line < s.next.span.line then return ()
    else unexpected wanted

/-- A binding of a variable or a constant. -/
def binding (constant : Bool) : Parser Stmt := do
  let span := (← take).span
  let name ← expectName "expected variable name"
  let initial ← if ← acceptMark .assign then some <$> again.expression else pure none
  endStatement "expected ';' or newline after variable declaration"
  return .binding name initial constant span

/-- A function with a name. -/
def functionDeclaration : Parser Stmt := do
  let span := (← take).span
  let name ← expectName "expected function name"
  return .function (← functionRest again n (some name) span)

/-- The members of a class, where `static` is the static block met so far. -/
def members : Nat → Option (List Stmt) → Parser (List FunctionDecl × Option (List Stmt))
  | 0, _ => exhausted
  | m + 1, static => do
    let token ← peek
    match token.kind with
    | .eof | .symbol .rightBrace => return ([], static)
    | .symbol .semicolon => do
      let _ ← take
      members m static
    | .keyword .kwFun => do
      let span := (← take).span
      let name ← expectName "expected method name"
      let method ← functionRest again n (some name) span
      let (methods, static) ← members m static
      return (method :: methods, static)
    | .keyword .kwStatic =>
      if static.isNone then do
        let _ ← take
        let _ ← expectMark .leftBrace "expected '\x7b' after 'static'"
        members m (some (← block again n))
      else failAt .invalidClassMember token.span
    | _ => failAt .invalidClassMember token.span

/-- A class. -/
def classDeclaration : Parser Stmt := do
  let span := (← take).span
  let name ← expectName "expected class name"
  let superclass ← if ← acceptMark .less then do
      let at_ := (← peek).span
      let superName ← expectName "expected superclass name"
      pure (some (superName, at_))
    else pure none
  let _ ← expectMark .leftBrace "expected '\x7b' before class body"
  let (methods, static) ← members again n n none
  let _ ← expectMark .rightBrace "expected '\x7d' after class body"
  return .classDecl ⟨name, superclass, methods, static, span⟩

/-- The further names of a dotted path. -/
def pathRest : Nat → Parser (List String)
  | 0 => exhausted
  | m + 1 => do
    if ← acceptMark .dot then
      let name ← expectName "expected package or type name after '.'"
      return name :: (← pathRest m)
    else return []

/-- An import of a host type. -/
def importDeclaration : Parser Stmt := do
  let span := (← take).span
  let name ← expectName "expected package or type name"
  let path := name :: (← pathRest n)
  endStatement "expected ';' or newline after import"
  return .importType path span

/-- A conditional. -/
def conditional : Parser Stmt := do
  let span := (← take).span
  let _ ← expectMark .leftParen "expected '(' after 'if'"
  let test ← again.expression
  let _ ← expectMark .rightParen "expected ')' after if condition"
  let thenBranch ← again.statement
  let elseBranch ← if ← acceptWord .kwElse then some <$> again.statement else pure none
  return .cond test thenBranch elseBranch span

/-- A loop with a test. -/
def testedLoop : Parser Stmt := do
  let span := (← take).span
  let _ ← expectMark .leftParen "expected '(' after 'while'"
  let test ← again.expression
  let _ ← expectMark .rightParen "expected ')' after while condition"
  return .loop test (← again.statement) span

/-- A loop over items. -/
def itemLoop : Parser Stmt := do
  let span := (← take).span
  let _ ← expectMark .leftParen "expected '(' after 'for'"
  let name ← expectName "expected loop variable name"
  let _ ← expect (.keyword .kwIn) "expected 'in' after loop variable"
  let iterable ← again.expression
  let _ ← expectMark .rightParen "expected ')' after for-in expression"
  return .forIn name iterable (← again.statement) span

/-- The clauses of a switch, where `hasDefault` says that the default clause was met. -/
def switchCases : Nat → (hasDefault : Bool) → Parser (List SwitchCase)
  | 0, _ => exhausted
  | m + 1, hasDefault => do
    let token ← peek
    if token.kind == .eof || token.kind == .symbol .rightBrace then return []
    else
      let values ← if ← acceptWord .kwCase then some <$> trailing .colon again.expression n
        else
          if ← acceptWord .kwDefault then
            if hasDefault then failAt .duplicateDefault token.span else pure none
          else unexpected "expected 'case' or 'default'"
      let _ ← expectMark .colon "expected ':' after case/default"
      let body ← nested (sequence again n fun kind =>
        kind == .keyword .kwCase || kind == .keyword .kwDefault || kind == .symbol .rightBrace)
      let cases ← switchCases m (hasDefault || values.isNone)
      return ⟨values, body, token.span⟩ :: cases

/-- A switch. -/
def switchStatement : Parser Stmt := do
  let span := (← take).span
  let _ ← expectMark .leftParen "expected '(' after 'switch'"
  let subject ← again.expression
  let _ ← expectMark .rightParen "expected ')' after switch expression"
  let _ ← expectMark .leftBrace "expected '\x7b' before switch cases"
  let cases ← switchCases again n n false
  let _ ← expectMark .rightBrace "expected '\x7d' after switch body"
  return .switch subject cases span

/-- A return. Its value must begin on the line of the word. -/
def returnStatement : Parser Stmt := do
  let span := (← take).span
  let next ← peek
  let endsHere := next.kind == .symbol .semicolon || next.kind == .symbol .rightBrace
    || next.kind == .eof || span.line < next.span.line
  let value ← if endsHere then pure none else some <$> again.expression
  endStatement "expected ';' or newline after return value"
  return .ret value span

/-- An attempt with a handler, a cleanup, or both. -/
def attempt : Parser Stmt := do
  let span := (← take).span
  let _ ← expectMark .leftBrace "expected '\x7b' before 'try' body"
  let body ← block again n
  let handler ← if ← acceptWord .kwCatch then do
      let _ ← expectMark .leftParen "expected '(' after 'catch'"
      let name ← expectName "expected error variable name"
      let _ ← expectMark .rightParen "expected ')' after error variable"
      let _ ← expectMark .leftBrace "expected '\x7b' before 'catch' body"
      pure (some (name, ← block again n))
    else pure none
  let cleanup ← if ← acceptWord .kwFinally then do
      let _ ← expectMark .leftBrace "expected '\x7b' before 'finally' body"
      some <$> block again n
    else pure none
  if handler.isNone && cleanup.isNone then failAt .tryWithoutHandler span
  else return .attempt body handler cleanup span

/-- The assignment operator a token stands for. -/
def assignment? : Kind → Option AssignOp
  | .symbol .assign => some .plain
  | .symbol .plusAssign => some .add
  | .symbol .minusAssign => some .sub
  | .symbol .starAssign => some .mul
  | .symbol .slashAssign => some .div
  | .symbol .percentAssign => some .mod
  | _ => none

/-- The assignment of a value to a target; only variables, properties and indices are targets. -/
def assignTo (op : AssignOp) (value : Expr) : Expr → Option Stmt
  | .var name span => some (.assign name op value span)
  | .get object name span => some (.expr (.set object name op value span))
  | .index object key span => some (.expr (.indexSet object key op value span))
  | _ => none

/-- An expression, or an assignment to it. -/
def expressionStatement : Parser Stmt := do
  let target ← expression again n
  match assignment? (← peek).kind with
  | none =>
    endStatement "expected ';' or newline after expression"
    return .expr target
  | some op =>
    let place := (← take).span
    let value ← again.expression
    endStatement "expected ';' or newline after assignment"
    match assignTo op value target with
    | some stmt => return stmt
    | none => failAt .invalidAssignmentTarget place

/-- A statement that declares nothing. -/
def statement : Parser Stmt := do
  match (← peek).kind with
  | .keyword .kwIf => conditional again
  | .keyword .kwWhile => testedLoop again
  | .keyword .kwFor => itemLoop again
  | .keyword .kwSwitch => switchStatement again n
  | .keyword .kwReturn => returnStatement again
  | .keyword .kwTry => attempt again n
  | .keyword .kwBreak => do
    let span := (← take).span
    endStatement "expected ';' or newline after 'break'"
    return .brk span
  | .keyword .kwContinue => do
    let span := (← take).span
    endStatement "expected ';' or newline after 'continue'"
    return .cont span
  | .symbol .leftBrace => do
    let span := (← take).span
    return .block (← block again n) span
  | _ => expressionStatement again n

/-- Whether a name follows the next token. -/
def nameFollows (s : State) : Bool :=
  match s.advance.kind with
  | .ident _ => true
  | _ => false

/-- Any statement. -/
def anyStatement : Parser Stmt := do
  let s ← state
  match s.kind with
  | .keyword .kwFun => if nameFollows s then functionDeclaration again n else statement again n
  | .keyword .kwClass => classDeclaration again n
  | .keyword .kwVar => binding again false
  | .keyword .kwVal => binding again true
  | .keyword .kwImport => importDeclaration n
  | _ => statement again n

/-- A statement, or nothing where none can be read. -/
def declaration : Parser (Option Stmt) := recover (anyStatement again n)

end Productions

/-! ### Whole texts -/

/-- The productions with a budget for how deeply they nest. -/
def productions : Nat → Productions
  | 0 => ⟨exhausted, exhausted, exhausted, exhausted⟩
  | n + 1 => {
      expression := fun s => expression (productions n) n s
      unary := fun s => unary (productions n) n s
      statement := fun s => statement (productions n) n s
      declaration := fun s => declaration (productions n) n s }

/-- What a token counts for in a budget. The body of a template holds tokens of its own. -/
def weight (t : Token) : Nat :=
  match t.kind with
  | .template body => body.length + 1
  | _ => 1

/-- A budget that is enough for the tokens. -/
def budget (tokens : List Token) : Nat := tokens.foldr (fun t n => weight t + n) 2

/-- Every statement that can be read from the tokens, and a fault for each that cannot. -/
def readProgram (tokens : List Token) : List Stmt × List Fault :=
  let n := budget tokens
  match sequence (productions n) n (fun _ => false) (.ofTokens tokens) with
  | .ok program s => (program, s.recorded.reverse)
  | .error .. | .exhausted => ([], [])

/-- The statements of the tokens, or the first fault among them. -/
def readProgram? (tokens : List Token) : Except Fault (List Stmt) :=
  match readProgram tokens with
  | (program, []) => .ok program
  | (_, fault :: _) => .error fault

/-- The expression at the front of the tokens; the others are ignored. -/
def readExpression (tokens : List Token) : Except Fault Expr :=
  match (productions (budget tokens)).expression (.ofTokens tokens) with
  | .ok e _ => .ok e
  | .error f _ => .error f
  | .exhausted => .ok default

end ScriptEngine.Parser
