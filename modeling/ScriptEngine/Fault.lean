import ScriptEngine.Number.Decimal
import ScriptEngine.Source
import ScriptEngine.Text.Lines
/-!
# Faults

A fault is a cause, the place it is blamed on, and what is shown beside it. Causes come in three
layers: a lexical one ends the reading of a text, a syntactic one spoils a statement, and a runtime
one unwinds what is being executed.

* `LexicalError`, `SyntaxError`, `RuntimeError` : the causes of each layer, with the data of their
  texts. `Mismatch` is an operand or an argument of the wrong type, `Refusal` what a native
  function, a host method or a static block declines to do.
* `Cause.message` : the text a script sees. `Cause.layer` : the word in front of it (`category`).
* `Fault.orSpan` : the innermost place wins (`or_span`).
* `Fault.withSource`, `Fault.render` : the message with its place, the source line and the reason
  beneath it (`with_source` and what it shows).

A fault is data and compared as data. Backtraces and the chain of causes of the host's own errors
are out of scope: of a host error its text remains.
-/

namespace ScriptEngine

/-- What can be wrong with characters. -/
inductive LexicalError
  | unexpectedCharacter (c : Char)
  | unterminatedString
  | unterminatedTemplate
  | unterminatedComment
  | invalidNumber (text : String)
  deriving DecidableEq, Repr

/-- What can be wrong inside a template. -/
inductive TemplateError
  | unmatchedBrace
  | emptyExpression
  | badExpression (code message : String)
  deriving DecidableEq, Repr

/-- What can be wrong with tokens. -/
inductive SyntaxError
  | expectedToken (wanted got : String)
  | expectedExpression (got : String)
  | invalidAssignmentTarget
  | duplicateDefault
  | tryWithoutHandler
  | invalidClassMember
  | invalidTemplate (reason : TemplateError)
  | tooMany (what : String)
  deriving DecidableEq, Repr

/-- Operands of the wrong kind. The last field is the kind that was met. -/
inductive Mismatch
  | superclass (name got : String)
  | negation (got : String)
  | operands (operator left right : String)
  | propertyRead (name got : String)
  | propertyWrite (name got : String)
  | iteration (got : String)
  | listIndex (shown : String)
  | indexRead (got : String)
  | indexWrite (got : String)
  | argument (function wanted : String) (position : Nat) (got : String)
  | subject (function wanted got : String)
  deriving DecidableEq, Repr

/-- Requests that cannot be met. -/
inductive Refusal
  | staticBlock (name message : String)
  | thisOutsideMethod
  | undefinedProperty (name : String)
  | repetitionTooLarge
  | radix (got : Nat)
  | substringRange (start stop : Float) (length : Nat)
  | invalidJson (reason : String)
  | jsonRoot
  | selfContaining
  | unsupportedCharset (name : String)
  | unknownScheduler (name : String)
  | native (message : String)
  deriving DecidableEq

/-- What can go wrong while a script runs. -/
inductive RuntimeError
  | undefinedVariable (name : String)
  | constantReassignment (name : String)
  | mismatch (reason : Mismatch)
  | divisionByZero
  | notCallable (got : String)
  | wrongArity (name expected : String) (got : Nat)
  | breakOutsideLoop
  | continueOutsideLoop
  | returnOutsideFunction
  | stackOverflow (limit : Nat)
  | indexOutOfBounds (index : Int) (length : Nat)
  | unwritableProperty (name : String)
  | readOnlyProperty (name : String)
  | importNotFound (path : String)
  | host (message : String)
  | thrown (message : String)
  | refused (reason : Refusal)
  deriving DecidableEq

/-- The cause of a fault, by layer. -/
inductive Cause
  | lexical (error : LexicalError)
  | syntactic (error : SyntaxError)
  | runtime (error : RuntimeError)
  | settings (message : String)
  deriving DecidableEq

/-! ### Messages -/

/-- The text in single quotes. -/
def quoted (s : String) : String := "'" ++ s ++ "'"

/-- What a lexical error says. -/
def LexicalError.message : LexicalError → String
  | unexpectedCharacter c => "unexpected character " ++ quoted c.toString
  | unterminatedString => "unterminated string"
  | unterminatedTemplate => "unterminated f-string"
  | unterminatedComment => "unterminated block comment"
  | invalidNumber text => "invalid number " ++ quoted text

/-- What a template error says. -/
def TemplateError.message : TemplateError → String
  | unmatchedBrace => "unmatched '\x7b'"
  | emptyExpression => "empty expression '\x7b\x7d' is not allowed"
  | badExpression code message => "invalid expression '\x7b" ++ code ++ "\x7d': " ++ message

/-- What a syntax error says. -/
def SyntaxError.message : SyntaxError → String
  | expectedToken wanted got => wanted ++ ", got " ++ quoted got
  | expectedExpression got => "expected expression, got " ++ quoted got
  | invalidAssignmentTarget => "invalid assignment target"
  | duplicateDefault => "multiple default cases in switch statement"
  | tryWithoutHandler => "a 'try' statement must have at least a 'catch' or a 'finally' block"
  | invalidClassMember =>
    "only 'fun' declarations and a single 'static' block are allowed in a class body"
  | invalidTemplate reason => "invalid f-string: " ++ reason.message
  | tooMany what => "cannot have more than 255 " ++ what

/-- What a mismatch says. -/
def Mismatch.message : Mismatch → String
  | superclass name got => "superclass of " ++ quoted name ++ " must be a class, got " ++ got
  | negation got => "operand for unary '-' must be a number, got " ++ got
  | operands operator left right =>
    "operands for " ++ quoted operator ++ " must be numbers, got " ++ left ++ " and " ++ right
  | propertyRead name got =>
    "only objects have properties, cannot read " ++ quoted name ++ " of " ++ got
  | propertyWrite name got =>
    "only objects have fields, cannot set " ++ quoted name ++ " on " ++ got
  | iteration got => "can only iterate over lists, strings and objects, got " ++ got
  | listIndex shown => "list index must be an integer, got " ++ shown
  | indexRead got => "cannot index into " ++ got
  | indexWrite got => "cannot assign by index into " ++ got
  | argument function wanted position got =>
    quoted function ++ " expects a " ++ wanted ++ " as argument " ++ toString position ++ ", got "
      ++ got
  | subject function wanted got => quoted function ++ " expects " ++ wanted ++ ", got " ++ got

/-- What a refusal says. -/
def Refusal.message : Refusal → String
  | staticBlock name message =>
    "error executing static block for class " ++ quoted name ++ ": " ++ message
  | thisOutsideMethod => "'this' can only be used inside a method"
  | undefinedProperty name => "undefined property " ++ quoted name
  | repetitionTooLarge => "repetition result is too large"
  | radix got => "'parseInt' radix must be between 2 and 36, got " ++ toString got
  | substringRange start stop length =>
    "substring range [" ++ Number.plain start ++ ", " ++ Number.plain stop
      ++ ") is out of bounds for length " ++ toString length
  | invalidJson reason => "invalid JSON: " ++ reason
  | jsonRoot => "'JSON_parse' expects an object or array at the root"
  | selfContaining => "'JSON_stringify' cannot serialize a value that contains itself"
  | unsupportedCharset name => "unsupported charset " ++ quoted name
  | unknownScheduler name => "no scheduler registered under " ++ quoted name
  | native message => message

/-- What a runtime error says. -/
def RuntimeError.message : RuntimeError → String
  | undefinedVariable name => "undefined variable " ++ quoted name
  | constantReassignment name => "cannot assign to constant " ++ quoted name
  | mismatch reason => reason.message
  | divisionByZero => "division by zero"
  | notCallable got => "can only call functions, methods or classes, got " ++ got
  | wrongArity name expected got =>
    quoted name ++ " expected " ++ expected ++ " arguments, but got " ++ toString got
  | breakOutsideLoop => "'break' is not inside a loop or switch"
  | continueOutsideLoop => "'continue' is not inside a loop"
  | returnOutsideFunction => "'return' is not inside a function"
  | stackOverflow limit => "stack overflow (call depth exceeded " ++ toString limit ++ ")"
  | indexOutOfBounds index length =>
    "index " ++ toString index ++ " out of bounds for length " ++ toString length
  | unwritableProperty name => "property " ++ quoted name ++ " not found or is not writable"
  | readOnlyProperty name => "property " ++ quoted name ++ " is read-only"
  | importNotFound path => "host type " ++ quoted path ++ " is not registered"
  | host message => message
  | thrown message => message
  | refused reason => reason.message

/-- What a cause says. -/
def Cause.message : Cause → String
  | lexical error => error.message
  | syntactic error => error.message
  | runtime error => error.message
  | settings message => "invalid configuration: " ++ message

/-- The layer a cause belongs to, as it is named to the reader. -/
def Cause.layer : Cause → String
  | lexical _ => "lexical"
  | syntactic _ => "syntax"
  | runtime _ | settings _ => "runtime"

/-! ### Faults -/

/-- A cause and its circumstances: the place, the text of the line it stands in, and the message of
the error it was made from. -/
structure Fault where
  cause : Cause
  span : Option Span
  sourceLine : Option String
  reason : Option String
  deriving DecidableEq

namespace Fault

/-- A fault that is not placed yet. -/
def ofCause (cause : Cause) : Fault := ⟨cause, none, none, none⟩

/-- A fault at a place. -/
def placed (cause : Cause) (span : Span) : Fault := ⟨cause, some span, none, none⟩

/-- A runtime fault that is not placed yet. -/
def runtime (error : RuntimeError) : Fault := ofCause (.runtime error)

/-- The message without its place. -/
def message (f : Fault) : String := f.cause.message

/-- The line of the fault, 0 when it is not placed. -/
def line (f : Fault) : Nat := (f.span.map Span.line).getD 0

/-- Places the fault unless it is placed already. -/
def orSpan (f : Fault) (span : Span) : Fault := { f with span := f.span.or (some span) }

/-- Shows the line of `source` that the fault stands in, if there is one. -/
def withSource (f : Fault) (source : String) : Fault :=
  match f.span with
  | some span =>
    if span.line = 0 then f else
      match (Text.lines source)[span.line - 1]? with
      | some line => { f with sourceLine := some line }
      | none => f
  | none => f

/-- The fault as it is shown to a reader. A caret stands under the column of the fault. -/
def render (f : Fault) : String :=
  let headline := f.cause.layer ++ " error: " ++ f.message
  let placedLine := match f.span with
    | none => headline
    | some span =>
      let headline :=
        "[line " ++ toString span.line ++ ":" ++ toString span.column ++ "] " ++ headline
      match f.sourceLine with
      | none => headline
      | some line =>
        headline ++ "\n  | " ++ line ++ "\n  | "
          ++ String.ofList (List.replicate (span.column - 1) ' ') ++ "^"
  match f.reason with
  | none => placedLine
  | some reason => placedLine ++ "\n  caused by: " ++ reason

end Fault

end ScriptEngine
