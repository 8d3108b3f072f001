import ScriptEngine.Number.Decimal
import ScriptEngine.Source
/-!
# Tokens

A token is a kind, the span it covers and its lexeme. Words of the language are `Keyword`s, marks
are `Symbol`s; the other kinds carry what they stand for. Comments are tokens too: the parser leaves
them out, since whoever shows a text may want them.

* `Keyword.ofText?` : the reserved words (`lookup_keyword`).
* `Kind.text` : how a token is named in messages.
* `Kind.startsStatement`, `Kind.isAssignment` : what the grammar asks of a token
  (`starts_statement`, `is_assignment_operator`).
-/

namespace ScriptEngine

/-- The reserved words. -/
inductive Keyword
  | kwVar | kwVal | kwFun | kwReturn | kwIf | kwElse | kwWhile | kwFor | kwIn | kwBreak | kwContinue
  | kwSwitch | kwCase | kwDefault | kwClass | kwStatic | kwThis | kwImport | kwTry | kwCatch
  | kwFinally | kwTrue | kwFalse | kwNull
  deriving DecidableEq, Repr

namespace Keyword

/-- How the word is spelt. -/
def text : Keyword → String
  | kwVar => "var"
  | kwVal => "val"
  | kwFun => "fun"
  | kwReturn => "return"
  | kwIf => "if"
  | kwElse => "else"
  | kwWhile => "while"
  | kwFor => "for"
  | kwIn => "in"
  | kwBreak => "break"
  | kwContinue => "continue"
  | kwSwitch => "switch"
  | kwCase => "case"
  | kwDefault => "default"
  | kwClass => "class"
  | kwStatic => "static"
  | kwThis => "this"
  | kwImport => "import"
  | kwTry => "try"
  | kwCatch => "catch"
  | kwFinally => "finally"
  | kwTrue => "true"
  | kwFalse => "false"
  | kwNull => "null"

/-- Every reserved word. -/
def all : List Keyword :=
  [kwVar, kwVal, kwFun, kwReturn, kwIf, kwElse, kwWhile, kwFor, kwIn, kwBreak, kwContinue, kwSwitch,
    kwCase, kwDefault, kwClass, kwStatic, kwThis, kwImport, kwTry, kwCatch, kwFinally, kwTrue,
    kwFalse, kwNull]

/-- The reserved word spelt so. -/
def ofText? (s : String) : Option Keyword := all.find? (·.text == s)

end Keyword

/-- Operators and marks. -/
inductive Symbol
  | plus | minus | star | slash | percent
  | assign | plusAssign | minusAssign | starAssign | slashAssign | percentAssign
  | equal | notEqual | less | lessEqual | greater | greaterEqual
  | and | or | not | arrow
  | leftParen | rightParen | leftBrace | rightBrace | leftBracket | rightBracket
  | comma | semicolon | colon | dot
  deriving DecidableEq, Repr

namespace Symbol

/-- How the mark is written. -/
def text : Symbol → String
  | plus => "+"
  | minus => "-"
  | star => "*"
  | slash => "/"
  | percent => "%"
  | assign => "="
  | plusAssign => "+="
  | minusAssign => "-="
  | starAssign => "*="
  | slashAssign => "/="
  | percentAssign => "%="
  | equal => "=="
  | notEqual => "!="
  | less => "<"
  | lessEqual => "<="
  | greater => ">"
  | greaterEqual => ">="
  | and => "&&"
  | or => "||"
  | not => "!"
  | arrow => "->"
  | leftParen => "("
  | rightParen => ")"
  | leftBrace => "\x7b"
  | rightBrace => "\x7d"
  | leftBracket => "["
  | rightBracket => "]"
  | comma => ","
  | semicolon => ";"
  | colon => ":"
  | dot => "."

end Symbol

/-- What a token is. A template is a string with embedded expressions; its body is kept as
written. -/
inductive Kind
  | number (value : Float)
  | float (value : Float32)
  | string (value : String)
  | template (body : String)
  | ident (name : String)
  | keyword (word : Keyword)
  | symbol (mark : Symbol)
  | comment
  | eof
  deriving DecidableEq

namespace Kind

/-- How a token is named in messages. -/
def text : Kind → String
  | number value => Number.plain value
  | float value => Number.plain32 value ++ "f"
  | string value => "\"" ++ value ++ "\""
  | template body => "f\"" ++ body ++ "\""
  | ident name => name
  | keyword word => word.text
  | symbol mark => mark.text
  | comment => "comment"
  | eof => "EOF"

/-- Whether the token begins a statement. Reading resumes there after a mistake. -/
def startsStatement : Kind → Bool
  | keyword word =>
    [.kwClass, .kwFun, .kwVar, .kwVal, .kwFor, .kwIf, .kwWhile, .kwSwitch, .kwReturn, .kwBreak,
      .kwContinue, .kwTry, .kwImport].contains word
  | _ => false

/-- Whether the token assigns. -/
def isAssignment : Kind → Bool
  | symbol mark => [.assign, .plusAssign, .minusAssign, .starAssign, .slashAssign,
      .percentAssign].contains mark
  | _ => false

end Kind

/-- A token, where it stands, and the text it was read from. -/
structure Token where
  kind : Kind
  span : Span
  lexeme : String
  deriving DecidableEq

end ScriptEngine
