import LiveMarkup.Directive
set_option autoImplicit false

/-! # Syntax errors -/

namespace LiveMarkup

/-- What is wrong with a template or an expression. -/
inductive SyntaxFault where
  | lex (error : LexError)
  | unexpectedToken (expected found : String)
  | unexpectedEnd (expected : String)
  | unclosedScope (directive : String)
  | unexpectedClose
  | malformed (directive reason : String)
  deriving DecidableEq, Repr

def SyntaxFault.message : SyntaxFault → String
  | .lex error => error.message
  | .unexpectedToken expected found => "unexpected " ++ found ++ ", expected " ++ expected
  | .unexpectedEnd expected => "unexpected end of directive, expected " ++ expected
  | .unclosedScope directive => "unclosed `" ++ directive ++ "` directive"
  | .unexpectedClose => "close directive without an open `if` or `for`"
  | .malformed directive reason => "malformed " ++ directive ++ " directive: " ++ reason

/-- A fault, where it is, and the line of its directive. -/
structure SyntaxError where
  fault : SyntaxFault
  span : Span
  line : Nat
  deriving DecidableEq, Repr

namespace SyntaxError

def ofLex (line : Nat) (error : LexError) : SyntaxError := ⟨.lex error, error.span, line⟩

def message (e : SyntaxError) : String := e.fault.message ++ " (line " ++ toString e.line ++ ")"

end SyntaxError

end LiveMarkup
