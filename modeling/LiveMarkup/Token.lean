import LiveMarkup.Source.Span
import LiveMarkup.Text.Quoted
import LiveMarkup.Decimal.Layout
set_option autoImplicit false

/-! # Tokens

The words of the expression language: keywords, literals, names, operators and punctuation. -/

namespace LiveMarkup

inductive Keyword where
  | nullWord
  | undefinedWord
  | trueWord
  | falseWord
  | inWord
  | letWord
  | constWord
  | varWord
  deriving DecidableEq, Repr

namespace Keyword

def text : Keyword → String
  | nullWord => "null"
  | undefinedWord => "undefined"
  | trueWord => "true"
  | falseWord => "false"
  | inWord => "in"
  | letWord => "let"
  | constWord => "const"
  | varWord => "var"

def all : List Keyword :=
  [nullWord, undefinedWord, trueWord, falseWord, inWord, letWord, constWord, varWord]

end Keyword

inductive Punct where
  | strictEq
  | strictNotEq
  | looseEq
  | looseNotEq
  | ltEq
  | gtEq
  | andAnd
  | orOr
  | coalesce
  | lt
  | gt
  | bang
  | assign
  | plus
  | minus
  | star
  | slash
  | percent
  | question
  | colon
  | dot
  | comma
  | semicolon
  | lparen
  | rparen
  | lbracket
  | rbracket
  | lbrace
  | rbrace
  deriving DecidableEq, Repr

namespace Punct

def text : Punct → String
  | strictEq => "==="
  | strictNotEq => "!=="
  | looseEq => "=="
  | looseNotEq => "!="
  | ltEq => "<="
  | gtEq => ">="
  | andAnd => "&&"
  | orOr => "||"
  | coalesce => "??"
  | lt => "<"
  | gt => ">"
  | bang => "!"
  | assign => "="
  | plus => "+"
  | minus => "-"
  | star => "*"
  | slash => "/"
  | percent => "%"
  | question => "?"
  | colon => ":"
  | dot => "."
  | comma => ","
  | semicolon => ";"
  | lparen => "("
  | rparen => ")"
  | lbracket => "["
  | rbracket => "]"
  | lbrace => "\x7b"
  | rbrace => "\x7d"

/-- Every operator and punctuation mark, none before a longer one. -/
def all : List Punct :=
  [strictEq, strictNotEq, looseEq, looseNotEq, ltEq, gtEq, andAnd, orOr, coalesce, lt, gt, bang,
    assign, plus, minus, star, slash, percent, question, colon, dot, comma, semicolon, lparen,
    rparen, lbracket, rbracket, lbrace, rbrace]

theorem mem_all (p : Punct) : p ∈ all := by cases p <;> decide

end Punct

inductive Token where
  | keyword (k : Keyword)
  | int (n : Int64)
  | float (x : Float)
  | str (s : String)
  | ident (name : String)
  | punct (p : Punct)

namespace Token

/-- The short form of a token in messages. -/
def describe : Token → String
  | keyword k => "`" ++ k.text ++ "`"
  | int n => "number `" ++ toString n.toInt ++ "`"
  | float x => "number `" ++ Decimal.inMessage x ++ "`"
  | str s => "string " ++ Text.quoted s
  | ident name => "identifier `" ++ name ++ "`"
  | punct p => "`" ++ p.text ++ "`"

/-- Whether a token is the given mark. -/
def isPunct (p : Punct) : Token → Bool
  | punct q => p = q
  | _ => false

end Token

/-- A token and where it stands in the template source. -/
structure Lexeme where
  token : Token
  span : Span

end LiveMarkup
