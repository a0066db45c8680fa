import LiveMarkup.Client.Error
import LiveMarkup.Template.Header
import LiveMarkup.Render.Evaluate
import LiveMarkup.Text.Blank
set_option autoImplicit false

/-! # Event bindings

The attribute `on` with the name of an event holds the name of a handler, alone or with arguments in
parentheses. The arguments are read as the items of an array and evaluated with the data record of
the instance. -/

namespace LiveMarkup

open Text

structure Binding where
  handler : String
  /-- The text between the parentheses. -/
  arguments : String
  deriving DecidableEq, Repr

namespace Binding

/-- The attribute that binds an event. -/
def attributeName (event : String) : String := "on" ++ event

/-- Whether a text can name a handler. -/
def isName : List Char → Bool
  | [] => false
  | c :: s => !isAsciiDigit c && (c :: s).all isNameChar

/-- Reads a binding; an error says what is wrong with it. -/
def parse (text : String) : Except String Binding := do
  let s := trim text.toList
  let (handler, arguments) ←
    match cut? ['('] s with
    | none => pure (s, [])
    | some (before, inside) =>
      if inside.getLast? = some ')' then pure (trimEnd before, inside.dropLast)
      else throw "missing closing parenthesis"
  if isName handler then return ⟨String.ofList handler, String.ofList arguments⟩
  else throw "handler must be a name"

/-- The binding without the blanks around it. -/
def text (b : Binding) : String := b.handler ++ "(" ++ b.arguments ++ ")"

/-- The arguments as one expression, if there are any. -/
def expression? (b : Binding) : Except SyntaxError (Option Expr) :=
  if (trim b.arguments.toList).isEmpty then .ok none
  else (Expr.ofSource ("[" ++ b.arguments ++ "]")).map some

/-- The arguments that a value stands for. -/
def argumentsOf : Value → List Value
  | .array _ items => items
  | v => [v]

end Binding

end LiveMarkup
