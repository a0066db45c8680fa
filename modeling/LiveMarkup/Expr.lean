import LiveMarkup.Source.Span
set_option autoImplicit false

/-! # Expressions

The expression trees of directives. The reserved names of the language have nodes of their own, so
that evaluation never looks them up by name. -/

namespace LiveMarkup

inductive UnaryOp where
  | not
  | neg
  | plus
  deriving DecidableEq, Repr

def UnaryOp.symbol : UnaryOp → String
  | .not => "!"
  | .neg => "-"
  | .plus => "+"

inductive BinaryOp where
  | add
  | sub
  | mul
  | div
  | mod
  | lt
  | ltEq
  | gt
  | gtEq
  | looseEq
  | looseNotEq
  | strictEq
  | strictNotEq
  | and
  | or
  | coalesce
  deriving DecidableEq, Repr

namespace BinaryOp

def symbol : BinaryOp → String
  | add => "+"
  | sub => "-"
  | mul => "*"
  | div => "/"
  | mod => "%"
  | lt => "<"
  | ltEq => "<="
  | gt => ">"
  | gtEq => ">="
  | looseEq => "=="
  | looseNotEq => "!="
  | strictEq => "==="
  | strictNotEq => "!=="
  | and => "&&"
  | or => "||"
  | coalesce => "??"

def all : List BinaryOp :=
  [add, sub, mul, div, mod, lt, ltEq, gt, gtEq, looseEq, looseNotEq, strictEq, strictNotEq, and, or,
    coalesce]

/-- The operators whose right operand is evaluated on demand. -/
def isShortCircuit : BinaryOp → Bool
  | and | or | coalesce => true
  | _ => false

end BinaryOp

mutual

/-- An expression and the part of the source it was read from. -/
inductive Expr where
  | node (kind : ExprKind) (span : Span)

inductive ExprKind where
  /-- Both `null` and `undefined` read as this. -/
  | null
  | bool (b : Bool)
  | int (n : Int64)
  | float (x : Float)
  | str (s : String)
  | array (items : List Expr)
  /-- The entries keep their source order; a key may come twice. -/
  | object (entries : List (String × Expr))
  | ident (name : String)
  /-- The data record itself, `$`. -/
  | data
  /-- The key of the instance being rendered, `$ctxKey`. -/
  | instanceKey
  /-- The props recorded so far in this page, `$pageProps`. -/
  | hostProps
  /-- Whether the page is rendered by the server, `$isServer`. -/
  | isServer
  | member (object : Expr) (field : String)
  | index (object at_ : Expr)
  | call (callee : Expr) (args : List Expr)
  | unary (op : UnaryOp) (operand : Expr)
  | binary (op : BinaryOp) (left right : Expr)
  | conditional (condition consequent otherwise : Expr)

end

namespace Expr

def kind : Expr → ExprKind
  | node k _ => k

def span : Expr → Span
  | node _ s => s

/-- The arguments of a call directive that gives none. -/
def emptyObject (span : Span) : Expr := node (.object []) span

/-- The node of a name: four names are reserved. -/
def ofName (name : String) : ExprKind :=
  if name = "$" then .data
  else if name = "$ctxKey" then .instanceKey
  else if name = "$pageProps" then .hostProps
  else if name = "$isServer" then .isServer
  else .ident name

end Expr

end LiveMarkup
