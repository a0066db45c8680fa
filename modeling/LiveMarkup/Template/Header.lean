import LiveMarkup.Expr.Parse
import LiveMarkup.Template.Program
set_option autoImplicit false

/-! # Directive contents

The small grammar of each kind of directive. A reader gets the content, its span in the template and
the directive's line, and accepts a content only as a whole. -/

namespace LiveMarkup

open Text

/-- The content of a directive as the scanner delivers it. -/
structure Content where
  text : List Char
  span : Span
  line : Nat

namespace Content

def ofSegment (s : Segment) : Content := ⟨s.content, s.span, s.line⟩

/-- A source that stands on its own, on line 1. -/
def ofSource (source : String) : Content :=
  ⟨source.toList, Span.clamped 0 (byteLength source.toList), 1⟩

def site (c : Content) : Site := ⟨c.line, c.span.afterEnd⟩

def tokens (c : Content) : Except SyntaxError (List Lexeme) :=
  (Token.scan c.text c.span.start).mapError (SyntaxError.ofLex c.line)

def malformed (c : Content) (directive reason : String) : SyntaxError :=
  ⟨.malformed directive reason, c.span, c.line⟩

/-- An expression and nothing else. -/
def expression (c : Content) : Except SyntaxError Expr := do
  let e ← Expr.parse c.site (← c.tokens)
  c.site.expectEnd e.rest
  return e.value

/-- An expression and the parenthesis that closes the header. -/
def closedExpression (c : Content) (ts : List Lexeme) : Except SyntaxError Expr := do
  let e ← Expr.parse c.site ts
  let close ← c.site.expect .rparen e.rest
  c.site.expectEnd close.rest
  return e.value

/-- The rest of `if (condition)`. -/
def condition (c : Content) : Except SyntaxError Expr := do c.closedExpression (← c.tokens)

/-- What follows `else`: nothing, or `if (condition)`. -/
def elseCondition (c : Content) : Except SyntaxError (Option Expr) := do
  if c.text.isEmpty then return none
  match ← c.tokens with
  | ⟨.ident "if", _⟩ :: ⟨.punct .lparen, _⟩ :: ts => some <$> c.closedExpression ts
  | _ => throw (c.malformed "else" "expected nothing or `if (condition)` after `else`")

/-- The rest of `for (value in subject)` or `for (key, value in subject)`. -/
def loopHeader (c : Content) : Except SyntaxError (LoopBinding × Expr) := do
  let first ← c.site.expectName (← c.tokens)
  let (binding, rest) ← (match first.rest with
    | ⟨.punct .comma, _⟩ :: ts => do
      let second ← c.site.expectName ts
      return (⟨some first.value, second.value⟩, second.rest)
    | ts => return (⟨none, first.value⟩, ts) : Except SyntaxError (LoopBinding × List Lexeme))
  match rest with
  | ⟨.keyword .inWord, _⟩ :: ts => return (binding, ← c.closedExpression ts)
  | ts => throw (c.site.unexpected (Token.keyword .inWord).describe ts)

/-- `target(args)` of a block or component call. The target is all before the first parenthesis and
may be a path; no parenthesis, or an empty pair, gives an empty object. -/
def callHeader (c : Content) (directive : String) : Except SyntaxError (String × Expr) := do
  let parts := cut? ['('] c.text
  let target := trim ((parts.map Prod.fst).getD c.text)
  if target.isEmpty || target.any isBlank then
    throw (c.malformed directive "expected a name followed by `(args)`")
  match parts with
  | none => return (String.ofList target, .emptyObject c.span)
  | some (before, inner) =>
    let inside : Span := ⟨c.span.start + byteLength before + 1, c.span.stop⟩
    let ts ← Content.tokens ⟨inner, inside, c.line⟩
    match ts with
    | ⟨.punct .rparen, _⟩ :: rest =>
      c.site.expectEnd rest
      return (String.ofList target, .emptyObject inside)
    | ts => return (String.ofList target, ← c.closedExpression ts)

/-! ## Code splices -/

/-- Whether a token starts a declaration. -/
def isDeclaration : Token → Bool
  | .keyword .letWord => true
  | .keyword .constWord => true
  | .keyword .varWord => true
  | _ => false

/-- One statement: a name, `=` and a value, perhaps after a declaring keyword. -/
def statement (site : Site) (ts : List Lexeme) : Except SyntaxError (Parsed ts Stmt) :=
  match ts with
  | [] => .error (site.unexpected "identifier" [])
  | t :: rest => do
    let declares := isDeclaration t.token
    let ⟨name, afterName, hn⟩ ← (if declares then do
        let ⟨name, r, h⟩ ← site.expectName rest
        return ⟨name, r, Nat.lt_succ_of_lt h⟩
      else site.expectName (t :: rest) : Except SyntaxError (Parsed (t :: rest) String))
    let ⟨_, afterEq, he⟩ ← site.expect .assign afterName
    let ⟨value, r, hv⟩ ← Expr.parse site afterEq
    return ⟨if declares then .declare name value else .assign name value, r,
      Nat.lt_trans hv (Nat.lt_trans he hn)⟩

/-- Statements with a semicolon between one and the next; empty statements do not count. -/
def statementList (site : Site) (ts : List Lexeme) : Except SyntaxError (List Stmt) :=
  match ts with
  | [] => .ok []
  | t :: rest =>
    if t.token.isPunct .semicolon then statementList site rest
    else do
      let ⟨stmt, afterStmt, _⟩ ← statement site (t :: rest)
      if afterStmt.isEmpty then return [stmt]
      else
        let ⟨_, following, _⟩ ← site.expect .semicolon afterStmt
        return stmt :: (← statementList site following)
termination_by ts.length
decreasing_by all_goals (simp only [List.length_cons] at *; omega)

def statements (c : Content) : Except SyntaxError (List Stmt) := do
  statementList c.site (← c.tokens)

end Content

/-- Reads an expression that stands on its own. -/
def Expr.ofSource (source : String) : Except SyntaxError Expr :=
  (Content.ofSource source).expression

/-- Reads statements that stand on their own. -/
def Stmt.listOfSource (source : String) : Except SyntaxError (List Stmt) :=
  (Content.ofSource source).statements

end LiveMarkup
