import LiveMarkup.Expr
import LiveMarkup.Expr.Error
import LiveMarkup.Token.Scan
set_option autoImplicit false

/-! # Reading expressions

One function per kind of phrase of the expression grammar, loosest binding first: the conditional,
the binary levels from `??` to `* / %`, prefix operators, postfix forms, and primaries. Every reader
returns what is left of the tokens together with the fact that it took at least one, which is why
reading ends. -/

namespace LiveMarkup

/-- What the readers of one directive share: its line, and the empty span after its last token. -/
structure Site where
  line : Nat
  stop : Span

/-- A phrase read from the front of `ts`, at least one token long. -/
structure Parsed (ts : List Lexeme) (α : Type) where
  value : α
  rest : List Lexeme
  shorter : rest.length < ts.length

/-- A possibly empty continuation read from the front of `ts`. -/
structure Continued (ts : List Lexeme) (α : Type) where
  value : α
  rest : List Lexeme
  le : rest.length ≤ ts.length

namespace Site

/-- The next token, or the end, is not what was expected. -/
def unexpected (site : Site) (expected : String) : List Lexeme → SyntaxError
  | [] => ⟨.unexpectedEnd expected, site.stop, site.line⟩
  | t :: _ => ⟨.unexpectedToken expected t.token.describe, t.span, site.line⟩

/-- The next token is a given mark; its span. -/
def expect (site : Site) (p : Punct) (ts : List Lexeme) : Except SyntaxError (Parsed ts Span) :=
  match ts with
  | t :: rest =>
    if t.token.isPunct p then .ok ⟨t.span, rest, Nat.lt_succ_self _⟩
    else .error (site.unexpected (Token.punct p).describe (t :: rest))
  | [] => .error (site.unexpected (Token.punct p).describe [])

/-- The next token is a name. -/
def expectName (site : Site) (ts : List Lexeme) : Except SyntaxError (Parsed ts String) :=
  match ts with
  | ⟨.ident name, _⟩ :: rest => .ok ⟨name, rest, Nat.lt_succ_self _⟩
  | ts => .error (site.unexpected "identifier" ts)

def expectEnd (site : Site) : List Lexeme → Except SyntaxError Unit
  | [] => .ok ()
  | ts => .error (site.unexpected "end of directive" ts)

end Site

/-- The levels of binary operators, loosest first. -/
inductive Level where
  | coalesce
  | or
  | and
  | equality
  | comparison
  | additive
  | multiplicative
  deriving DecidableEq, Repr

namespace Level

/-- How many levels bind at least as tightly. -/
def rank : Level → Nat
  | coalesce => 7
  | or => 6
  | and => 5
  | equality => 4
  | comparison => 3
  | additive => 2
  | multiplicative => 1

/-- The operator of a level that a mark stands for. -/
def punctOp? : Level → Punct → Option BinaryOp
  | coalesce, .coalesce => some .coalesce
  | or, .orOr => some .or
  | and, .andAnd => some .and
  | equality, .looseEq => some .looseEq
  | equality, .looseNotEq => some .looseNotEq
  | equality, .strictEq => some .strictEq
  | equality, .strictNotEq => some .strictNotEq
  | comparison, .lt => some .lt
  | comparison, .ltEq => some .ltEq
  | comparison, .gt => some .gt
  | comparison, .gtEq => some .gtEq
  | additive, .plus => some .add
  | additive, .minus => some .sub
  | multiplicative, .star => some .mul
  | multiplicative, .slash => some .div
  | multiplicative, .percent => some .mod
  | _, _ => none

def op? (level : Level) : Token → Option BinaryOp
  | .punct p => level.punctOp? p
  | _ => none

end Level

/-- The prefix operator that a token stands for. -/
def UnaryOp.ofToken? : Token → Option UnaryOp
  | .punct .bang => some .not
  | .punct .minus => some .neg
  | .punct .plus => some .plus
  | _ => none

/-- A name after a point, where keywords are names too. -/
def memberName? : Token → Option String
  | .ident name => some name
  | .keyword k => some k.text
  | _ => none

/-- A key of an object literal, and whether it may stand without a value. -/
def objectKey? : Token → Option (String × Bool)
  | .ident name => some (name, true)
  | .str s => some (s, false)
  | .int n => some (toString n.toInt, false)
  | .keyword k => some (k.text, false)
  | _ => none

/-- The node of a token that is a primary by itself. -/
def atom? : Token → Option ExprKind
  | .keyword .nullWord => some .null
  | .keyword .undefinedWord => some .null
  | .keyword .trueWord => some (.bool true)
  | .keyword .falseWord => some (.bool false)
  | .int n => some (.int n)
  | .float x => some (.float x)
  | .str s => some (.str s)
  | .ident name => some (Expr.ofName name)
  | _ => none

namespace Expr

mutual

/-- A whole expression: `c ? a : b`, or what binds tighter. Both arms are whole expressions. -/
def parse (site : Site) (ts : List Lexeme) : Except SyntaxError (Parsed ts Expr) := do
  let condition ← parseBinary site .coalesce ts
  match h : condition.rest with
  | [] => return ⟨condition.value, [], h ▸ condition.shorter⟩
  | t :: rest =>
    have hc : rest.length + 1 < ts.length := by
      have := condition.shorter
      rw [h] at this
      exact this
    if t.token.isPunct .question then
      let consequent ← parse site rest
      have h1 := consequent.shorter
      let colon ← site.expect .colon consequent.rest
      have h2 := colon.shorter
      let otherwise ← parse site colon.rest
      have h3 := otherwise.shorter
      let span := condition.value.span.merge otherwise.value.span
      return ⟨node (.conditional condition.value consequent.value otherwise.value) span,
        otherwise.rest, Nat.lt_trans h3 (Nat.lt_trans h2 (Nat.lt_trans h1 (Nat.lt_of_succ_lt hc)))⟩
    else return ⟨condition.value, t :: rest, hc⟩
termination_by (ts.length, 20)
decreasing_by all_goals simp [Prod.lex_def, Level.rank] <;> omega

/-- An operand of a level, followed by any number of its operators, each with an operand. -/
def parseBinary (site : Site) (level : Level) (ts : List Lexeme) :
    Except SyntaxError (Parsed ts Expr) := do
  let left ← parseOperand site level ts
  have h := left.shorter
  let whole ← continueBinary site level left.value left.rest
  have h' := whole.le
  return ⟨whole.value, whole.rest, Nat.lt_of_le_of_lt h' h⟩
termination_by (ts.length, 2 * level.rank + 3)
decreasing_by all_goals simp [Prod.lex_def, Level.rank] <;> omega

/-- An operand of a level is a phrase of the next tighter one. -/
def parseOperand (site : Site) (level : Level) (ts : List Lexeme) :
    Except SyntaxError (Parsed ts Expr) :=
  match level with
  | .coalesce => parseBinary site .or ts
  | .or => parseBinary site .and ts
  | .and => parseBinary site .equality ts
  | .equality => parseBinary site .comparison ts
  | .comparison => parseBinary site .additive ts
  | .additive => parseBinary site .multiplicative ts
  | .multiplicative => parseUnary site ts
termination_by (ts.length, 2 * level.rank + 2)
decreasing_by all_goals simp [Prod.lex_def, Level.rank]

/-- Operators of one level associate to the left. -/
def continueBinary (site : Site) (level : Level) (left : Expr) (ts : List Lexeme) :
    Except SyntaxError (Continued ts Expr) :=
  match ts with
  | [] => .ok ⟨left, [], Nat.le_refl _⟩
  | t :: rest =>
    match level.op? t.token with
    | none => .ok ⟨left, t :: rest, Nat.le_refl _⟩
    | some op => do
      let right ← parseOperand site level rest
      have h := right.shorter
      let joined := node (.binary op left right.value) (left.span.merge right.value.span)
      let whole ← continueBinary site level joined right.rest
      have h' := whole.le
      return ⟨whole.value, whole.rest, Nat.le_succ_of_le (Nat.le_trans h' (Nat.le_of_lt h))⟩
termination_by (ts.length, 0)
decreasing_by all_goals simp [Prod.lex_def] <;> omega

/-- Prefix operators apply to a prefixed operand. -/
def parseUnary (site : Site) (ts : List Lexeme) : Except SyntaxError (Parsed ts Expr) :=
  match ts with
  | [] => parsePostfix site []
  | t :: rest =>
    match UnaryOp.ofToken? t.token with
    | none => parsePostfix site (t :: rest)
    | some op => do
      let operand ← parseUnary site rest
      have h := operand.shorter
      return ⟨node (.unary op operand.value) (t.span.merge operand.value.span), operand.rest,
        Nat.lt_succ_of_lt h⟩
termination_by (ts.length, 3)
decreasing_by all_goals simp [Prod.lex_def]

/-- A primary and its member accesses, index accesses and calls. -/
def parsePostfix (site : Site) (ts : List Lexeme) : Except SyntaxError (Parsed ts Expr) := do
  let primary ← parsePrimary site ts
  have h := primary.shorter
  let whole ← continuePostfix site primary.value primary.rest
  have h' := whole.le
  return ⟨whole.value, whole.rest, Nat.lt_of_le_of_lt h' h⟩
termination_by (ts.length, 2)
decreasing_by all_goals simp [Prod.lex_def] <;> omega

def continuePostfix (site : Site) (object : Expr) (ts : List Lexeme) :
    Except SyntaxError (Continued ts Expr) :=
  match ts with
  | [] => .ok ⟨object, [], Nat.le_refl _⟩
  | t :: rest =>
    if t.token.isPunct .dot then
      match rest with
      | [] => .error (site.unexpected "property name" [])
      | n :: rest' =>
        match memberName? n.token with
        | none => .error (site.unexpected "property name" (n :: rest'))
        | some field => do
          let access := node (.member object field) (object.span.merge n.span)
          let whole ← continuePostfix site access rest'
          have h := whole.le
          return ⟨whole.value, whole.rest, Nat.le_succ_of_le (Nat.le_succ_of_le h)⟩
    else if t.token.isPunct .lbracket then do
      let index ← parse site rest
      have h1 := index.shorter
      let close ← site.expect .rbracket index.rest
      have h2 := close.shorter
      let access := node (.index object index.value) (object.span.merge close.value)
      let whole ← continuePostfix site access close.rest
      have h3 := whole.le
      return ⟨whole.value, whole.rest,
        Nat.le_succ_of_le (Nat.le_trans h3 (Nat.le_of_lt (Nat.lt_trans h2 h1)))⟩
    else if t.token.isPunct .lparen then do
      let args ← parseItems site .rparen rest
      have h1 := args.shorter
      let call := node (.call object args.value.1) (object.span.merge args.value.2)
      let whole ← continuePostfix site call args.rest
      have h2 := whole.le
      return ⟨whole.value, whole.rest, Nat.le_succ_of_le (Nat.le_trans h2 (Nat.le_of_lt h1))⟩
    else .ok ⟨object, t :: rest, Nat.le_refl _⟩
termination_by (ts.length, 0)
decreasing_by all_goals simp [Prod.lex_def] <;> omega

/-- A group has no node of its own: it widens the span of what it holds. -/
def parsePrimary (site : Site) (ts : List Lexeme) : Except SyntaxError (Parsed ts Expr) :=
  match ts with
  | [] => .error (site.unexpected "expression" [])
  | t :: rest =>
    match atom? t.token with
    | some kind => .ok ⟨node kind t.span, rest, Nat.lt_succ_self _⟩
    | none =>
      if t.token.isPunct .lparen then do
        let inner ← parse site rest
        have h1 := inner.shorter
        let close ← site.expect .rparen inner.rest
        have h2 := close.shorter
        return ⟨node inner.value.kind (t.span.merge close.value), close.rest,
          Nat.lt_succ_of_lt (Nat.lt_trans h2 h1)⟩
      else if t.token.isPunct .lbracket then do
        let items ← parseItems site .rbracket rest
        have h := items.shorter
        return ⟨node (.array items.value.1) (t.span.merge items.value.2), items.rest,
          Nat.lt_succ_of_lt h⟩
      else if t.token.isPunct .lbrace then do
        let entries ← parseEntries site rest
        have h := entries.shorter
        return ⟨node (.object entries.value.1) (t.span.merge entries.value.2), entries.rest,
          Nat.lt_succ_of_lt h⟩
      else .error (site.unexpected "expression" (t :: rest))
termination_by (ts.length, 1)
decreasing_by all_goals simp [Prod.lex_def]

/-- Expressions separated by commas up to a closing mark, whose span is returned too. One comma may
stand before the mark. -/
def parseItems (site : Site) (close : Punct) (ts : List Lexeme) :
    Except SyntaxError (Parsed ts (List Expr × Span)) :=
  match ts with
  | [] => .error (site.unexpected "expression" [])
  | t :: rest =>
    if t.token.isPunct close then .ok ⟨([], t.span), rest, Nat.lt_succ_self _⟩
    else do
      let item ← parse site (t :: rest)
      have h1 := item.shorter
      match h : item.rest with
      | [] => .error (site.unexpected (Token.punct close).describe [])
      | c :: rest' =>
        have h2 : rest'.length + 1 < (t :: rest).length := by
          rw [h] at h1
          exact h1
        if c.token.isPunct .comma then
          let more ← parseItems site close rest'
          have h3 := more.shorter
          return ⟨(item.value :: more.value.1, more.value.2), more.rest,
            Nat.lt_trans h3 (Nat.lt_of_succ_lt h2)⟩
        else
          let close ← site.expect close (c :: rest')
          have h3 := close.shorter
          return ⟨([item.value], close.value), close.rest, Nat.lt_trans h3 h2⟩
termination_by (ts.length, 30)
decreasing_by
  · simp [Prod.lex_def]
  · simp only [List.length_cons] at h2
    simp [Prod.lex_def]
    omega

/-- What stands after a key of an object literal: its value after a colon, or nothing where the key
is a name that stands for itself. -/
def continueEntry (site : Site) (key : String) (shorthand : Bool) (span : Span)
    (ts : List Lexeme) : Except SyntaxError (Continued ts Expr) :=
  match ts with
  | [] =>
    if shorthand then .ok ⟨node (ofName key) span, [], Nat.le_refl _⟩
    else .error (site.unexpected "`:`" [])
  | c :: rest =>
    if c.token.isPunct .colon then do
      let value ← parse site rest
      have h := value.shorter
      return ⟨value.value, value.rest, Nat.le_succ_of_le (Nat.le_of_lt h)⟩
    else if shorthand then .ok ⟨node (ofName key) span, c :: rest, Nat.le_refl _⟩
    else .error (site.unexpected "`:`" (c :: rest))
termination_by (ts.length, 30)
decreasing_by all_goals simp [Prod.lex_def]

/-- The entries of an object literal up to its closing brace. -/
def parseEntries (site : Site) (ts : List Lexeme) :
    Except SyntaxError (Parsed ts (List (String × Expr) × Span)) :=
  match ts with
  | [] => .error (site.unexpected "property name" [])
  | t :: rest =>
    if t.token.isPunct .rbrace then .ok ⟨([], t.span), rest, Nat.lt_succ_self _⟩
    else
      match objectKey? t.token with
      | none => .error (site.unexpected "property name" (t :: rest))
      | some (key, shorthand) => do
        let entry ← continueEntry site key shorthand t.span rest
        have h1 := entry.le
        match h : entry.rest with
        | [] => .error (site.unexpected (Token.punct .rbrace).describe [])
        | c :: rest' =>
          have h2 : rest'.length + 1 ≤ rest.length := by
            rw [h] at h1
            exact h1
          if c.token.isPunct .comma then
            let more ← parseEntries site rest'
            have h3 := more.shorter
            return ⟨((key, entry.value) :: more.value.1, more.value.2), more.rest,
              Nat.lt_succ_of_lt (Nat.lt_trans h3 h2)⟩
          else
            let close ← site.expect .rbrace (c :: rest')
            have h3 := close.shorter
            return ⟨([(key, entry.value)], close.value), close.rest,
              Nat.lt_succ_of_lt (Nat.lt_of_lt_of_le h3 h2)⟩
termination_by (ts.length, 30)
decreasing_by all_goals simp [Prod.lex_def] <;> omega

end

end Expr

end LiveMarkup
