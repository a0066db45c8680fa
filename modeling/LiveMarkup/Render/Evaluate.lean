import LiveMarkup.Render.Call
import LiveMarkup.Render.Environment
import LiveMarkup.Value.Operators
set_option autoImplicit false

/-! # Evaluating expressions

Operands are evaluated from left to right, the right one of a short-circuit operator only when it is
selected. Names are looked up in the scopes and then in the data record. -/

namespace LiveMarkup

/-! ## Reading parts of values -/

namespace Value

def ofLength (n : Nat) : Value := int (Int64.ofNat n)

/-- A property by name. Missing fields and properties of scalars are null, null has none. -/
def member : Value → String → Except EvalError Value
  | object _ fields, name => .ok ((Table.get? name fields).getD null)
  | array _ items, name => .ok (if name = "length" then ofLength items.length else null)
  | str s, name => .ok (if name = "length" then ofLength s.length else null)
  | null, name => .error (.cannotReadProperty name "null")
  | _, _ => .ok null

/-- An item of a list by a whole number; null outside of it. -/
def itemAt {α : Type} (items : List α) (i : Int64) : Option α :=
  if 0 ≤ i.toInt then items[i.toInt.toNat]? else none

/-- An item by index, or a property by the text of the key. -/
def index : Value → Value → Except EvalError Value
  | null, key => .error (.cannotReadProperty key.display "null")
  | array _ items, int i => .ok ((itemAt items i).getD null)
  | str s, int i => .ok (((itemAt s.toList i).map fun c => str c.toString).getD null)
  | v, key => v.member key.display

end Value

/-- The name of a callee in messages. -/
def Expr.calleeName : Expr → String
  | .node (.ident name) _ => name
  | .node (.member object field) _ => calleeName object ++ "." ++ field
  | _ => "expression"

section

variable {σ : Type}

/-- A new identity. -/
def RenderCall.newIdent (c : RenderCall σ) : Run σ Ident := .update c.host.fresh

/-- A name: the scopes first, then the data record. -/
def RenderCall.lookup (c : RenderCall σ) (env : Environment) (name : String) : Run σ Value :=
  match env.lookup? name with
  | some v => pure v
  | none =>
    match c.data.field? name with
    | some v => pure v
    | none => .failed (.undefinedVariable name)

namespace Expr

/-- Whether a short-circuit operator selects its left operand. -/
def keepsLeft (op : BinaryOp) (left : Value) : Bool :=
  match op with
  | .and => !left.isTruthy
  | .or => left.isTruthy
  | .coalesce => !left.isNull
  | _ => false

mutual

/-- The value of an expression. -/
def eval (c : RenderCall σ) (env : Environment) : Expr → Run σ Value
  | node kind _ => evalKind c env kind

def evalKind (c : RenderCall σ) (env : Environment) : ExprKind → Run σ Value
  | .null => pure .null
  | .bool b => pure (.bool b)
  | .int n => pure (.int n)
  | .float x => pure (.float x)
  | .str s => pure (.str s)
  | .array items => do
    let values ← evalAll c env items
    return .array (← c.newIdent) values
  | .object entries => do
    let fields ← evalEntries c env entries
    return .object (← c.newIdent) (Table.ofList fields)
  | .ident name => c.lookup env name
  | .data => pure c.data
  | .instanceKey => pure (c.instanceKey.elim .null .str)
  | .hostProps =>
    match c.hostProps with
    | some props => props
    | none => pure .null
  | .isServer => pure (.bool c.isServer)
  | .member object field => do
    let v ← eval c env object
    Run.ofExcept (v.member field)
  | .index object at_ => do
    let v ← eval c env object
    let key ← eval c env at_
    Run.ofExcept (v.index key)
  | .call callee args => do
    let function ← eval c env callee
    let values ← evalAll c env args
    match function with
    | .function f => c.host.call f values
    | _ => .failed (.notCallable callee.calleeName)
  | .unary op operand => do
    return op.apply (← eval c env operand)
  | .binary op left right => do
    let l ← eval c env left
    if keepsLeft op l then return l
    return op.apply l (← eval c env right)
  | .conditional condition consequent otherwise => do
    if (← eval c env condition).isTruthy then eval c env consequent else eval c env otherwise

def evalAll (c : RenderCall σ) (env : Environment) : List Expr → Run σ (List Value)
  | [] => pure []
  | e :: rest => do
    let v ← eval c env e
    return v :: (← evalAll c env rest)

def evalEntries (c : RenderCall σ) (env : Environment) :
    List (String × Expr) → Run σ (List (String × Value))
  | [] => pure []
  | (key, e) :: rest => do
    let v ← eval c env e
    return (key, v) :: (← evalEntries c env rest)

end

end Expr

end

end LiveMarkup
