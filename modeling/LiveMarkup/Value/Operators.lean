import LiveMarkup.Value
import LiveMarkup.Expr
set_option autoImplicit false

/-! # Operators

The loose typing of script expressions: `+` joins texts when either side is textual, arithmetic
counts other values as numbers, whole numbers stay whole until they overflow or are divided. -/

namespace LiveMarkup

/-! ## Remainders of floats -/

namespace Decimal

/-- The remainder of a truncated division, computed exactly. It has the sign of the dividend. -/
def remainder (x y : Float) : Float :=
  if x.isNaN || y.isNaN || x.isInf || y == 0 then 0.0 / 0.0
  else if y.isInf || x == 0 then x
  else
    let a := Magnitude.ofFloat x
    let b := Magnitude.ofFloat y
    let q := min a.q b.q
    let r := (a.m <<< (a.q - q).toNat) % (b.m <<< (b.q - q).toNat)
    let size := (Float.ofNat r).scaleB q
    if isNegative x then -size else size

end Decimal

namespace Value

/-- A whole number if 64 bits hold it. -/
def wordOf? (n : Int) : Option Int64 :=
  if Int64.minValue.toInt ≤ n ∧ n ≤ Int64.maxValue.toInt then some (Int64.ofInt n) else none

/-- The whole number that an operand of arithmetic stands for. -/
def asWord? : Value → Option Int64
  | int n => some n
  | bool b => some (if b then 1 else 0)
  | null => some 0
  | _ => none

/-- Whole arithmetic where both sides are whole and the result fits; else float arithmetic. -/
def arithmetic (whole : Int → Int → Option Int) (real : Float → Float → Float) (l r : Value) :
    Value :=
  match asWord? l, asWord? r with
  | some a, some b =>
    match (whole a.toInt b.toInt).bind wordOf? with
    | some n => int n
    | none => float (real l.toNumber r.toNumber)
  | _, _ => float (real l.toNumber r.toNumber)

/-- Values whose presence makes `+` a concatenation. -/
def isTextual : Value → Bool
  | str _ | markup _ | array _ _ | object _ _ | function _ => true
  | _ => false

def add (l r : Value) : Value :=
  if isTextual l || isTextual r then str (l.display ++ r.display)
  else arithmetic (fun a b => some (a + b)) (· + ·) l r

/-- The remainder of whole numbers has the sign of the dividend; there is none for a zero divisor,
nor for the one quotient that does not fit. -/
def wholeRemainder (a b : Int) : Option Int :=
  if b = 0 ∨ (b = -1 ∧ a = Int64.minValue.toInt) then none else some (a.tmod b)

/-! ## Comparison -/

/-- The order of two floats, if they have one. -/
def compareFloats? (x y : Float) : Option Ordering :=
  if x < y then some .lt else if x == y then some .eq else if y < x then some .gt else none

/-- The order of two values: whole numbers and strings among themselves, others as numbers. -/
def compare? : Value → Value → Option Ordering
  | int a, int b => some (compare a.toInt b.toInt)
  | str a, str b => some (compare a b)
  | l, r => compareFloats? l.toNumber r.toNumber

def isNumeric : Value → Bool
  | int _ | float _ => true
  | _ => false

/-- `===`: same type and same value; arrays, objects and functions are compared by identity. -/
def strictEqual : Value → Value → Bool
  | null, null => true
  | bool a, bool b => a == b
  | int a, int b => a == b
  | str a, str b => a == b
  | markup a, markup b => a == b
  | array a _, array b _ => a = b
  | object a _, object b _ => a = b
  | function f, function g => f.ident = g.ident
  | l, r => isNumeric l && isNumeric r && l.toNumber == r.toNumber

/-- The values that `==` compares as numbers when their types differ. -/
def isLooseScalar : Value → Bool
  | int _ | float _ | bool _ | str _ => true
  | _ => false

/-- `==`: null equals only null, and numbers, booleans and strings of numbers compare as numbers. -/
def looseEqual : Value → Value → Bool
  | null, null => true
  | null, _ => false
  | _, null => false
  | str a, str b => a == b
  | l, r =>
    if isLooseScalar l && isLooseScalar r then l.toNumber == r.toNumber else strictEqual l r

end Value

/-! ## Operators on evaluated operands -/

/-- A binary operator. The short-circuit ones select one of their operands. -/
def BinaryOp.apply (op : BinaryOp) (l r : Value) : Value :=
  match op with
  | .add => l.add r
  | .sub => Value.arithmetic (fun a b => some (a - b)) (· - ·) l r
  | .mul => Value.arithmetic (fun a b => some (a * b)) (· * ·) l r
  | .div => .float (l.toNumber / r.toNumber)
  | .mod => Value.arithmetic Value.wholeRemainder Decimal.remainder l r
  | .lt => .bool (l.compare? r = some .lt)
  | .ltEq => .bool (l.compare? r = some .lt || l.compare? r = some .eq)
  | .gt => .bool (l.compare? r = some .gt)
  | .gtEq => .bool (l.compare? r = some .gt || l.compare? r = some .eq)
  | .looseEq => .bool (l.looseEqual r)
  | .looseNotEq => .bool (!l.looseEqual r)
  | .strictEq => .bool (l.strictEqual r)
  | .strictNotEq => .bool (!l.strictEqual r)
  | .and => if l.isTruthy then r else l
  | .or => if l.isTruthy then l else r
  | .coalesce => if l.isNull then r else l

def UnaryOp.apply (op : UnaryOp) (v : Value) : Value :=
  match op, v with
  | .not, v => .bool (!v.isTruthy)
  | .neg, .int n =>
    match Value.wordOf? (-n.toInt) with
    | some m => .int m
    | none => .float (-v.toNumber)
  | .neg, v => .float (-v.toNumber)
  | .plus, .int n => .int n
  | .plus, v => .float v.toNumber

end LiveMarkup
