import LiveMarkup.Table
import LiveMarkup.Decimal.Read
import LiveMarkup.Decimal.Layout
set_option autoImplicit false

/-! # Values

The values that templates compute with. Arrays, objects and functions have an identity beside their
contents, which `===` compares: two literals are never the same object, one object used in two
places is. -/

namespace LiveMarkup

/-- The identity of an array, an object or a function: it came with the input, or it was made while
the program ran. -/
inductive Ident where
  | given (n : Nat)
  | made (n : Nat)
  deriving DecidableEq, Repr

/-- What a native function does when it is called. The first argument is null when it is missing. -/
inductive NativeOp where
  /-- Twice the number of the first argument. -/
  | double
  /-- The text of the first argument with its ASCII letters in upper case. -/
  | upper
  /-- The texts of all arguments with bars between them. -/
  | join
  | count
  | fail
  /-- The text of the first argument as markup. -/
  | markup
  /-- A function that adds its first argument to that of this call. -/
  | curry
  | addTo (x : Float)
  | echo
  /-- The value of a key of some state, null without one. -/
  | readState (signal : Option Nat) (key : String)
  /-- Writes the first argument to a key of some state. -/
  | writeState (signal : Option Nat) (key : String)

structure NativeFn where
  ident : Ident
  name : String
  op : NativeOp

inductive Value where
  | null
  | bool (b : Bool)
  | int (n : Int64)
  | float (x : Float)
  | str (s : String)
  | array (ident : Ident) (items : List Value)
  | object (ident : Ident) (fields : List (String × Value))
  /-- Rendered markup, which is not escaped again. -/
  | markup (s : String)
  | function (f : NativeFn)

instance : Inhabited Value := ⟨.null⟩

namespace Value

/-- The name of a value's type in messages. -/
def typeName : Value → String
  | null => "null"
  | bool _ => "boolean"
  | int _ => "number"
  | float _ => "number"
  | str _ => "string"
  | array _ _ => "array"
  | object _ _ => "object"
  | markup _ => "markup"
  | function _ => "function"

/-- The coarser name that declared prop types are compared with. -/
def typeofName : Value → String
  | bool _ => "boolean"
  | int _ => "number"
  | float _ => "number"
  | str _ => "string"
  | function _ => "function"
  | null => "object"
  | array _ _ => "object"
  | object _ _ => "object"
  | markup _ => "object"

def isNull : Value → Bool
  | null => true
  | _ => false

def isTruthy : Value → Bool
  | null => false
  | bool b => b
  | int n => n != 0
  | float x => x != 0 && !x.isNaN
  | str s => s != ""
  | _ => true

/-- The fields of an object; other values have none. -/
def fields : Value → Table Value
  | object _ fields => fields
  | _ => []

/-- The text of a string or of markup. -/
def asText? : Value → Option String
  | str s => some s
  | markup s => some s
  | _ => none

/-- A field of an object. -/
def field? (key : String) (v : Value) : Option Value := Table.get? key v.fields

/-- The number that a value counts as in arithmetic and comparisons. -/
def toNumber : Value → Float
  | null => 0
  | bool b => if b then 1 else 0
  | int n => Float.ofInt n.toInt
  | float x => x
  | str s => Decimal.ofText s
  | _ => 0.0 / 0.0

mutual

/-- The text of a value: what concatenation and escaped output show. -/
def display : Value → String
  | null => "null"
  | bool b => if b then "true" else "false"
  | int n => toString n.toInt
  | float x => Decimal.shown x
  | str s => s
  | array _ items => ",".intercalate (displayItems items)
  | object _ _ => "[object Object]"
  | markup s => s
  | function f => "[function " ++ f.name ++ "]"

/-- The texts of array items; null shows as nothing there. -/
def displayItems : List Value → List String
  | [] => []
  | v :: rest => (if v.isNull then "" else display v) :: displayItems rest

end

/-! ## Equality of contents -/

mutual

/-- Equality by contents: identities of arrays and objects do not count, nor does the order of
fields. Functions are equal when they are the same. -/
def equal : Value → Value → Bool
  | null, null => true
  | bool a, bool b => a == b
  | int a, int b => a == b
  | float a, float b => a == b
  | str a, str b => a == b
  | markup a, markup b => a == b
  | array _ a, array _ b => equalItems a b
  | object _ a, object _ b => a.length == b.length && equalFields a b
  | function f, function g => f.ident = g.ident
  | _, _ => false

def equalItems : List Value → List Value → Bool
  | [], [] => true
  | v :: vs, w :: ws => equal v w && equalItems vs ws
  | _, _ => false

/-- Whether every field of the first list has an equal one in the second. -/
def equalFields : List (String × Value) → Table Value → Bool
  | [], _ => true
  | (key, v) :: rest, t =>
    (match Table.get? key t with
    | some w => equal v w
    | none => false) && equalFields rest t

end

end Value

end LiveMarkup
