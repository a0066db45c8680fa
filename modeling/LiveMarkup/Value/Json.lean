import LiveMarkup.Value
import LiveMarkup.Value.Operators
import LiveMarkup.Json
import LiveMarkup.Text.Search
set_option autoImplicit false

/-! # Values and JSON

Values are written as JSON when containers are shown and when a page hands its props to the client.
Functions and numbers that are not finite have no JSON form: they become null, or leave their object
in the case of functions. -/

namespace LiveMarkup.Value

def isFunction : Value → Bool
  | function _ => true
  | _ => false

mutual

def toJson : Value → Json
  | null => .null
  | function _ => .null
  | bool b => .bool b
  | int n => .int n.toInt
  | float x => if x.isNaN || x.isInf then .null else .float x
  | str s => .str s
  | markup s => .str s
  | array _ items => .array (itemsToJson items)
  | object _ fields => .object (fieldsToJson fields)

def itemsToJson : List Value → List Json
  | [] => []
  | v :: rest => toJson v :: itemsToJson rest

def fieldsToJson : List (String × Value) → List (String × Json)
  | [] => []
  | (key, v) :: rest =>
    if v.isFunction then fieldsToJson rest else (key, toJson v) :: fieldsToJson rest

end

/-- The compact JSON text of a value. -/
def jsonText (v : Value) : String := v.toJson.text

/-- A number that JSON wrote without a fraction: whole if 64 signed bits hold it. -/
def ofWhole (n : Int) : Value :=
  match wordOf? n with
  | some word => int word
  | none => float (Float.ofInt n)

mutual

/-- The value of a document. Every container gets the next identity; of a repeated member name the
first place and the last value count. -/
def ofJson (ident : Nat → Ident) (next : Nat) : Json → Value × Nat
  | .null => (null, next)
  | .bool b => (bool b, next)
  | .int n => (ofWhole n, next)
  | .float x => (float x, next)
  | .str s => (str s, next)
  | .array items =>
    let (values, n) := itemsOfJson ident (next + 1) items
    (array (ident next) values, n)
  | .object members =>
    let (fields, n) := fieldsOfJson ident (next + 1) members
    (object (ident next) (Table.ofList fields), n)

def itemsOfJson (ident : Nat → Ident) (next : Nat) : List Json → List Value × Nat
  | [] => ([], next)
  | j :: rest =>
    let (v, n) := ofJson ident next j
    let (vs, n') := itemsOfJson ident n rest
    (v :: vs, n')

def fieldsOfJson (ident : Nat → Ident) (next : Nat) :
    List (String × Json) → List (String × Value) × Nat
  | [] => ([], next)
  | (key, j) :: rest =>
    let (v, n) := ofJson ident next j
    let (vs, n') := fieldsOfJson ident n rest
    ((key, v) :: vs, n')

end

/-! ## JSON inside a script -/

/-- The characters that could end a script early are spelled out. -/
def scriptSafeChar (c : Char) : List Char :=
  if c = '<' then "\\u003c".toList
  else if c = '>' then "\\u003e".toList
  else if c = '/' then "\\u002f".toList
  else [c]

/-- The JSON text of a value in a form that may stand inside a script element. -/
def scriptText (v : Value) : String := String.ofList (v.jsonText.toList.flatMap scriptSafeChar)

end LiveMarkup.Value
