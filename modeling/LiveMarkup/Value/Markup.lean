import LiveMarkup.Value.Json
set_option autoImplicit false

/-! # Values as markup

Escaping, the two ways in which an interpolation shows a value, and the pairs that a loop visits. -/

namespace LiveMarkup

namespace Text

/-- The five characters that markup gives a meaning. -/
def escapedChar (c : Char) : List Char :=
  if c = '&' then "&amp;".toList
  else if c = '<' then "&lt;".toList
  else if c = '>' then "&gt;".toList
  else if c = '"' then "&quot;".toList
  else if c = '\'' then "&#39;".toList
  else [c]

def escapeMarkup (s : String) : String := String.ofList (s.toList.flatMap escapedChar)

end Text

namespace Value

/-- Unescaped output: containers are JSON, all else is its text. -/
def raw : Value → String
  | array i items => (array i items).jsonText
  | object i fields => (object i fields).jsonText
  | v => v.display

/-- Escaped output: null and false show nothing, markup passes through, containers are escaped
JSON. -/
def safe : Value → String
  | null => ""
  | bool false => ""
  | markup s => s
  | array i items => Text.escapeMarkup (array i items).jsonText
  | object i fields => Text.escapeMarkup (object i fields).jsonText
  | v => Text.escapeMarkup v.display

/-- The pairs a loop visits: index and item of an array, key and value of an object. -/
def loopPairs? : Value → Option (List (Value × Value))
  | array _ items =>
    some (items.zipIdx.map fun (v, i) => (int (Int64.ofNat i), v))
  | object _ fields => some (fields.map fun (key, v) => (str key, v))
  | _ => none

end Value

end LiveMarkup
