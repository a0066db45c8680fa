import LiveMarkup.Decimal.Layout
import LiveMarkup.Text.Quoted
set_option autoImplicit false

/-! # JSON documents

Whole numbers are kept apart from floats, and the members of an object keep their order. The written
form is compact: no blanks, and only the escapes that the format demands. -/

namespace LiveMarkup

inductive Json where
  | null
  | bool (b : Bool)
  | int (n : Int)
  | float (x : Float)
  | str (s : String)
  | array (items : List Json)
  | object (members : List (String × Json))
  deriving Inhabited

namespace Json

/-- Four hexadecimal digits of a control character. -/
def hex4 (n : Nat) : String :=
  let digits := Text.hex n
  String.ofList (List.replicate (4 - digits.length) '0') ++ digits

def escapedChar (c : Char) : String :=
  if c = '"' then "\\\""
  else if c = '\\' then "\\\\"
  else if c = '\n' then "\\n"
  else if c = '\r' then "\\r"
  else if c = '\t' then "\\t"
  else if c = '\x08' then "\\b"
  else if c = '\x0c' then "\\f"
  else if c.toNat < 0x20 then "\\u" ++ hex4 c.toNat
  else c.toString

def quote (s : String) : String := "\"" ++ String.join (s.toList.map escapedChar) ++ "\""

mutual

/-- The compact text of a document. -/
def text : Json → String
  | null => "null"
  | bool b => if b then "true" else "false"
  | int n => toString n
  | float x => Decimal.inJson x
  | str s => quote s
  | array items => "[" ++ itemsText items ++ "]"
  | object members => "\x7b" ++ membersText members ++ "\x7d"

def itemsText : List Json → String
  | [] => ""
  | [j] => text j
  | j :: rest => text j ++ "," ++ itemsText rest

def membersText : List (String × Json) → String
  | [] => ""
  | [(key, j)] => quote key ++ ":" ++ text j
  | (key, j) :: rest => quote key ++ ":" ++ text j ++ "," ++ membersText rest

end

/-- The member of an object with a given name; of several, the last. -/
def member? (name : String) : Json → Option Json
  | object members => (members.reverse.find? fun m => m.1 = name).map Prod.snd
  | _ => none

end Json

end LiveMarkup
