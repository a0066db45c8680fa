import LiveMarkup.Text.Unprintable
set_option autoImplicit false

/-! # Quoted text in messages

Messages show a string literal between double quotes, with a backslash before what would end it and
a spelled-out code point for what would not show. -/

namespace LiveMarkup.Text

/-- Lower-case hexadecimal digits without leading zeros. -/
def hex (n : Nat) : String := String.ofList (Nat.toDigits 16 n)

/-- One character between double quotes; the single quote needs no escape there. -/
def quotedChar (c : Char) : String :=
  if c = '"' then "\\\""
  else if c = '\\' then "\\\\"
  else if c = '\n' then "\\n"
  else if c = '\t' then "\\t"
  else if c = '\r' then "\\r"
  else if c = '\x00' then "\\0"
  else if isPrintable c then c.toString
  else "\\u\x7b" ++ hex c.toNat ++ "\x7d"

def quoted (s : String) : String := "\"" ++ String.join (s.toList.map quotedChar) ++ "\""

end LiveMarkup.Text
