import LiveMarkup.Json
import LiveMarkup.Decimal.Read
set_option autoImplicit false
-- facts about lengths are used by the termination proofs only
set_option linter.unusedVariables false

/-! # Reading JSON

The grammar is that of the standard. Numbers without fraction and exponent are whole as long as 64
bits hold them; other numbers are floats computed from the first significant digits that 64 bits
hold and a power of ten. Containers may be nested up to a limit. -/

namespace LiveMarkup.Json

open Text

/-- A phrase read from the front of a text, at least one character long. -/
structure Taken (s : List Char) (α : Type) where
  value : α
  rest : List Char
  shorter : rest.length < s.length

def isJsonBlank (c : Char) : Bool := c == ' ' || c == '\t' || c == '\n' || c == '\r'

def skipBlank (s : List Char) : List Char := s.dropWhile isJsonBlank

theorem skipBlank_length_le (s : List Char) : (skipBlank s).length ≤ s.length :=
  (List.dropWhile_sublist isJsonBlank).length_le

/-! ## Numbers -/

/-- The largest number of 64 bits. -/
def wordLimit : Nat := UInt64.size - 1

/-- A power of ten that a float can hold. -/
private def power (n : Nat) : Float := Float.ofScientific 1 false n

/-- `f · 10^exponent`, one division per 308 places. A product beyond the floats is refused. -/
def scale? (f : Float) (exponent : Int) : Option Float :=
  if 0 ≤ exponent then
    if exponent ≤ 308 then
      let x := f * power exponent.toNat
      if x.isInf then none else some x
    else if f == 0 then some f
    else none
  else if -308 ≤ exponent then some (f / power (-exponent).toNat)
  else if f == 0 then some f
  else scale? (f / power 308) (exponent + 308)
termination_by (-exponent).toNat
decreasing_by omega

/-- Reads digits into `significand` while 64 bits hold it; how many were read. -/
def significantDigits : (significand : Nat) → List Char → Nat × Nat
  | n, [] => (n, 0)
  | n, c :: rest =>
    let next := 10 * n + (c.toNat - '0'.toNat)
    if wordLimit < next then (n, 0)
    else
      let (m, count) := significantDigits next rest
      (m, count + 1)

/-- A number as its digits and exponent are written, without the sign. The exponent is absent when
no exponent is written. -/
structure Written where
  whole : List Char
  places : Option (List Char)
  exponent : Option Int

/-- Beyond this an exponent decides alone whether the number is zero or out of range. -/
private def hugeExponent : Int := Int32.maxValue.toInt

/-- The value of a written number. -/
def Written.value? (negative : Bool) (w : Written) : Option Json :=
  let (whole, wholeRead) := significantDigits 0 w.whole
  if wholeRead = w.whole.length && w.places.isNone && w.exponent.isNone then
    if !negative then some (.int whole)
    else if whole = 0 then some (.float (-0.0))
    else if whole ≤ 1 <<< 63 then some (.int (-(whole : Int)))
    else some (.float (-Float.ofNat whole))
  else
    let (significand, placesRead) := significantDigits whole (w.places.getD [])
    let start : Int := (w.whole.length - wholeRead : Nat) - (placesRead : Int)
    let magnitude :=
      match w.exponent with
      | some e =>
        if hugeExponent < e then if significand = 0 then some 0.0 else none
        else if e < -hugeExponent then some 0.0
        else scale? (Float.ofNat significand) (start + e)
      | none => scale? (Float.ofNat significand) start
    magnitude.map fun x => .float (if negative then -x else x)

/-- An exponent, if its mark comes next: a sign may follow and digits must. -/
def exponentPart? (s : List Char) : Option (Option Int × List Char) :=
  match s with
  | c :: rest =>
    if c = 'e' ∨ c = 'E' then
      let signed := Decimal.signRun rest
      let run := Decimal.digitRun signed.2
      if run.1.isEmpty then none
      else
        let n : Int := Decimal.numeral run.1
        some (some (if signed.1 = ['-'] then -n else n), run.2)
    else some (none, s)
  | [] => some (none, [])

/-- Digits after a point, if a point comes next. -/
def placesPart? (s : List Char) : Option (Option (List Char) × List Char) :=
  match s with
  | '.' :: rest =>
    let run := Decimal.digitRun rest
    if run.1.isEmpty then none else some (some run.1, run.2)
  | s => some (none, s)

/-- A number without its sign. A leading zero stands alone. -/
def unsignedNumber? (s : List Char) : Option (Written × List Char) :=
  let run := Decimal.digitRun s
  if run.1.isEmpty || (run.1.head? = some '0' && 1 < run.1.length) then none
  else
    (placesPart? run.2).bind fun (places, rest) =>
      (exponentPart? rest).map fun (exponent, rest') => (⟨run.1, places, exponent⟩, rest')

/-- A number with its sign. -/
def number? (s : List Char) : Option (Json × List Char) :=
  let (negative, body) :=
    match s with
    | '-' :: rest => (true, rest)
    | s => (false, s)
  (unsignedNumber? body).bind fun (w, rest) => (w.value? negative).map (·, rest)

/-! ## Strings -/

/-- The number that four hexadecimal digits denote. -/
def hexFour? (a b c d : Char) : Option Nat := do
  return ((16 * (← hexDigit? a) + (← hexDigit? b)) * 16 + (← hexDigit? c)) * 16 +
    (← hexDigit? d)

/-- The character of a one-letter escape. -/
def simpleEscape? (c : Char) : Option Char :=
  if c = '"' ∨ c = '\\' ∨ c = '/' then some c
  else if c = 'b' then some '\x08'
  else if c = 'f' then some '\x0c'
  else if c = 'n' then some '\n'
  else if c = 'r' then some '\r'
  else if c = 't' then some '\t'
  else none

/-- The inside of a string up to its closing quote, put after `read`, which is in reverse. Half of a
surrogate pair is no character. -/
def stringBody? (read : List Char) (s : List Char) : Option (List Char × List Char) :=
  match s with
  | '"' :: rest => some (read.reverse, rest)
  | '\\' :: 'u' :: a :: b :: c :: d :: rest =>
    match hexFour? a b c d with
    | none => none
    | some n =>
      if 0xD800 ≤ n ∧ n < 0xDC00 then
        match rest with
        | '\\' :: 'u' :: a' :: b' :: c' :: d' :: rest' =>
          match hexFour? a' b' c' d' with
          | none => none
          | some n' =>
            if 0xDC00 ≤ n' ∧ n' < 0xE000 then
              let c := Char.ofNat (0x10000 + (n - 0xD800) * 0x400 + (n' - 0xDC00))
              stringBody? (c :: read) rest'
            else none
        | _ => none
      else if 0xDC00 ≤ n ∧ n < 0xE000 then none
      else stringBody? (Char.ofNat n :: read) rest
  | '\\' :: c :: rest =>
    match simpleEscape? c with
    | none => none
    | some e => stringBody? (e :: read) rest
  | c :: rest => if c.toNat < 0x20 ∨ c = '\\' then none else stringBody? (c :: read) rest
  | [] => none
termination_by s.length
decreasing_by all_goals (simp only [List.length_cons]; omega)

/-! ## Documents -/

/-- What a reader returned, if it took something. -/
def taken? {α : Type} (s : List Char) (result : Option (α × List Char)) :
    Option (Taken s α) :=
  match result with
  | some (value, rest) => if h : rest.length < s.length then some ⟨value, rest, h⟩ else none
  | none => none

/-- The name of a member with the colon after it. -/
def memberName? (s : List Char) : Option (Taken s String) :=
  match skipBlank s with
  | '"' :: rest =>
    (stringBody? [] rest).bind fun (name, afterName) =>
      match skipBlank afterName with
      | ':' :: afterColon => taken? s (some (String.ofList name, afterColon))
      | _ => none
  | _ => none

mutual

/-- One document, after blanks, with at most `depth` containers around one another. -/
def document? (depth : Nat) (s : List Char) : Option (Taken s Json) :=
  have hs := skipBlank_length_le s
  match hb : skipBlank s with
  | 'n' :: 'u' :: 'l' :: 'l' :: rest => taken? s (some (.null, rest))
  | 't' :: 'r' :: 'u' :: 'e' :: rest => taken? s (some (.bool true, rest))
  | 'f' :: 'a' :: 'l' :: 's' :: 'e' :: rest => taken? s (some (.bool false, rest))
  | '"' :: rest => taken? s ((stringBody? [] rest).map fun (t, r) => (.str (String.ofList t), r))
  | '[' :: rest =>
    match depth with
    | 0 => none
    | depth + 1 =>
      match skipBlank rest with
      | ']' :: rest' => taken? s (some (.array [], rest'))
      | _ =>
        (items? depth rest).bind fun items =>
          taken? s (some (.array items.value, items.rest))
  | '{' :: rest =>
    match depth with
    | 0 => none
    | depth + 1 =>
      match skipBlank rest with
      | '}' :: rest' => taken? s (some (.object [], rest'))
      | _ =>
        (members? depth rest).bind fun members =>
          taken? s (some (.object members.value, members.rest))
  | other => taken? s (number? other)
termination_by (s.length, 0)
decreasing_by
  all_goals (rw [hb] at hs; simp only [List.length_cons] at hs; simp [Prod.lex_def]; omega)

/-- One or more documents with commas between them, up to the closing bracket. -/
def items? (depth : Nat) (s : List Char) : Option (Taken s (List Json)) :=
  (document? depth s).bind fun item =>
    have hi := item.shorter
    have hs := skipBlank_length_le item.rest
    match hb : skipBlank item.rest with
    | ']' :: rest => taken? s (some ([item.value], rest))
    | ',' :: rest =>
      (items? depth rest).bind fun more => taken? s (some (item.value :: more.value, more.rest))
    | _ => none
termination_by (s.length, 1)
decreasing_by
  · simp [Prod.lex_def]
  · rw [hb] at hs
    simp only [List.length_cons] at hs
    simp [Prod.lex_def]
    omega

/-- One or more members with commas between them, up to the closing brace. -/
def members? (depth : Nat) (s : List Char) : Option (Taken s (List (String × Json))) :=
  (memberName? s).bind fun name =>
    have hn := name.shorter
    (document? depth name.rest).bind fun value =>
      have hv := value.shorter
      have hs := skipBlank_length_le value.rest
      match hb : skipBlank value.rest with
      | '}' :: rest => taken? s (some ([(name.value, value.value)], rest))
      | ',' :: rest =>
        (members? depth rest).bind fun more =>
          taken? s (some ((name.value, value.value) :: more.value, more.rest))
      | _ => none
termination_by (s.length, 1)
decreasing_by
  · simp [Prod.lex_def]
    omega
  · rw [hb] at hs
    simp only [List.length_cons] at hs
    simp [Prod.lex_def]
    omega

end

/-- The document that a whole text is. -/
def parse? (depth : Nat) (s : String) : Option Json :=
  match document? depth s.toList with
  | some doc => if (skipBlank doc.rest).isEmpty then some doc.value else none
  | none => none

/-- How deep containers may be nested in a document that is read as data. -/
def depthLimit : Nat := 127

end LiveMarkup.Json
