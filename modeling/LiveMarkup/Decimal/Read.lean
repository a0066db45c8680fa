import LiveMarkup.Decimal.Shortest
import LiveMarkup.Text.Search
import LiveMarkup.Text.Blank
set_option autoImplicit false

/-! # Reading decimals

A decimal number has an optional sign, digits with an optional point among or around them, and an
optional exponent; infinity and not-a-number are spelled out in any case. It denotes the nearest
float. -/

namespace LiveMarkup.Decimal

open Text

/-- The number that a list of decimal digits denotes. -/
def numeral (digits : List Char) : Nat :=
  digits.foldl (fun n c => 10 * n + (c.toNat - '0'.toNat)) 0

/-- The float nearest to `m · 10^e`. Far outside the range of floats the power of ten is not
computed. -/
def nearest (m : Nat) (e : Int) : Float :=
  if m = 0 then 0.0
  else
    let lead := e + digitCount m
    if 400 < lead then 1.0 / 0.0
    else if lead < -400 then 0.0
    else if 0 ≤ e then Float.ofScientific m false e.toNat
    else Float.ofScientific m true (-e).toNat

/-- Digits at the start of a text, and the rest. -/
def digitRun (s : List Char) : List Char × List Char :=
  (s.takeWhile isAsciiDigit, s.dropWhile isAsciiDigit)

theorem digitRun_length_le (s : List Char) : (digitRun s).2.length ≤ s.length :=
  (List.dropWhile_sublist isAsciiDigit).length_le

/-- An optional sign at the start of a text, and the rest. -/
def signRun : List Char → List Char × List Char
  | '+' :: rest => (['+'], rest)
  | '-' :: rest => (['-'], rest)
  | rest => ([], rest)

theorem signRun_length_le (s : List Char) : (signRun s).2.length ≤ s.length := by
  unfold signRun
  split <;> simp

/-- An exponent that takes up all of a text: nothing, or a mark, an optional sign and digits. -/
def exponent? (s : List Char) : Option Int :=
  match s with
  | [] => some 0
  | c :: rest =>
    if c = 'e' ∨ c = 'E' then
      let signed := signRun rest
      let run := digitRun signed.2
      if run.1.isEmpty || !run.2.isEmpty then none
      else
        let n : Int := numeral run.1
        some (if signed.1 = ['-'] then -n else n)
    else none

/-- A number without its sign. -/
def unsigned? (s : List Char) : Option Float :=
  let lower := s.map Char.toLower
  if lower = "inf".toList ∨ lower = "infinity".toList then some (1.0 / 0.0)
  else if lower = "nan".toList then some (0.0 / 0.0)
  else
    let (whole, rest) := digitRun s
    let (places, rest) :=
      match rest with
      | '.' :: r => digitRun r
      | r => ([], r)
    if whole.isEmpty && places.isEmpty then none
    else
      (exponent? rest).map fun e => nearest (numeral (whole ++ places)) (e - places.length)

/-- The float that a whole text denotes. -/
def read? (s : List Char) : Option Float :=
  match s with
  | '-' :: rest => (unsigned? rest).map fun x => -x
  | '+' :: rest => unsigned? rest
  | _ => unsigned? s

/-- The number that a string counts as: blank is zero, and what is no number is not-a-number. -/
def ofText (s : String) : Float :=
  let body := trim s.toList
  if body.isEmpty then 0.0 else (read? body).getD (0.0 / 0.0)

end LiveMarkup.Decimal
