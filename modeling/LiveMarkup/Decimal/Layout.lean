import LiveMarkup.Decimal.Shortest
set_option autoImplicit false

/-! # Written floats

The two ways in which floats are written: in full, as templates and messages show them, and as JSON
numbers, which turn to an exponent for very large and very small values. Both write the shortest
decimal that reads back. -/

namespace LiveMarkup.Decimal

/-- Decimal digits of a number. -/
def digitText (n : Nat) : List Char := Nat.toDigits 10 n

/-- Writes a decimal without exponent and without a point that nothing follows. -/
def Digits.positional (d : Digits) : List Char :=
  let text := digitText d.digits
  if 0 ≤ d.exponent then text ++ List.replicate d.exponent.toNat '0'
  else
    let places := (-d.exponent).toNat
    if places < text.length then
      text.take (text.length - places) ++ '.' :: text.drop (text.length - places)
    else '0' :: '.' :: (List.replicate (places - text.length) '0' ++ text)

/-- Writes a decimal with one digit before the point and the sign of the exponent in front of it. -/
def Digits.scientific (d : Digits) : List Char :=
  let text := digitText d.digits
  let exponent := d.exponent + (text.length - 1 : Nat)
  let mantissa := text.take 1 ++ (if text.length ≤ 1 then [] else '.' :: text.drop 1)
  let sign := if exponent < 0 then '-' else '+'
  mantissa ++ 'e' :: sign :: digitText exponent.natAbs

private def signed (x : Float) (text : List Char) : String :=
  String.ofList (if isNegative x then '-' :: text else text)

/-- A float without an exponent, and without a fraction when it is integral; `infinity` is the word
for a magnitude beyond all floats. -/
def inFullWith (infinity : String) (x : Float) : String :=
  if x.isNaN then "NaN"
  else if x.isInf then signed x infinity.toList
  else signed x ((Magnitude.ofFloat x).shortest .up).positional

/-- A float in full, as values show it. -/
def inFull (x : Float) : String := inFullWith "Infinity" x

/-- A float in full, as messages about a template's source show it. -/
def inMessage (x : Float) : String := inFullWith "inf" x

/-- A float as templates show it: an integral value below `10^15` is written as an integer, which
has no negative zero. -/
def shown (x : Float) : String :=
  if x == 0 then "0" else inFull x

/-- A finite float as a JSON number. Positional from `10^-5` on and below `10^16`, then always with
a fraction; other magnitudes have an exponent. -/
def inJson (x : Float) : String :=
  let d := (Magnitude.ofFloat x).shortest .toEven
  let lead := d.exponent + ((digitText d.digits).length - 1 : Nat)
  signed x <|
    if d.digits = 0 then "0.0".toList
    else if -5 ≤ lead ∧ lead < 16 then
      d.positional ++ (if 0 ≤ d.exponent then ".0".toList else [])
    else d.scientific

end LiveMarkup.Decimal
