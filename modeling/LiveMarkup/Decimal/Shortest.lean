set_option autoImplicit false

/-! # Shortest decimals

A finite float stands for all reals that round to it. Its shortest decimal is the one with the
fewest digits among them, and of those the nearest to the float itself. Everything here is exact:
a float is `m · 2^q`, and the test on each decimal grid compares natural numbers. -/

namespace LiveMarkup.Decimal

/-- A decimal number `digits · 10^exponent`. -/
structure Digits where
  digits : Nat
  exponent : Int
  deriving DecidableEq, Repr

/-- Which of two equally near decimals of the same length is taken. -/
inductive Tie where
  | up
  | toEven
  deriving DecidableEq, Repr

/-- The magnitude `m · 2^q` of a finite float. `narrowBelow` holds for the powers of two whose lower
neighbour is half as far away as the upper one. -/
structure Magnitude where
  m : Nat
  q : Int
  narrowBelow : Bool
  deriving Repr

/-- Reads significand and exponent off the bits of a finite float. -/
def Magnitude.ofFloat (x : Float) : Magnitude :=
  let bits : Nat := x.toBits.toNat
  let fraction := bits % (1 <<< 52)
  let biased : Nat := (bits >>> 52) % (1 <<< 11)
  if biased = 0 then ⟨fraction, -1074, false⟩
  else ⟨fraction + (1 <<< 52), (biased : Int) - 1075, fraction = 0 && 1 < biased⟩

def isNegative (x : Float) : Bool := 1 <<< 63 ≤ x.toBits.toNat

/-- How many decimal digits a number has; none for zero. -/
def digitCount (n : Nat) : Nat :=
  if h : n = 0 then 0 else digitCount (n / 10) + 1
termination_by n
decreasing_by omega

/-- Removes trailing zeros of the digits. -/
def Digits.reduced (d : Digits) : Digits :=
  if h : d.digits ≠ 0 ∧ d.digits % 10 = 0 then
    Digits.reduced ⟨d.digits / 10, d.exponent + 1⟩
  else d
termination_by d.digits
decreasing_by exact Nat.div_lt_self (Nat.pos_of_ne_zero h.1) (by omega)

/-- A fraction of natural numbers. -/
structure Ratio where
  num : Nat
  den : Nat

/-- `n · 2^q` as a fraction. -/
def Ratio.scaled (n : Nat) (q : Int) : Ratio :=
  if 0 ≤ q then ⟨n <<< q.toNat, 1⟩ else ⟨n, 1 <<< (-q).toNat⟩

/-- A fraction measured in steps of `10^s`. -/
def Ratio.inSteps (r : Ratio) (s : Int) : Ratio :=
  if 0 ≤ s then ⟨r.num, r.den * Nat.pow 10 s.toNat⟩ else ⟨r.num * Nat.pow 10 (-s).toNat, r.den⟩

/-- The exponent of the leading decimal digit of a positive fraction above `10^-400`. -/
def Ratio.leadingExponent (r : Ratio) : Int :=
  (digitCount (r.num * Nat.pow 10 400 / r.den) : Int) - 401

/-- The reals that round to `x`, in quarter units of its last place: from `low` to `high`, ends
included when `closed`. -/
structure Interval where
  low : Nat
  high : Nat
  closed : Bool

def Magnitude.interval (x : Magnitude) : Interval :=
  ⟨4 * x.m - (if x.narrowBelow then 1 else 2), 4 * x.m + 2, x.m % 2 = 0⟩

/-- Whether `d` steps of the grid lie in the interval; `unit` is a quarter unit in grid steps. -/
def Interval.holds (i : Interval) (unit : Ratio) (d : Nat) : Bool :=
  let v := d * unit.den
  if i.closed then i.low * unit.num ≤ v && v ≤ i.high * unit.num
  else i.low * unit.num < v && v < i.high * unit.num

/-- The neighbours of the float on the grid with step `10^s`: the one that lies in its interval, of
two the nearer one. -/
def Magnitude.onGrid? (x : Magnitude) (tie : Tie) (s : Int) : Option Digits :=
  let unit := (Ratio.scaled 1 (x.q - 2)).inSteps s
  let value := 4 * x.m * unit.num
  let below := value / unit.den
  let rest := value % unit.den
  let i := x.interval
  match i.holds unit below, i.holds unit (below + 1) with
  | false, false => none
  | true, false => some ⟨below, s⟩
  | false, true => some ⟨below + 1, s⟩
  | true, true =>
    if 2 * rest < unit.den then some ⟨below, s⟩
    else if unit.den < 2 * rest then some ⟨below + 1, s⟩
    else
      match tie with
      | .up => some ⟨below + 1, s⟩
      | .toEven => some ⟨if below % 2 = 0 then below else below + 1, s⟩

/-- Seventeen digits always suffice, so the search over ever finer grids ends there. -/
def Magnitude.shortest (x : Magnitude) (tie : Tie) : Digits :=
  if x.m = 0 then ⟨0, 0⟩
  else
    let lead := (Ratio.scaled x.m x.q).leadingExponent
    match (List.range 17).findSome? fun n : Nat => x.onGrid? tie (lead - (n : Int)) with
    | some d => d.reduced
    | none => ⟨0, 0⟩

end LiveMarkup.Decimal
