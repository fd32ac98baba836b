import LinkQuality.Decimal.Binary64

/-!
# The shortest decimal that reads back

Among the decimals that round to a given double, the ones with the fewest digits, and of those
the nearest. The search runs over the grids of 1, 2, … 17 digits: on each it looks at the
value's two neighbours, and the first grid with a neighbour inside the interval of reals that
round to the double wins. All of it is exact arithmetic on naturals; seventeen digits always
suffice.
-/

namespace LinkQuality

/-- A positive decimal, `digits * 10 ^ exponent`. -/
structure Decimal where
  digits : Nat
  exponent : Int
  deriving DecidableEq, Repr

/-- Which of two equally near decimals is taken. -/
inductive Tie where
  | even
  | up
  deriving DecidableEq, Repr

namespace Decimal

/-- The decimal digits of a number, most significant first. -/
def digitsOf (n : Nat) : List Char := Nat.toDigits 10 n

/-- Number of decimal digits; zero has one. -/
def digitCount (n : Nat) : Nat := (digitsOf n).length

/-- The largest `e` with `10 ^ e ≤ num / den`, for a positive quotient. Below one, the number
of digits of `⌈den / num⌉ - 1` is the number of places the value has to be shifted. -/
def magnitude (num den : Nat) : Int :=
  if den ≤ num then (digitCount (num / den) : Int) - 1
  else -(digitCount ((den + num - 1) / num - 1) : Int)

/-- **The reals that round to a double**, as numerators over one denominator. The gap below a
power of two is half the gap above it, except at the bottom of the exponent range, and the ends
belong to the interval just when the significand is even. -/
structure Rounding where
  low : Nat
  value : Nat
  high : Nat
  den : Nat
  closed : Bool
  deriving Repr

/-- The interval of a positive magnitude. -/
def Rounding.of (b : Binary) : Rounding :=
  let (num, den) := (Binary.quotient ⟨1, b.exponent⟩)
  let isLowest := b.significand = Nat.pow 2 Binary64.fractionWidth ∧ b.exponent ≠ -1074
  let below := if isLowest then 1 else 2
  { low := (4 * b.significand - below) * num
    value := 4 * b.significand * num
    high := (4 * b.significand + 2) * num
    den := 4 * den
    closed := b.significand % 2 = 0 }

/-- The interval measured in units of `10 ^ p`. -/
def Rounding.inUnits (r : Rounding) (p : Int) : Rounding :=
  match p with
  | .ofNat p => { r with den := r.den * Nat.pow 10 p }
  | .negSucc p =>
    let s := Nat.pow 10 (p + 1)
    { r with low := r.low * s, value := r.value * s, high := r.high * s }

/-- Does `n` units round to the double? -/
def Rounding.admits (r : Rounding) (n : Nat) : Bool :=
  if r.closed then r.low ≤ n * r.den && n * r.den ≤ r.high
  else r.low < n * r.den && n * r.den < r.high

/-- The admitted neighbour of the value on its grid, the nearer one if both are admitted. -/
def Rounding.neighbour (r : Rounding) (tie : Tie) : Option Nat :=
  let n := r.value / r.den
  match r.admits n, r.admits (n + 1) with
  | true, false => some n
  | false, true => some (n + 1)
  | false, false => none
  | true, true =>
    let below := r.value - n * r.den
    let above := (n + 1) * r.den - r.value
    if below < above then some n
    else if above < below then some (n + 1)
    else match tie with
      | .up => some (n + 1)
      | .even => if n % 2 = 0 then some n else some (n + 1)

/-- The same decimal with its digits ending in no zero. Only the upper neighbour of a one-digit
grid, ten units, can end in one. -/
def trimTen (d : Decimal) : Decimal :=
  if d.digits = 10 then ⟨1, d.exponent + 1⟩ else d

/-- Tries the grids from `count` digits on, `left` of them. -/
def searchGrids (r : Rounding) (tie : Tie) (top : Int) (count : Nat) : Nat → Option Decimal
  | 0 => none
  | left + 1 =>
    let p := top - count + 1
    match (r.inUnits p).neighbour tie with
    | some n => some (trimTen ⟨n, p⟩)
    | none => searchGrids r tie top (count + 1) left

/-- **The shortest decimal of a positive magnitude.** The last resort is never reached: on the
grid of seventeen digits one neighbour is always admitted. -/
def shortest (tie : Tie) (b : Binary) : Decimal :=
  let (num, den) := b.quotient
  let top := magnitude num den
  (searchGrids (Rounding.of b) tie top 1 17).getD ⟨b.significand, 0⟩

end Decimal

end LinkQuality
