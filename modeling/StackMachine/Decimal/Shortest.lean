import StackMachine.Binary64

namespace StackMachine

/-- The number `0.d₁d₂… * 10 ^ point`. -/
structure Decimal where
  digits : List Char
  point : Int
deriving DecidableEq, Repr

namespace Decimal

/-- The reals that round to one number, as fractions over a common denominator: from `low` to
`high` around `value`, the ends included when `closed`. -/
structure Interval where
  low : Nat
  value : Nat
  high : Nat
  denominator : Nat
  closed : Bool
deriving Repr

/-- The interval of a finite number. It ends halfway to the two neighbours, and belongs to an even
significand at its ends. Below a power of two the neighbour is half as far away. -/
def Interval.of (x : Binary64) : Interval :=
  let m := x.significand
  let below := if x.fractionField = 0 ∧ 1 < x.exponentField then 1 else 2
  let factor := Nat.pow 2 (x.scale - 1074)
  { low := (4 * m - below) * factor
    value := 4 * m * factor
    high := (4 * m + 2) * factor
    denominator := 4 * Nat.pow 2 (1074 - x.scale)
    closed := m % 2 == 0 }

def Interval.contains (i : Interval) (n d : Nat) : Bool :=
  let a := i.low * d
  let b := n * i.denominator
  let c := i.high * d
  if i.closed then decide (a ≤ b) && decide (b ≤ c) else decide (a < b) && decide (b < c)

def Interval.magnitude (i : Interval) : Int :=
  if i.denominator ≤ i.value then (Nat.toDigits 10 (i.value / i.denominator)).length
  else 1 - ((Nat.toDigits 10 ((i.denominator - 1) / i.value)).length : Int)

def fraction (n : Nat) (e : Int) : Nat × Nat :=
  (n * Nat.pow 10 e.toNat, Nat.pow 10 (-e).toNat)

/-- Of the two neighbours of the value among the multiples of `10 ^ e`, the one that reads back; of
two, the nearer, and of two equally near the greater. -/
def Interval.nearest? (i : Interval) (e : Int) : Option Nat :=
  let (unit, per) := fraction 1 e
  let n := i.value * per / (i.denominator * unit)
  let reads (k : Nat) : Bool := i.contains (k * unit) per
  match reads n, reads (n + 1) with
  | true, true =>
    if (2 * n + 1) * unit * i.denominator ≤ 2 * i.value * per then some (n + 1) else some n
  | true, false => some n
  | false, true => some (n + 1)
  | false, false => none

def ofScaled (n : Nat) (e : Int) : Decimal :=
  let digits := Nat.toDigits 10 n
  ⟨(digits.reverse.dropWhile (· == '0')).reverse, digits.length + e⟩

def exact (x : Binary64) : Decimal :=
  if 1074 ≤ x.scale then ofScaled (x.significand * Nat.pow 2 (x.scale - 1074)) 0
  else ofScaled (x.significand * Nat.pow 5 (1074 - x.scale)) x.exponent

def shortest (x : Binary64) : Decimal :=
  if x.isZero then ⟨['0'], 1⟩
  else
    let i := Interval.of x
    let k := i.magnitude
    let found := (List.range 17).findSome? fun (n : Nat) =>
      let e := k - 1 - (n : Int)
      (i.nearest? e).map (ofScaled · e)
    found.getD (exact x)

end Decimal

end StackMachine
