namespace StackMachine

/-- A floating-point number as its bit pattern: sign, eleven bits of exponent, 52 of fraction. -/
structure Binary64 where
  bits : UInt64
deriving DecidableEq, Repr

namespace Binary64

def ofNatBits (n : Nat) : Binary64 := ⟨UInt64.ofNat n⟩

def signBit : Nat := 0x8000000000000000

def hiddenBit : Nat := 0x10000000000000

def isNegative (x : Binary64) : Bool := x.bits.toNat / signBit == 1

def magnitude (x : Binary64) : Nat := x.bits.toNat % signBit

def exponentField (x : Binary64) : Nat := x.magnitude / hiddenBit

def fractionField (x : Binary64) : Nat := x.magnitude % hiddenBit

def isNaN (x : Binary64) : Bool := x.exponentField == 2047 && x.fractionField != 0

def isInfinite (x : Binary64) : Bool := x.exponentField == 2047 && x.fractionField == 0

def isZero (x : Binary64) : Bool := x.magnitude == 0

def significand (x : Binary64) : Nat :=
  if x.exponentField = 0 then x.fractionField else hiddenBit + x.fractionField

/-- The power of two that the significand is counted in, plus 1074: never negative. -/
def scale (x : Binary64) : Nat := x.exponentField - 1

def exponent (x : Binary64) : Int := (x.scale : Int) - 1074

def nan : Binary64 := ⟨0x7ff8000000000000⟩

def withSign (negative : Bool) (magnitude : Nat) : Binary64 :=
  ofNatBits (if negative then signBit + magnitude else magnitude)

/-- The position of a number on the line, the two zeros at one place. What is not a number has
none. -/
def rank? (x : Binary64) : Option Int :=
  if x.isNaN then none
  else some (if x.isNegative then -(x.magnitude : Int) else x.magnitude)

@[inline] def compareRanks (rel : Int → Int → Bool) (x y : Binary64) : Bool :=
  match x.rank?, y.rank? with
  | some a, some b => rel a b
  | _, _ => false

def equal (x y : Binary64) : Bool := compareRanks (fun a b => a == b) x y

def less (x y : Binary64) : Bool := compareRanks (fun a b => decide (a < b)) x y

def atMost (x y : Binary64) : Bool := compareRanks (fun a b => decide (a ≤ b)) x y

def neg (x : Binary64) : Binary64 := ⟨x.bits ^^^ 0x8000000000000000⟩

def add (x y : Binary64) : Binary64 := ⟨(Float.ofBits x.bits + Float.ofBits y.bits).toBits⟩

def sub (x y : Binary64) : Binary64 := ⟨(Float.ofBits x.bits - Float.ofBits y.bits).toBits⟩

def mul (x y : Binary64) : Binary64 := ⟨(Float.ofBits x.bits * Float.ofBits y.bits).toBits⟩

def div (x y : Binary64) : Binary64 := ⟨(Float.ofBits x.bits / Float.ofBits y.bits).toBits⟩

def roundShift (n k : Nat) : Nat :=
  let unit := Nat.pow 2 k
  let quotient := n / unit
  let excess := 2 * (n % unit)
  if unit < excess ∨ (excess = unit ∧ quotient % 2 = 1) then quotient + 1 else quotient

/-- The magnitude pattern of the number nearest to `n * 2 ^ scale / 2 ^ 1074`, a tie to the even
one. A carry out of the fraction moves into the exponent by itself. -/
def roundMagnitude (n scale : Nat) : Nat :=
  let top := n.log2 + scale
  if n = 0 then 0
  else if top < 53 then n * Nat.pow 2 scale
  else if n.log2 ≤ 52 then (top - 52) * hiddenBit + n * Nat.pow 2 (52 - n.log2)
  else (top - 52) * hiddenBit + roundShift n (n.log2 - 52)

def ofInt (z : Int) : Binary64 := withSign (decide (z < 0)) (roundMagnitude z.natAbs 1074)

def ofInt64 (n : Int64) : Binary64 := ofInt n.toInt

def truncate (x : Binary64) : Nat :=
  if 1074 ≤ x.scale then x.significand * Nat.pow 2 (x.scale - 1074)
  else x.significand / Nat.pow 2 (1074 - x.scale)

def toInt64 (x : Binary64) : Int64 :=
  if x.isNaN then 0
  else if x.isNegative then Int64.ofInt (max (-(x.truncate : Int)) (-(signBit : Int)))
  else Int64.ofInt (min (x.truncate : Int) (signBit - 1))

def rem (x y : Binary64) : Binary64 :=
  if x.isNaN || y.isNaN || x.isInfinite || y.isZero then nan
  else if y.isInfinite then x
  else
    let scale := min x.scale y.scale
    let rest := x.significand * Nat.pow 2 (x.scale - scale) %
      (y.significand * Nat.pow 2 (y.scale - scale))
    withSign x.isNegative (roundMagnitude rest scale)

end Binary64

end StackMachine
