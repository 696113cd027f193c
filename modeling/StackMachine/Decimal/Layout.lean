import StackMachine.Decimal.Shortest

namespace StackMachine

namespace Decimal

structure Style where
  /-- Whether a number whose leading digit counts `10 ^ e` is written positionally. -/
  positional : Int → Bool
  /-- Whether an integral number written positionally ends in `.0`. -/
  pointZero : Bool

def zeros (n : Nat) : List Char := List.replicate n '0'

def positionalText (pointZero : Bool) (d : Decimal) : List Char :=
  if d.point ≤ 0 then '0' :: '.' :: (zeros (-d.point).toNat ++ d.digits)
  else if d.point < d.digits.length then
    d.digits.take d.point.toNat ++ '.' :: d.digits.drop d.point.toNat
  else
    d.digits ++ zeros (d.point.toNat - d.digits.length) ++ (if pointZero then ['.', '0'] else [])

def exponentText (d : Decimal) : List Char :=
  let fraction := d.digits.drop 1
  d.digits.take 1 ++ (if fraction.isEmpty then [] else '.' :: fraction) ++
    'e' :: (Int.repr (d.point - 1)).toList

def Style.layout (style : Style) (d : Decimal) : List Char :=
  if style.positional (d.point - 1) then positionalText style.pointZero d else exponentText d

end Decimal

namespace Binary64

def text (style : Decimal.Style) (x : Binary64) : String :=
  if x.isNaN then "NaN"
  else
    let sign := if x.isNegative then ['-'] else []
    let body := if x.isInfinite then ['i', 'n', 'f'] else style.layout (Decimal.shortest x)
    String.ofList (sign ++ body)

end Binary64

end StackMachine
