import StackMachine.Toml.Text

namespace StackMachine.Toml

/-- The digits that follow a first one, and the rest. A single underscore may stand between two
digits. -/
def moreDigits (isDigit : Char → Bool) : List Char → List Char × List Char
  | '_' :: c :: rest =>
    if isDigit c then prepend c (moreDigits isDigit rest) else ([], '_' :: c :: rest)
  | c :: rest => if isDigit c then prepend c (moreDigits isDigit rest) else ([], c :: rest)
  | [] => ([], [])

def digits (isDigit : Char → Bool) : Reader (List Char)
  | c :: rest => if isDigit c then some (prepend c (moreDigits isDigit rest)) else none
  | [] => none

def sign : List Char → Bool × List Char
  | '+' :: rest => (false, rest)
  | '-' :: rest => (true, rest)
  | cs => (false, cs)

def plainDigits : Reader (List Char)
  | '0' :: rest => some (['0'], rest)
  | cs => digits Char.isDigit cs

def isBinaryDigit (c : Char) : Bool := c == '0' || c == '1'

def isOctalDigit (c : Char) : Bool := decide ('0' ≤ c) && decide (c ≤ '7')

def isHexDigit (c : Char) : Bool := (hexDigit? c).isSome

def inRange (z : Int) : Option Int :=
  if -0x8000000000000000 ≤ z ∧ z < 0x8000000000000000 then some z else none

def decimalInteger : Reader Int := fun cs =>
  let (negative, cs) := sign cs
  (plainDigits cs).bind fun (ds, rest) =>
    let n : Int := Nat.ofDigitChars 10 ds 0
    (inRange (if negative then -n else n)).map (·, rest)

def integer : Reader Int
  | '0' :: 'x' :: rest =>
    (digits isHexDigit rest).bind fun (ds, rest) =>
      (ofHexDigits? ds).bind fun n => (inRange n).map (·, rest)
  | '0' :: 'o' :: rest =>
    (digits isOctalDigit rest).bind fun (ds, rest) =>
      (inRange (Nat.ofDigitChars 8 ds 0)).map (·, rest)
  | '0' :: 'b' :: rest =>
    (digits isBinaryDigit rest).bind fun (ds, rest) =>
      (inRange (Nat.ofDigitChars 2 ds 0)).map (·, rest)
  | cs => decimalInteger cs

/-- Whether `n * 10 ^ e` is nearer to infinity than to the greatest floating-point number of 64
bits. -/
def overflows (n : Nat) (e : Int) : Bool :=
  let size := ((Nat.toDigits 10 n).length : Int) + e
  if n = 0 ∨ size < 309 then false
  else if 309 < size then true
  else
    let limit := Nat.pow 2 1024 - Nat.pow 2 970
    decide (limit * Nat.pow 10 (-e).toNat ≤ n * Nat.pow 10 e.toNat)

def fraction : Reader (List Char)
  | '.' :: rest => digits Char.isDigit rest
  | _ => none

def exponent : Reader Int := fun cs =>
  let body (cs : List Char) : Option (Int × List Char) :=
    let (negative, cs) := sign cs
    (digits Char.isDigit cs).map fun (ds, rest) =>
      let n : Int := Nat.ofDigitChars 10 ds 0
      (if negative then -n else n, rest)
  match cs with
  | 'e' :: rest => body rest
  | 'E' :: rest => body rest
  | _ => none

def consumed (cs rest : List Char) : String := String.ofList (cs.take (cs.length - rest.length))

def decimalFloat : Reader String := fun cs =>
  let (negative, unsigned) := sign cs
  (plainDigits unsigned).bind fun (whole, rest) =>
    let finish (places : List Char) (e : Int) (rest : List Char) : Option (String × List Char) :=
      if !negative && overflows (Nat.ofDigitChars 10 (whole ++ places) 0) (e - places.length) then
        none
      else some (consumed cs rest, rest)
    match exponent rest with
    | some (e, rest) => finish [] e rest
    | none =>
      (fraction rest).bind fun (places, rest) =>
        match exponent rest with
        | some (e, rest) => finish places e rest
        | none => finish places 0 rest

def specialFloat : Reader String := fun cs =>
  match (sign cs).2 with
  | 'i' :: 'n' :: 'f' :: rest => some (consumed cs rest, rest)
  | 'n' :: 'a' :: 'n' :: rest => some (consumed cs rest, rest)
  | _ => none

def float : Reader String := fun cs => (decimalFloat cs).or (specialFloat cs)

def twoDigits : Reader Nat
  | a :: b :: rest =>
    if a.isDigit && b.isDigit then some (Nat.ofDigitChars 10 [a, b] 0, rest) else none
  | _ => none

def twoDigitsIn (low high : Nat) : Reader Nat := fun cs =>
  (twoDigits cs).filter fun (n, _) => decide (low ≤ n) && decide (n ≤ high)

def char (c : Char) : List Char → Option (List Char)
  | d :: rest => if d = c then some rest else none
  | [] => none

def isLeapYear (year : Nat) : Bool := year % 4 == 0 && (year % 100 != 0 || year % 400 == 0)

def daysInMonth (year month : Nat) : Nat :=
  if month = 2 then (if isLeapYear year then 29 else 28)
  else if month = 4 ∨ month = 6 ∨ month = 9 ∨ month = 11 then 30
  else 31

def date? (cs : List Char) : Option (List Char) := do
  let (century, cs) ← twoDigits cs
  let (year, cs) ← twoDigits cs
  let cs ← char '-' cs
  let (month, cs) ← twoDigitsIn 1 12 cs
  let cs ← char '-' cs
  let (_, cs) ← twoDigitsIn 1 (daysInMonth (100 * century + year) month) cs
  return cs

def time? (cs : List Char) : Option (List Char) := do
  let (_, cs) ← twoDigitsIn 0 23 cs
  let cs ← char ':' cs
  let (_, cs) ← twoDigitsIn 0 59 cs
  let cs ← char ':' cs
  let (_, cs) ← twoDigitsIn 0 60 cs
  match cs with
  | '.' :: c :: rest => if c.isDigit then return rest.dropWhile Char.isDigit else return cs
  | _ => return cs

def offset? (cs : List Char) : Option (List Char) :=
  let distance (cs : List Char) : Option (List Char) := do
    let (_, cs) ← twoDigitsIn 0 23 cs
    let cs ← char ':' cs
    let (_, cs) ← twoDigitsIn 0 59 cs
    return cs
  match cs with
  | 'Z' :: rest => some rest
  | 'z' :: rest => some rest
  | '+' :: rest => distance rest
  | '-' :: rest => distance rest
  | _ => none

def timeAndOffset? (cs : List Char) : Option (List Char) :=
  (time? cs).map fun rest => (offset? rest).getD rest

def dateTime : Reader String := fun cs =>
  let behindDate (rest : List Char) : List Char :=
    match rest with
    | c :: tail =>
      if c == 'T' || c == 't' || c == ' ' then (timeAndOffset? tail).getD rest else rest
    | [] => rest
  (((date? cs).map behindDate).or (time? cs)).map fun rest => (consumed cs rest, rest)

end StackMachine.Toml
