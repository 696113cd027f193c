import StackMachine.Code.Codec

namespace StackMachine

def paddedNumeral (width n : Nat) : String :=
  String.ofList (List.leftpad width '0' (Nat.toDigits 10 n))

namespace Instr

/-- Numbers from `0.0001` up to below `10 ^ 16` are written positionally, with at least one digit
behind the point. -/
def floatStyle : Decimal.Style := ⟨fun e => decide (-4 ≤ e) && decide (e < 16), true⟩

def operandText : Instr → String
  | push n => " " ++ n.toInt.repr
  | pushLong n => " " ++ n.toInt.repr
  | pushFloat x => " " ++ x.text floatStyle
  | pick n | new _ n | getField n | setField n => " " ++ n.toNat.repr
  | jump target | branch _ target => " @" ++ paddedNumeral 4 target.toNat
  | call target argc => " @" ++ paddedNumeral 4 target.toNat ++ " " ++ argc.toNat.repr
  | ret n | load n | store n => " " ++ n.toNat.repr
  | _ => ""

def text (i : Instr) : String := i.mnemonic ++ i.operandText

end Instr

namespace Code

def listingLine (entry : Nat × Instr) : String :=
  paddedNumeral 4 entry.1 ++ ": " ++ entry.2.text ++ "\n"

def listing (code : Code) : Except Fault String :=
  code.instructions.map fun entries => String.join (entries.map listingLine)

end Code

end StackMachine
