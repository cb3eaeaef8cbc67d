import ChipEight.Instruction.Basic
import ChipEight.Text.Hex

/-!
The assembler listing of an instruction: its mnemonic and its operands.

Registers are written as `V` and their number, bytes with two hexadecimal digits, addresses with
three, and the height of a sprite in decimal.
-/

namespace ChipEight

/-! ### Mnemonics -/

/-- The mnemonic of a register operation. -/
def Arithmetic.mnemonic : Arithmetic → String
  | copy => "LD"
  | or => "OR"
  | and => "AND"
  | xor => "XOR"
  | add => "ADD"
  | sub => "SUB"
  | shiftRight => "SHR"
  | subReverse => "SUBN"
  | shiftLeft => "SHL"

/-- The mnemonic of a skip: the negated ones skip if the test fails. -/
def Test.mnemonic {ρ : Type} (test : Test ρ) (expected : Bool) : String :=
  match test, expected with
  | key _, true => "SKP"
  | key _, false => "SKNP"
  | _, true => "SE"
  | _, false => "SNE"

namespace Instruction

/-- The mnemonic of an instruction; all that moves a value is a load. -/
def mnemonic {ρ : Type} : Instruction ρ → String
  | clear => "CLS"
  | ret => "RET"
  | jump _ => "JP"
  | call _ => "CALL"
  | jumpOffset _ => "JP"
  | skip test expected => test.mnemonic expected
  | setRegister _ _ => "LD"
  | addConstant _ _ => "ADD"
  | arithmetic operation _ _ => operation.mnemonic
  | setIndex _ => "LD"
  | random _ _ => "RND"
  | draw _ _ _ => "DRW"
  | getDelay _ => "LD"
  | awaitKey _ => "LD"
  | setDelay _ => "LD"
  | setSound _ => "LD"
  | addToIndex _ => "ADD"
  | pointToGlyph _ => "LD"
  | storeDigits _ => "LD"
  | storeRegisters _ => "LD"
  | loadRegisters _ => "LD"

/-! ### Operands -/

section Text

variable {ρ : Type} [RegisterName ρ]

/-- A register: `V` and its number. -/
def registerText (x : ρ) : String :=
  "V" ++ String.ofList (Hex.digits (RegisterName.number x))

/-- A byte in two hexadecimal digits. -/
def byteText (value : UInt8) : String := Hex.numeral 2 value.toNat

/-- An address in three hexadecimal digits. -/
def addressText (address : Nat) : String := Hex.numeral 3 address

/-- The operands of a test. -/
def testOperands : Test ρ → List String
  | .byte x value => [registerText x, byteText value]
  | .register x y => [registerText x, registerText y]
  | .key x => [registerText x]

/-- The operands of an instruction in the order of the listing, the target first. -/
def operands : Instruction ρ → List String
  | clear => []
  | ret => []
  | jump target => [addressText target]
  | call target => [addressText target]
  | jumpOffset base => ["V0", addressText base]
  | skip test _ => testOperands test
  | setRegister x value => [registerText x, byteText value]
  | addConstant x value => [registerText x, byteText value]
  | arithmetic _ x y => [registerText x, registerText y]
  | setIndex address => ["I", addressText address]
  | random x mask => [registerText x, byteText mask]
  | draw x y height => [registerText x, registerText y, toString height]
  | getDelay x => [registerText x, "DT"]
  | awaitKey x => [registerText x, "K"]
  | setDelay x => ["DT", registerText x]
  | setSound x => ["ST", registerText x]
  | addToIndex x => ["I", registerText x]
  | pointToGlyph x => ["F", registerText x]
  | storeDigits x => ["B", registerText x]
  | storeRegisters x => ["[I]", registerText x]
  | loadRegisters x => [registerText x, "[I]"]

/-- A mnemonic followed by its operands with commas between them. -/
def line (mnemonic : String) : List String → String
  | [] => mnemonic
  | operands => mnemonic ++ " " ++ ", ".intercalate operands

/-- The listing of an instruction. -/
def text (instruction : Instruction ρ) : String :=
  line instruction.mnemonic instruction.operands

end Text

end Instruction

end ChipEight
