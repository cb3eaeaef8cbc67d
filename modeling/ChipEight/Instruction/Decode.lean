import ChipEight.Instruction.Basic
import ChipEight.Opcode

/-!
Decoding: which instruction a word stands for.

The family of a word, its first digit, decides nearly everything. Families `8`, `E` and `F` use
their last digits to tell their instructions apart; what these families do not know, and all of
family `0`, is left to `ofLowByte?`, which looks at the last two digits alone. So an `E` or `F`
word that ends in `EE` returns, and an `8` word that ends in `E8` clears the screen.
-/

namespace ChipEight

/-- The register operation that the last digit of an `8` word selects. -/
def Arithmetic.ofDigit? : Nat → Option Arithmetic
  | 0x0 => some copy
  | 0x1 => some or
  | 0x2 => some and
  | 0x3 => some xor
  | 0x4 => some add
  | 0x5 => some sub
  | 0x6 => some shiftRight
  | 0x7 => some subReverse
  | 0xE => some shiftLeft
  | _ => none

namespace Instruction

/-- The two instructions without operands, known by the last byte whatever stands before it:
`EE` returns and every other byte from `E0` to `EF` clears. -/
def ofLowByte? (byte : UInt8) : Option (Instruction Register) :=
  if byte = 0xEE then some ret
  else if byte.toNat / 16 = 0xE then some clear
  else none

/-- The skips on keys, by the last byte of an `E` word. -/
def ofKeyByte? (x : Register) (byte : UInt8) : Option (Instruction Register) :=
  match byte.toNat with
  | 0x9E => some (skip (.key x) true)
  | 0xA1 => some (skip (.key x) false)
  | _ => none

/-- The instructions on timers, keys, the index register and memory, by the last byte of an `F`
word. -/
def ofDeviceByte? (x : Register) (byte : UInt8) : Option (Instruction Register) :=
  match byte.toNat with
  | 0x07 => some (getDelay x)
  | 0x0A => some (awaitKey x)
  | 0x15 => some (setDelay x)
  | 0x18 => some (setSound x)
  | 0x1E => some (addToIndex x)
  | 0x29 => some (pointToGlyph x)
  | 0x33 => some (storeDigits x)
  | 0x55 => some (storeRegisters x)
  | 0x65 => some (loadRegisters x)
  | _ => none

/-- The instruction of a word; `none` if it stands for none. -/
def decode? (word : Opcode) : Option (Instruction Register) :=
  match word.family with
  | 0x1 => some (jump word.nnn)
  | 0x2 => some (call word.nnn)
  | 0x3 => some (skip (.byte word.x word.nn) true)
  | 0x4 => some (skip (.byte word.x word.nn) false)
  | 0x5 => some (skip (.register word.x word.y) true)
  | 0x6 => some (setRegister word.x word.nn)
  | 0x7 => some (addConstant word.x word.nn)
  | 0x8 =>
    match Arithmetic.ofDigit? word.n with
    | some operation => some (arithmetic operation word.x word.y)
    | none => ofLowByte? word.nn
  | 0x9 => some (skip (.register word.x word.y) false)
  | 0xA => some (setIndex word.nnn)
  | 0xB => some (jumpOffset word.nnn)
  | 0xC => some (random word.x word.nn)
  | 0xD => some (draw word.x word.y word.n)
  | 0xE => (ofKeyByte? word.x word.nn).or (ofLowByte? word.nn)
  | 0xF => (ofDeviceByte? word.x word.nn).or (ofLowByte? word.nn)
  | _ => ofLowByte? word.nn

end Instruction

end ChipEight
