import ChipEight.Registers

/-!
The instruction set as data.

Instructions that differ only in a detail are one constructor: the nine register-to-register
operations are an `Arithmetic` each, and the six conditional skips are a `Test` with the outcome
that makes them skip, so that opposite skips differ in one `Bool`.

`Instruction ρ` leaves open what names a register. The machine executes `Instruction Register`;
listings need a `RegisterName` only.
-/

namespace ChipEight

/-- An operation on two registers whose result goes to the first one. -/
inductive Arithmetic where
  /-- The second operand. -/
  | copy
  /-- Bitwise or. -/
  | or
  /-- Bitwise and. -/
  | and
  /-- Bitwise exclusive or. -/
  | xor
  /-- The sum. -/
  | add
  /-- The first operand less the second. -/
  | sub
  /-- The second operand without its lowest bit. -/
  | shiftRight
  /-- The second operand less the first. -/
  | subReverse
  /-- The second operand doubled. -/
  | shiftLeft
deriving DecidableEq

/-- What a conditional skip looks at. -/
inductive Test (ρ : Type) where
  /-- Whether a register holds the given byte. -/
  | byte (x : ρ) (value : UInt8)
  /-- Whether two registers hold the same byte. -/
  | register (x y : ρ)
  /-- Whether the key named by a register is pending; asking takes the key. -/
  | key (x : ρ)
deriving DecidableEq

/-- An instruction over registers named by `ρ`. -/
inductive Instruction (ρ : Type) where
  /-- Turns every pixel off. -/
  | clear
  /-- Goes back to where the newest call came from. -/
  | ret
  /-- Goes to an address. -/
  | jump (target : Nat)
  /-- Goes to an address and remembers where to come back to. -/
  | call (target : Nat)
  /-- Goes to an address plus `V0`. -/
  | jumpOffset (base : Nat)
  /-- Skips the following instruction if the test comes out as expected. -/
  | skip (test : Test ρ) (expected : Bool)
  /-- Puts a byte into a register. -/
  | setRegister (x : ρ) (value : UInt8)
  /-- Adds a byte to a register and leaves the flag alone. -/
  | addConstant (x : ρ) (value : UInt8)
  /-- Combines two registers. -/
  | arithmetic (operation : Arithmetic) (x y : ρ)
  /-- Puts an address into the index register. -/
  | setIndex (address : Nat)
  /-- Puts a random byte into a register, cut down to the bits of the mask. -/
  | random (x : ρ) (mask : UInt8)
  /-- Draws the sprite of so many rows at the coordinates held by two registers. -/
  | draw (x y : ρ) (height : Nat)
  /-- Puts the delay timer into a register. -/
  | getDelay (x : ρ)
  /-- Puts the oldest pending key into a register, and waits for one if there is none. -/
  | awaitKey (x : ρ)
  /-- Sets the delay timer. -/
  | setDelay (x : ρ)
  /-- Sets the sound timer. -/
  | setSound (x : ρ)
  /-- Adds a register to the index register. -/
  | addToIndex (x : ρ)
  /-- Points the index register to the glyph of the digit in a register. -/
  | pointToGlyph (x : ρ)
  /-- Stores the three decimal digits of a register. -/
  | storeDigits (x : ρ)
  /-- Stores the registers from `V0` up to the given one. -/
  | storeRegisters (x : ρ)
  /-- Loads the registers from `V0` up to the given one. -/
  | loadRegisters (x : ρ)
deriving DecidableEq

namespace Arithmetic

/-- The byte that goes to the first register, from the bytes `a` and `b` of both. -/
def result (operation : Arithmetic) (a b : UInt8) : UInt8 :=
  match operation with
  | copy => b
  | or => a ||| b
  | and => a &&& b
  | xor => a ^^^ b
  | add => a + b
  | sub => a - b
  | shiftRight => b >>> 1
  | subReverse => b - a
  | shiftLeft => b <<< 1

/-- What goes to the flag register; copying leaves it alone. A difference sets the flag only if
it is strictly positive. -/
def flag? (operation : Arithmetic) (a b : UInt8) : Option Bool :=
  match operation with
  | copy => none
  | or => some false
  | and => some false
  | xor => some false
  | add => some (decide (255 < a.toNat + b.toNat))
  | sub => some (decide (b < a))
  | shiftRight => some (decide (b.toNat % 2 = 1))
  | subReverse => some (decide (a < b))
  | shiftLeft => some (decide (128 ≤ b.toNat))

end Arithmetic

end ChipEight
