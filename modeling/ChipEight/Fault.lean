import ChipEight.Opcode
import ChipEight.Text.Hex

/-!
What can go wrong: the causes of a failing cycle and of a refused program, each with its text.

A cause is data; the wording lives in the `message` functions alone. `Fault.message` wraps the
text of the part that failed.
-/

namespace ChipEight

/-- Why no instruction could be had. -/
inductive OpcodeFault where
  /-- The word stands for no instruction. -/
  | unsupported (word : Opcode)
  /-- There are not two bytes at the pointer; `size` bytes were there in all. -/
  | outside (pointer size : Nat)
deriving DecidableEq

/-- Why the call stack refused. -/
inductive StackFault where
  /-- Every frame is in use. -/
  | full
  /-- There is no frame to return to. -/
  | empty
deriving DecidableEq

/-- An access to memory that does not lie inside it altogether. -/
structure AccessFault where
  /-- The first address asked for. -/
  address : Nat
  /-- The number of bytes asked for. -/
  length : Nat
deriving DecidableEq

/-- A program that does not fit. -/
structure RomFault where
  /-- The size of the program in bytes. -/
  length : Nat
  /-- The number of bytes there is room for. -/
  capacity : Nat
deriving DecidableEq

/-- Why a cycle failed. -/
inductive Fault where
  /-- There was no instruction to execute. -/
  | opcode (cause : OpcodeFault)
  /-- A call or a return found no room or no frame. -/
  | stack (cause : StackFault)
  /-- An instruction reached outside of the memory. -/
  | memory (cause : AccessFault)
deriving DecidableEq

/-! ### Texts -/

/-- The text of an opcode fault. -/
def OpcodeFault.message : OpcodeFault → String
  | unsupported word => "An unsupported opcode was used " ++ Hex.numeral 4 word.toNat ++ "."
  | outside pointer size =>
    "Pointer location invalid there can not be an opcode at " ++ toString pointer ++
      ", if data len is " ++ toString size

/-- The text of a stack fault. -/
def StackFault.message : StackFault → String
  | full => "Stack is full!"
  | empty => "Stack is empty!"

/-- The text of an access fault. -/
def AccessFault.message (fault : AccessFault) : String :=
  "Access of " ++ toString fault.length ++ " byte(s) at " ++ Hex.numeral 4 fault.address ++
    " is outside of the address space"

/-- The text of a program that is too large. -/
def RomFault.message (fault : RomFault) : String :=
  "The rom is " ++ toString fault.length ++ " bytes long, but only " ++
    toString fault.capacity ++ " bytes fit into memory"

/-- The text of a fault names the part that failed and quotes the cause. -/
def Fault.message : Fault → String
  | opcode cause => "Invalid opcode state '" ++ cause.message ++ "'."
  | stack cause => "Invalid stack state '" ++ cause.message ++ "'."
  | memory cause => "Invalid memory access '" ++ cause.message ++ "'."

end ChipEight
