import ChipEight.CallStack
import ChipEight.Dump.Layout
import ChipEight.Opcode
import ChipEight.Registers

/-!
Snapshots: the state of the processor, without its memory and devices.
-/

namespace ChipEight

/-- The state of the processor at some moment. -/
structure Snapshot where
  /-- The word fetched last. -/
  opcode : Opcode
  /-- The program counter. -/
  counter : Nat
  /-- The index register. -/
  index : Nat
  /-- The registers. -/
  registers : Registers
  /-- The addresses to return to. -/
  stack : CallStack
  /-- The value of the delay timer. -/
  delay : UInt8
  /-- The value of the sound timer. -/
  sound : UInt8
deriving DecidableEq

namespace Snapshot

/-- The sections of a dump that show the processor. The stack is filled up with zeros, and its
heading tells how many of its values count. -/
def lines (s : Snapshot) : List String :=
  ["\tOpcode :", Dump.valueLine s.opcode.toNat,
    "\tProgram Counter :", Dump.valueLine s.counter,
    "\tIndex Register :", Dump.valueLine s.index,
    "\tTimers (DT, ST) :"] ++
  Dump.numberRows [s.delay.toNat, s.sound.toNat] ++
  ["\tStack (" ++ toString s.stack.depth ++ ") :"] ++
  Dump.numberRows (s.stack.toList ++ List.replicate (16 - s.stack.depth) 0) ++
  ["\tRegister :"] ++
  Dump.numberRows (s.registers.toList.map UInt8.toNat)

/-- The dump of a snapshot. -/
def text (s : Snapshot) : String :=
  "\n".intercalate (["Snapshot \x7b"] ++ s.lines ++ ["\x7d"])

end Snapshot

/-- A failed cycle: the cause, what was executed where, and the state it left behind. -/
structure Crash where
  /-- Why the cycle failed. -/
  fault : Fault
  /-- The word fetched last. -/
  opcode : Opcode
  /-- The address of the cycle. -/
  address : Nat
  /-- The processor after the failure. -/
  snapshot : Snapshot
deriving DecidableEq

/-- The text of a crash: a line with the cause, and the dump of the processor. -/
def Crash.text (crash : Crash) : String :=
  "The chipset crashed executing " ++ Hex.numeral 4 crash.opcode.toNat ++ " at " ++
    Hex.numeral 4 crash.address ++ ": " ++ crash.fault.message ++ "\n" ++ crash.snapshot.text

end ChipEight
