import ChipEight.Dump.MemoryRows
import ChipEight.Machine.Basic

/-!
The full dump of a machine: its program, processor, keypad and memory.
-/

namespace ChipEight.Machine

/-- The dump of a machine. -/
def text (m : Machine) : String :=
  "\n".intercalate
    (["Chipset \x7b", "\tProgram Name :", Dump.indent ++ m.name] ++
      m.snapshot.lines ++
      ["\tKeypad :"] ++ Dump.flagRows m.keypad.states ++
      ["\tMemory :"] ++ Dump.memoryRows m.memory.toList ++
      ["\x7d"])

end ChipEight.Machine
