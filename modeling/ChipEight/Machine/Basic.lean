import ChipEight.Config
import ChipEight.Framebuffer
import ChipEight.Log
import ChipEight.Observers
import ChipEight.RandomSource
import ChipEight.Rom
import ChipEight.Timer

/-!
The machine: processor, memory and devices, and what can be done to it from outside.

`boot` is the machine that is about to run a program. Running it is in `ChipEight.Machine.Cycle`.
-/

namespace ChipEight

/-- The state of a machine. -/
structure Machine where
  /-- The name of the program. -/
  name : String
  /-- The word fetched last. -/
  opcode : Opcode
  /-- The memory. -/
  memory : Memory
  /-- The registers `V0` to `VF`. -/
  registers : Registers
  /-- The index register, an address that need not lie inside the memory. -/
  index : Nat
  /-- The program counter. -/
  counter : Nat
  /-- The addresses to return to. -/
  stack : CallStack
  /-- The delay timer. -/
  delay : Timer
  /-- The sound timer: the machine beeps while it runs. -/
  sound : Timer
  /-- The pixels. -/
  screen : Framebuffer
  /-- Whether the latest cycle drew on the screen. -/
  dirty : Bool
  /-- The pending key presses. -/
  keypad : Keypad
  /-- Where random bytes come from. -/
  random : RandomSource
  /-- The settings. -/
  config : Config
  /-- The observers of executed instructions, of which the machine knows the numbers only. -/
  observers : Observers Unit

namespace Machine

/-- The machine that is about to run a program. -/
def boot (rom : Rom) (config : Config) (random : RandomSource) : Machine where
  name := rom.name
  opcode := 0
  memory := rom.image
  registers := .zero
  index := 0
  counter := Memory.programStart
  stack := .empty
  delay := .zero
  sound := .zero
  screen := .blank
  dirty := false
  keypad := .empty
  random := random
  config := config
  observers := .empty

/-- What booting reports. -/
def bootLog (rom : Rom) : List Log.Entry := [.loaded rom.name rom.data.length]

/-- Presses the key of a code. -/
def press (m : Machine) (code : UInt8) : Machine := { m with keypad := m.keypad.press code }

/-- Presses keys one after another. -/
def pressAll (m : Machine) (codes : List UInt8) : Machine := codes.foldl press m

/-- Replaces the source of random bytes. -/
def reseed (m : Machine) (random : RandomSource) : Machine := { m with random := random }

/-- Registers an observer, whose number is `observers.issued` afterwards. -/
def observe (m : Machine) : Machine := { m with observers := m.observers.register () }

/-- Removes the observer with a number. -/
def unobserve (m : Machine) (id : Nat) : Machine :=
  { m with observers := m.observers.remove id }

/-- The state of the processor. -/
def snapshot (m : Machine) : Snapshot where
  opcode := m.opcode
  counter := m.counter
  index := m.index
  registers := m.registers
  stack := m.stack
  delay := m.delay.value
  sound := m.sound.value

end Machine

end ChipEight
