import ChipEight.Instruction.Basic
import ChipEight.Machine.Basic
import ChipEight.Movement

/-!
Execution of a single instruction.

`Machine.execute` is given a machine whose counter already points behind the instruction. Every
check comes before the first change, so an instruction that fails has changed nothing: failing
returns a cause and no machine.
-/

namespace ChipEight

/-- What a cycle asks of the host. -/
inductive Operation where
  /-- Nothing. -/
  | none
  /-- To go on while the machine waits for a key. -/
  | wait
  /-- To turn its display off. -/
  | clear
  /-- To show the screen again. -/
  | draw
deriving DecidableEq

/-- What an instruction does if it succeeds. -/
structure Execution where
  /-- The machine afterwards, its counter still behind the instruction. -/
  machine : Machine
  /-- Where the counter goes from there. -/
  move : Movement := .stay
  /-- What the host has to do. -/
  operation : Operation := .none
  /-- What is reported. -/
  log : List Log.Entry := []

namespace Machine

/-- The contents of a register. -/
def reg (m : Machine) (x : Register) : UInt8 := m.registers.get x

/-- The machine with one register replaced. -/
def setReg (m : Machine) (x : Register) (value : UInt8) : Machine :=
  { m with registers := m.registers.set x value }

/-- The outcome of a test, and the machine after it: a key that is asked for is taken. -/
def ask (m : Machine) : Test Register → Bool × Machine
  | .byte x value => (m.reg x == value, m)
  | .register x y => (m.reg x == m.reg y, m)
  | .key x => (m.keypad.holds (m.reg x), { m with keypad := m.keypad.release (m.reg x) })

/-- Combines two registers. Both are read first, and the flag is written last. -/
def combine (m : Machine) (operation : Arithmetic) (x y : Register) : Machine :=
  let a := m.reg x
  let b := m.reg y
  let registers := m.registers.set x (operation.result a b)
  { m with
    registers :=
      match operation.flag? a b with
      | some flag => registers.setFlag flag
      | none => registers }

/-- The hundreds, tens and ones of a byte. -/
def decimalDigits (value : UInt8) : List UInt8 := [value / 100, value / 10 % 10, value % 10]

/-- Executes one instruction. -/
def execute (m : Machine) : Instruction Register → Except Fault Execution
  | .clear => .ok { machine := { m with screen := .blank }, operation := .clear }
  | .ret =>
    match m.stack.pop with
    | .error cause => .error (.stack cause)
    | .ok (address, stack) =>
      .ok { machine := { m with stack := stack }, move := .jump address,
            log := [.returned address] }
  | .jump target => .ok { machine := m, move := .jump target }
  | .call target =>
    match m.stack.push m.counter with
    | .error cause => .error (.stack cause)
    | .ok stack =>
      .ok { machine := { m with stack := stack }, move := .jump target,
            log := [.called target stack.depth] }
  | .jumpOffset base => .ok { machine := m, move := .jump (base + (m.reg .first).toNat) }
  | .skip test expected =>
    let (outcome, after) := m.ask test
    .ok { machine := after, move := .skipIf (outcome == expected) }
  | .setRegister x value => .ok { machine := m.setReg x value }
  | .addConstant x value => .ok { machine := m.setReg x (m.reg x + value) }
  | .arithmetic operation x y => .ok { machine := m.combine operation x y }
  | .setIndex address => .ok { machine := { m with index := address } }
  | .random x mask =>
    let (byte, rest) := m.random.next
    .ok { machine := { m.setReg x (byte &&& mask) with random := rest } }
  | .draw x y height =>
    match m.memory.read m.index height with
    | .error cause => .error (.memory cause)
    | .ok sprite =>
      let drawing := m.screen.draw (m.reg x).toNat (m.reg y).toNat sprite
      .ok { machine := { m with
              screen := drawing.screen
              registers := m.registers.setFlag drawing.collided }
            operation := if sprite.any (· != 0) then .draw else .none }
  | .getDelay x => .ok { machine := m.setReg x m.delay.value }
  | .awaitKey x =>
    match m.keypad.popEarliest with
    | some (key, keypad) => .ok { machine := { m.setReg x key.code with keypad := keypad } }
    | none => .ok { machine := m, move := .rewind, operation := .wait }
  | .setDelay x => .ok { machine := { m with delay := ⟨m.reg x⟩ } }
  | .setSound x => .ok { machine := { m with sound := ⟨m.reg x⟩ } }
  | .addToIndex x =>
    let index := m.index + (m.reg x).toNat
    .ok { machine := { m with index := index },
          log := if index < 4096 then [] else [.indexOutside index] }
  | .pointToGlyph x =>
    let digit := m.reg x
    .ok { machine := { m with index := Font.address digit.toNat },
          log := if digit < 16 then [] else [.noGlyph digit x] }
  | .storeDigits x =>
    match m.memory.write m.index (decimalDigits (m.reg x)) with
    | .error cause => .error (.memory cause)
    | .ok memory => .ok { machine := { m with memory := memory } }
  | .storeRegisters x =>
    match m.memory.write m.index (m.registers.upTo x) with
    | .error cause => .error (.memory cause)
    | .ok memory => .ok { machine := { m with memory := memory, index := m.index + (x + 1) } }
  | .loadRegisters x =>
    match m.memory.read m.index (x + 1) with
    | .error cause => .error (.memory cause)
    | .ok bytes =>
      .ok { machine := { m with
              registers := m.registers.overwrite bytes
              index := m.index + (x + 1) } }

end Machine

end ChipEight
