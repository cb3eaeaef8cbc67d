import ChipEight.Instruction.Decode
import ChipEight.Machine.Execute
import ChipEight.Trace

/-!
The machine cycle: fetch, advance, decode, execute, count down.

A cycle that fails leaves the machine as the fetch left it. The timers count successful cycles
only, and only these are traced.
-/

namespace ChipEight

/-- What one cycle of a machine comes to. -/
structure Cycle where
  /-- The machine afterwards. -/
  machine : Machine
  /-- What the host has to do, or why the cycle failed. -/
  result : Except Crash Operation
  /-- What was delivered to which observer. -/
  delivered : List (Nat × TraceRecord Register) := []
  /-- What was reported. -/
  log : List Log.Entry := []

namespace Machine

/-- The machine after a successful fetch: the counter points behind the word. -/
def fetched (m : Machine) (word : Opcode) : Machine :=
  { m with dirty := false, opcode := word, counter := m.counter + Opcode.size }

/-- A cycle that began at an address and failed, leaving the given machine behind. -/
def crash (m : Machine) (fault : Fault) (address : Nat) (log : List Log.Entry) : Cycle :=
  let crash : Crash := ⟨fault, m.opcode, address, m.snapshot⟩
  { machine := m, result := .error crash, log := log ++ [.crashed crash] }

/-- The machine at the end of a successful cycle. -/
def settle (e : Execution) : Machine :=
  { e.machine with
    counter := e.move.apply e.machine.counter
    dirty := e.operation == .draw
    delay := e.machine.delay.tick
    sound := e.machine.sound.tick }

/-- What the observers of a machine are told about an instruction. -/
def deliveries (m : Machine) (record : TraceRecord Register) :
    List (Nat × TraceRecord Register) :=
  if m.config.trace then m.observers.deliver record else []

/-- Runs one cycle. -/
def cycle (m : Machine) : Cycle :=
  match m.memory.fetch m.counter with
  | .error cause => crash { m with dirty := false } (.opcode cause) m.counter []
  | .ok word =>
    let report := [.fetched word m.counter]
    match Instruction.decode? word with
    | none => (m.fetched word).crash (.opcode (.unsupported word)) m.counter report
    | some instruction =>
      match (m.fetched word).execute instruction with
      | .error fault => (m.fetched word).crash fault m.counter report
      | .ok execution =>
        { machine := settle execution
          result := .ok execution.operation
          delivered := m.deliveries ⟨m.counter, word, instruction⟩
          log := report ++ execution.log }

/-- Runs cycles one after another, up to a number or to the first crash. -/
def cycles : Nat → Machine → List Cycle
  | 0, _ => []
  | limit + 1, m =>
    let first := m.cycle
    match first.result with
    | .ok _ => first :: cycles limit first.machine
    | .error _ => [first]

end Machine

namespace Cycle

/-- Goes on after a cycle for up to a number of cycles or to the first crash. What comes back is
how many cycles there were, added to `count`, and the last of them. -/
def advance : Nat → Nat → Cycle → Nat × Cycle
  | 0, count, c => (count, c)
  | limit + 1, count, c =>
    match c.result with
    | .ok _ => advance limit (count + 1) c.machine.cycle
    | .error _ => (count, c)

end Cycle

namespace Machine

/-- How many cycles it takes to a number of them or to the first crash, and the last one. -/
def run (m : Machine) : Nat → Nat × Option Cycle
  | 0 => (0, none)
  | limit + 1 =>
    let (count, last) := m.cycle.advance limit 1
    (count, some last)

end Machine

end ChipEight
