import Mathlib.Tactic
import ChipEight.Proofs.Cycle.Actions

/-!
The machine in place, on a host with 64-bit words.

`Machine.execute` decides whether an instruction is refused and gives back a whole machine if it
is not. A host works otherwise: it changes one machine, one update after another, and whatever
was changed before a fault stays changed. It adds in words of 64 bits, looks registers up by
number, and keeps pending keys in an array of sixteen.

* `Ending`, `InPlace`: computations that change a machine and end with a value, with a fault and
  the machine left behind, or in a trap, where the host has no word or no place for what it is
  to do.
* `fit`, `register`, `setRegister`, `readMemory`, `writeMemory`, `pressKey`: the operations that
  can trap.
* `execute`, `cycle`, `actAll`: instructions, cycles and runs as a host goes through them.

That none of it traps in a run of reasonable length, and that nothing is half done after a fault,
is in `ChipEight.Proofs.InPlace.Agreement` and `ChipEight.Proofs.Cycle.Bounds`.
-/

namespace ChipEight

/-! ### Operands as numbers -/

/-- The test with its registers named differently. -/
def Test.map {ρ σ : Type} (f : ρ → σ) : Test ρ → Test σ
  | .byte x value => .byte (f x) value
  | .register x y => .register (f x) (f y)
  | .key x => .key (f x)

/-- The instruction with its registers named differently. -/
def Instruction.map {ρ σ : Type} (f : ρ → σ) : Instruction ρ → Instruction σ
  | .clear => .clear
  | .ret => .ret
  | .jump target => .jump target
  | .call target => .call target
  | .jumpOffset base => .jumpOffset base
  | .skip test expected => .skip (test.map f) expected
  | .setRegister x value => .setRegister (f x) value
  | .addConstant x value => .addConstant (f x) value
  | .arithmetic operation x y => .arithmetic operation (f x) (f y)
  | .setIndex address => .setIndex address
  | .random x mask => .random (f x) mask
  | .draw x y height => .draw (f x) (f y) height
  | .getDelay x => .getDelay (f x)
  | .awaitKey x => .awaitKey (f x)
  | .setDelay x => .setDelay (f x)
  | .setSound x => .setSound (f x)
  | .addToIndex x => .addToIndex (f x)
  | .pointToGlyph x => .pointToGlyph (f x)
  | .storeDigits x => .storeDigits (f x)
  | .storeRegisters x => .storeRegisters (f x)
  | .loadRegisters x => .loadRegisters (f x)

/-- The instruction with its registers named by their numbers. -/
def Instruction.numbered (i : Instruction Register) : Instruction Nat := i.map Fin.val

/-! ### Computations in place -/

/-- How a computation in place ends. -/
inductive Ending (α : Type) where
  /-- With a value. -/
  | done (value : α) (machine : Machine)
  /-- With a fault, and the machine as far as it was changed by then. -/
  | fault (cause : Fault) (machine : Machine)
  /-- Not at all: the host cannot go on. -/
  | trap

/-- A computation that changes a machine in place. -/
def InPlace (α : Type) : Type := Machine → Ending α

namespace InPlace

variable {α : Type}

instance : Monad InPlace where
  pure value := fun m => .done value m
  bind first next := fun m =>
    match first m with
    | .done value k => next value k
    | .fault cause k => .fault cause k
    | .trap => .trap

/-- The machine as it is now. -/
def get : InPlace Machine := fun m => .done m m

/-- Changes the machine. -/
def modify (f : Machine → Machine) : InPlace Unit := fun m => .done () (f m)

/-- Ends with a fault. -/
def fail (cause : Fault) : InPlace α := fun m => .fault cause m

/-- Ends in a trap. -/
def trap : InPlace α := fun _ => .trap

/-- A number that has to fit into a word. -/
def fit (n : Nat) : InPlace Nat := if n < Movement.span then pure n else trap

/-! ### Registers, memory and keys -/

/-- The byte in the register of a number. -/
def register (x : Nat) : InPlace UInt8 := do
  let m ← get
  match m.registers.bytes[x]? with
  | some value => pure value
  | none => trap

/-- Replaces the byte in the register of a number. -/
def setRegister (x : Nat) (value : UInt8) : InPlace Unit :=
  if h : x < 16 then modify fun m => m.setReg ⟨x, h⟩ value else trap

/-- The bytes of the registers up to a number. -/
def registersUpTo (x : Nat) : InPlace (List UInt8) := do
  let m ← get
  if h : x < 16 then pure (m.registers.upTo ⟨x, h⟩) else trap

/-- Replaces the registers up to a number by as many bytes. -/
def setRegistersUpTo (x : Nat) (bytes : List UInt8) : InPlace Unit :=
  if x < 16 ∧ bytes.length = x + 1 then
    modify fun m => { m with registers := m.registers.overwrite bytes }
  else trap

/-- Fails unless a range of addresses ends inside the memory; an end without a word of its own
lies outside. -/
def checkRange (address length : Nat) : InPlace Unit :=
  if address + length < Movement.span ∧ address + length ≤ 4096 then pure ()
  else fail (.memory ⟨address, length⟩)

/-- The bytes of a range of addresses. -/
def readMemory (address length : Nat) : InPlace (List UInt8) := do
  checkRange address length
  let stop ← fit (address + length)
  let m ← get
  if stop ≤ 4096 then pure (m.memory.slice address length) else trap

/-- Writes bytes from an address on. -/
def writeMemory (address : Nat) (bytes : List UInt8) : InPlace Unit := do
  checkRange address bytes.length
  let stop ← fit (address + bytes.length)
  if stop ≤ 4096 then modify fun m => { m with memory := m.memory.overlay address bytes }
  else trap

/-- Queues the key of a code, for which the array of keys needs a free place. -/
def pressKey (code : UInt8) : InPlace Unit := do
  let m ← get
  match Key.ofCode? code with
  | none => pure ()
  | some key =>
    if m.keypad.pending.any (· == key) then pure ()
    else if m.keypad.pending.length < 16 then
      modify fun m => { m with keypad := m.keypad.insert key }
    else trap

/-! ### Drawing -/

/-- Changes a pixel, and sets the flag register if it was on. -/
def plot (u v : Nat) : InPlace Unit := do
  let before ← get
  modify fun m => { m with screen := m.screen.flip u v true }
  if before.screen.lit u v then setRegister 15 1

/-- Draws the set pixels of a sprite row that stand in the given columns, and tells whether there
are any. -/
def drawRow (x y i : Nat) (row : UInt8) : List Nat → InPlace Bool
  | [] => pure false
  | column :: rest =>
    if Sprite.bit row column then do
      let u ← fit (x + column)
      let v ← fit (y + i)
      plot u v
      let _ ← drawRow x y i row rest
      pure true
    else drawRow x y i row rest

/-- Draws sprite rows from the one with number `i` on, and tells whether any pixel was set. -/
def drawRows (x y : Nat) : Nat → Sprite → InPlace Bool
  | _, [] => pure false
  | i, row :: rest => do
    let here ← drawRow x y i row (List.range 8)
    let below ← drawRows x y (i + 1) rest
    pure (here || below)

/-! ### Instructions -/

/-- The outcome of a test; a key that is asked for is taken. -/
def ask : Test Nat → InPlace Bool
  | .byte x value => do
    let a ← register x
    pure (a == value)
  | .register x y => do
    let a ← register x
    let b ← register y
    pure (a == b)
  | .key x => do
    let code ← register x
    let m ← get
    modify fun m => { m with keypad := (m.keypad.consume code).2 }
    pure (m.keypad.consume code).1

/-- Combines two registers: the result first, then the flag. -/
def combine (operation : Arithmetic) (x y : Nat) : InPlace Unit := do
  let a ← register x
  let b ← register y
  setRegister x (operation.result a b)
  match operation.flag? a b with
  | some flag => setRegister 15 flag.toUInt8
  | none => pure ()

/-- Executes an instruction and tells where the counter goes and what the host has to do. -/
def execute : Instruction Nat → InPlace (Movement × Operation)
  | .clear => do
    modify fun m => { m with screen := .blank }
    pure (.stay, .clear)
  | .ret => do
    let m ← get
    match m.stack.pop with
    | .error cause => fail (.stack cause)
    | .ok (address, stack) =>
      modify fun m => { m with stack := stack }
      pure (.jump address, .none)
  | .jump target => pure (.jump target, .none)
  | .call target => do
    let m ← get
    match m.stack.push m.counter with
    | .error cause => fail (.stack cause)
    | .ok stack =>
      modify fun m => { m with stack := stack }
      pure (.jump target, .none)
  | .jumpOffset base => do
    let offset ← register 0
    let target ← fit (base + offset.toNat)
    pure (.jump target, .none)
  | .skip test expected => do
    let outcome ← ask test
    pure (.skipIf (outcome == expected), .none)
  | .setRegister x value => do
    setRegister x value
    pure (.stay, .none)
  | .addConstant x value => do
    let a ← register x
    setRegister x (a + value)
    pure (.stay, .none)
  | .arithmetic operation x y => do
    combine operation x y
    pure (.stay, .none)
  | .setIndex address => do
    modify fun m => { m with index := address }
    pure (.stay, .none)
  | .random x mask => do
    let m ← get
    modify fun m => { m with random := m.random.next.2 }
    setRegister x (m.random.next.1 &&& mask)
    pure (.stay, .none)
  | .draw x y height => do
    let left ← register x
    let top ← register y
    let m ← get
    let sprite ← readMemory m.index height
    setRegister 15 0
    let changed ← drawRows left.toNat top.toNat 0 sprite
    pure (.stay, if changed then .draw else .none)
  | .getDelay x => do
    let m ← get
    setRegister x m.delay.value
    pure (.stay, .none)
  | .awaitKey x => do
    let m ← get
    match m.keypad.popEarliest with
    | some (key, keypad) =>
      modify fun m => { m with keypad := keypad }
      setRegister x key.code
      pure (.stay, .none)
    | none => pure (.rewind, .wait)
  | .setDelay x => do
    let value ← register x
    modify fun m => { m with delay := ⟨value⟩ }
    pure (.stay, .none)
  | .setSound x => do
    let value ← register x
    modify fun m => { m with sound := ⟨value⟩ }
    pure (.stay, .none)
  | .addToIndex x => do
    let value ← register x
    let m ← get
    let index ← fit (m.index + value.toNat)
    modify fun m => { m with index := index }
    pure (.stay, .none)
  | .pointToGlyph x => do
    let digit ← register x
    let address ← fit (Font.address digit.toNat)
    modify fun m => { m with index := address }
    pure (.stay, .none)
  | .storeDigits x => do
    let value ← register x
    let m ← get
    writeMemory m.index (Machine.decimalDigits value)
    pure (.stay, .none)
  | .storeRegisters x => do
    let bytes ← registersUpTo x
    let m ← get
    writeMemory m.index bytes
    let length ← fit (x + 1)
    let index ← fit (m.index + length)
    modify fun m => { m with index := index }
    pure (.stay, .none)
  | .loadRegisters x => do
    let length ← fit (x + 1)
    let m ← get
    let bytes ← readMemory m.index length
    setRegistersUpTo x bytes
    let index ← fit (m.index + length)
    modify fun m => { m with index := index }
    pure (.stay, .none)

/-! ### Cycles -/

/-- Moves the counter; it cannot go below zero. -/
def move : Movement → InPlace Unit
  | .stay => pure ()
  | .skip => do
    let m ← get
    let counter ← fit (m.counter + 2)
    modify fun m => { m with counter := counter }
  | .rewind => do
    let m ← get
    if 2 ≤ m.counter then modify fun m => { m with counter := m.counter - 2 } else trap
  | .jump target => modify fun m => { m with counter := target }

/-- Fetches the word at the counter and advances the counter. -/
def fetch : InPlace Opcode := do
  let m ← get
  match m.memory.fetch m.counter with
  | .error cause => fail (.opcode cause)
  | .ok word =>
    modify fun m => { m with opcode := word }
    let counter ← fit (m.counter + Opcode.size)
    modify fun m => { m with counter := counter }
    pure word

/-- Fetches, decodes and executes one instruction. -/
def step : InPlace Operation := do
  let word ← fetch
  match Instruction.decode? word with
  | none => fail (.opcode (.unsupported word))
  | some i =>
    let (movement, operation) ← execute i.numbered
    move movement
    if operation = .draw then modify fun m => { m with dirty := true }
    pure operation

/-- Runs one cycle. The timers count down after a step that went through; a fault becomes a crash
that shows the machine as the step has left it. -/
def cycle : InPlace (Except Crash Operation) := fun m =>
  match step { m with dirty := false } with
  | .done operation k =>
    .done (.ok operation) { k with delay := k.delay.tick, sound := k.sound.tick }
  | .fault cause k => .done (.error ⟨cause, k.opcode, m.counter, k.snapshot⟩) k
  | .trap => .trap

/-! ### Runs -/

/-- An action in place; what a cycle ends with is not kept. -/
def act : Action → InPlace Unit
  | .press code => pressKey code
  | .cycle => do
    let _ ← cycle
    pure ()
  | .reseed random => modify fun m => m.reseed random
  | .observe => modify Machine.observe
  | .unobserve id => modify fun m => m.unobserve id

/-- Actions in place, one after another. -/
def actAll : List Action → InPlace Unit
  | [] => pure ()
  | a :: rest => do
    act a
    actAll rest

end InPlace

end ChipEight
