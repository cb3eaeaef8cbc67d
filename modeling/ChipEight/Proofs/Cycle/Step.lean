import Mathlib.Tactic
import ChipEight.Machine.Cycle

/-!
How a cycle goes, and what an instruction does to each part of the machine.

* `CycleCases` / `cycleCases`: a cycle fails to fetch, fails to decode, is refused by the
  instruction, or is executed; each case comes with the cycle it results in.
* `nextWord`, `fetch_eq_ok_iff`, `fetch_eq_error_iff`: the fetch succeeds exactly up to the
  address `0xFFE`, and then with the word made of the two bytes there.
* `HoldsProgram`, `nextWord_of_program`: what is fetched as long as a program stands in memory.
* `execute_ret_ok`, `execute_call_ok`, ...: what is known of an instruction that could have been
  refused and was not.
* `after`, `execute_ok`: the machine after any instruction, given its stack, and what the
  instruction asks of the counter and of the host. `framesAfter`, `registersAfter`, ... are the
  parts of that machine.
* `frames_of_execute`, `index_of_execute`, ...: single parts; `fixed_of_execute`: those that no
  instruction touches.
* `execute_refit`: with other settings, other observers and another source that shows the same
  byte through the mask, an instruction does the same.
* `address_lt_of_decode`, `height_lt_of_decode`: the address operands of decoded instructions lie
  inside the memory, and their sprites have at most fifteen rows.
-/

namespace ChipEight

namespace Machine

/-! ### The fetch -/

/-- The word at the counter. -/
def nextWord (m : Machine) : Opcode :=
  Opcode.ofBytes (m.memory.byteAt m.counter) (m.memory.byteAt (m.counter + 1))

lemma fetch_eq_ok_iff {m : Machine} {word : Opcode} :
    m.memory.fetch m.counter = .ok word ↔ m.counter ≤ 0xFFE ∧ m.nextWord = word := by
  have hle : Memory.Contains m.counter 2 ↔ m.counter ≤ 0xFFE := by
    rw [Memory.Contains]
    omega
  rw [Memory.fetch_eq, ← hle]
  split <;> simp_all [nextWord]

lemma fetch_eq_error_iff {m : Machine} {cause : OpcodeFault} :
    m.memory.fetch m.counter = .error cause ↔
      0xFFE < m.counter ∧ cause = .outside m.counter 4096 := by
  have hlt : ¬ Memory.Contains m.counter 2 ↔ 0xFFE < m.counter := by
    rw [Memory.Contains]
    omega
  rw [Memory.fetch_eq, ← hlt]
  split <;> simp_all [eq_comm]

/-! ### The words of a program -/

/-- A machine that is about to run a program holds its bytes where programs start. -/
lemma byteAt_image (rom : Rom) {k : Nat} (h : k < rom.data.length) :
    rom.image.byteAt (0x200 + k) = rom.data[k] := by
  have hfits := rom.fits
  rw [Memory.programCapacity] at hfits
  rw [Rom.image, Memory.programStart, Memory.byteAt_overlay _ _ _ (by omega)]
  simp [h]

/-- Whether a program stands in the memory of a machine, as it does when the machine boots. -/
def HoldsProgram (m : Machine) (rom : Rom) : Prop :=
  ∀ a, 0x200 ≤ a → m.memory.byteAt a = rom.image.byteAt a

lemma holdsProgram_of_image {m : Machine} {rom : Rom} (h : m.memory = rom.image) :
    m.HoldsProgram rom := by
  intro a _
  rw [h]

section Program

variable {m : Machine} {rom : Rom} {k : Nat} {high low : UInt8} {rest : List UInt8}

/-- A counter at a word of a program lies inside the memory. -/
lemma counter_le_of_program (hcounter : m.counter = 0x200 + k)
    (h : rom.data.drop k = high :: low :: rest) : m.counter ≤ 0xFFE := by
  have hfits := rom.fits
  have hlength := congrArg List.length h
  rw [List.length_drop, List.length_cons, List.length_cons] at hlength
  rw [Memory.programCapacity] at hfits
  omega

/-- A machine whose program stands in its memory fetches the words of the program. -/
lemma nextWord_of_program (hprogram : m.HoldsProgram rom) (hcounter : m.counter = 0x200 + k)
    (h : rom.data.drop k = high :: low :: rest) : m.nextWord = Opcode.ofBytes high low := by
  have hdata : ∀ j, rom.data[k + j]? = (high :: low :: rest)[j]? := fun j => by
    rw [← h, List.getElem?_drop]
  obtain ⟨hk, hhigh⟩ := List.getElem?_eq_some_iff.mp (hdata 0)
  obtain ⟨hk', hlow⟩ := List.getElem?_eq_some_iff.mp (hdata 1)
  rw [nextWord, hcounter, Nat.add_assoc, hprogram _ (by omega), hprogram _ (by omega),
    byteAt_image rom hk', ← hlow, ← hhigh]
  exact congrArg (Opcode.ofBytes · _) (byteAt_image rom hk)

/-- The same for a machine that has not written to its memory. -/
lemma nextWord_of_image (hmemory : m.memory = rom.image) (hcounter : m.counter = 0x200 + k)
    (h : rom.data.drop k = high :: low :: rest) : m.nextWord = Opcode.ofBytes high low :=
  nextWord_of_program (holdsProgram_of_image hmemory) hcounter h

end Program

/-- A booted machine starts with the first word of its program. -/
lemma nextWord_boot {rom : Rom} {high low : UInt8} {rest : List UInt8}
    (h : rom.data = high :: low :: rest) (config : Config) (random : RandomSource) :
    (boot rom config random).nextWord = Opcode.ofBytes high low :=
  nextWord_of_image (k := 0) rfl rfl h

/-! ### The four ways of a cycle -/

/-- The ways in which a cycle can go, each with the cycle it comes to. -/
inductive CycleCases (m : Machine) : Prop where
  | unfetched (cause : OpcodeFault) (hfetch : m.memory.fetch m.counter = .error cause)
      (hcycle : m.cycle = crash { m with dirty := false } (.opcode cause) m.counter [])
  | undecoded (word : Opcode) (hfetch : m.memory.fetch m.counter = .ok word)
      (hdecode : Instruction.decode? word = none)
      (hcycle : m.cycle =
        (m.fetched word).crash (.opcode (.unsupported word)) m.counter
          [.fetched word m.counter])
  | refused (word : Opcode) (i : Instruction Register) (fault : Fault)
      (hfetch : m.memory.fetch m.counter = .ok word)
      (hdecode : Instruction.decode? word = some i)
      (hexecute : (m.fetched word).execute i = .error fault)
      (hcycle : m.cycle =
        (m.fetched word).crash fault m.counter [.fetched word m.counter])
  | executed (word : Opcode) (i : Instruction Register) (e : Execution)
      (hfetch : m.memory.fetch m.counter = .ok word)
      (hdecode : Instruction.decode? word = some i)
      (hexecute : (m.fetched word).execute i = .ok e)
      (hcycle : m.cycle =
        { machine := settle e
          result := .ok e.operation
          delivered := m.deliveries ⟨m.counter, word, i⟩
          log := [.fetched word m.counter] ++ e.log })

/-- Every cycle goes in one of these ways. -/
theorem cycleCases (m : Machine) : CycleCases m := by
  cases hfetch : m.memory.fetch m.counter with
  | error cause => exact .unfetched cause hfetch (by rw [cycle, hfetch])
  | ok word =>
      cases hdecode : Instruction.decode? word with
      | none => exact .undecoded word hfetch hdecode (by simp only [cycle, hfetch, hdecode])
      | some i =>
          cases hexecute : (m.fetched word).execute i with
          | error fault =>
              exact .refused word i fault hfetch hdecode hexecute
                (by simp only [cycle, hfetch, hdecode, hexecute])
          | ok e =>
              exact .executed word i e hfetch hdecode hexecute
                (by simp only [cycle, hfetch, hdecode, hexecute])

/-! ### Instructions that were not refused -/

section Execute

variable {m : Machine} {i : Instruction Register} {e : Execution}

lemma execute_ret_ok (h : m.execute .ret = .ok e) :
    ∃ address stack, m.stack.pop = .ok (address, stack) ∧
      e = { machine := { m with stack := stack }, move := .jump address,
            log := [.returned address] } := by
  simp only [execute] at h
  split at h
  · cases h
  · next address stack hpop => exact ⟨address, stack, hpop, by cases h; rfl⟩

lemma execute_call_ok {target : Nat} (h : m.execute (.call target) = .ok e) :
    ∃ stack, m.stack.push m.counter = .ok stack ∧
      e = { machine := { m with stack := stack }, move := .jump target,
            log := [.called target stack.depth] } := by
  simp only [execute] at h
  split at h
  · cases h
  · next stack hpush => exact ⟨stack, hpush, by cases h; rfl⟩

lemma execute_draw_ok {x y : Register} {height : Nat}
    (h : m.execute (.draw x y height) = .ok e) :
    ∃ sprite, m.memory.read m.index height = .ok sprite ∧
      e = { machine := { m with
              screen := (m.screen.draw (m.reg x).toNat (m.reg y).toNat sprite).screen
              registers := m.registers.setFlag
                (m.screen.draw (m.reg x).toNat (m.reg y).toNat sprite).collided }
            operation := if sprite.any (· != 0) then .draw else .none } := by
  simp only [execute] at h
  split at h
  · cases h
  · next sprite hread => exact ⟨sprite, hread, by cases h; rfl⟩

/-- A key is taken if one is pending; otherwise the instruction is run again. -/
lemma execute_awaitKey_ok {x : Register} (h : m.execute (.awaitKey x) = .ok e) :
    (∃ key keypad, m.keypad.popEarliest = some (key, keypad) ∧
      e = { machine := { m.setReg x key.code with keypad := keypad } }) ∨
    (m.keypad.popEarliest = none ∧
      e = { machine := m, move := .rewind, operation := .wait }) := by
  simp only [execute] at h
  split at h
  · next key keypad hpop => exact .inl ⟨key, keypad, hpop, by cases h; rfl⟩
  · next hpop => exact .inr ⟨hpop, by cases h; rfl⟩

lemma execute_storeDigits_ok {x : Register} (h : m.execute (.storeDigits x) = .ok e) :
    ∃ memory, m.memory.write m.index (decimalDigits (m.reg x)) = .ok memory ∧
      e = { machine := { m with memory := memory } } := by
  simp only [execute] at h
  split at h
  · cases h
  · next memory hwrite => exact ⟨memory, hwrite, by cases h; rfl⟩

lemma execute_storeRegisters_ok {x : Register} (h : m.execute (.storeRegisters x) = .ok e) :
    ∃ memory, m.memory.write m.index (m.registers.upTo x) = .ok memory ∧
      e = { machine := { m with memory := memory, index := m.index + (x + 1) } } := by
  simp only [execute] at h
  split at h
  · cases h
  · next memory hwrite => exact ⟨memory, hwrite, by cases h; rfl⟩

lemma execute_loadRegisters_ok {x : Register} (h : m.execute (.loadRegisters x) = .ok e) :
    ∃ bytes, m.memory.read m.index (x + 1) = .ok bytes ∧
      e = { machine := { m with
              registers := m.registers.overwrite bytes
              index := m.index + (x + 1) } } := by
  simp only [execute] at h
  split at h
  · cases h
  · next bytes hread => exact ⟨bytes, hread, by cases h; rfl⟩

/-! ### What an instruction does to each part -/

/-- The frames of the stack after an instruction, the newest first. -/
def framesAfter (m : Machine) : Instruction Register → List Nat
  | .ret => m.stack.frames.tail
  | .call _ => m.counter :: m.stack.frames
  | _ => m.stack.frames

/-- The index register after an instruction. -/
def indexAfter (m : Machine) : Instruction Register → Nat
  | .setIndex address => address
  | .addToIndex x => m.index + (m.reg x).toNat
  | .pointToGlyph x => Font.address (m.reg x).toNat
  | .storeRegisters x => m.index + (x + 1)
  | .loadRegisters x => m.index + (x + 1)
  | _ => m.index

/-- The memory after an instruction. -/
def memoryAfter (m : Machine) : Instruction Register → Memory
  | .storeDigits x => m.memory.overlay m.index (decimalDigits (m.reg x))
  | .storeRegisters x => m.memory.overlay m.index (m.registers.upTo x)
  | _ => m.memory

/-- The screen after an instruction. -/
def screenAfter (m : Machine) : Instruction Register → Framebuffer
  | .clear => .blank
  | .draw x y height =>
    (m.screen.draw (m.reg x).toNat (m.reg y).toNat (m.memory.slice m.index height)).screen
  | _ => m.screen

/-- The pending keys after an instruction. -/
def keypadAfter (m : Machine) : Instruction Register → Keypad
  | .skip (.key x) _ => m.keypad.release (m.reg x)
  | .awaitKey _ => (m.keypad.popEarliest.map Prod.snd).getD m.keypad
  | _ => m.keypad

/-- The source of random bytes after an instruction. -/
def randomAfter (m : Machine) : Instruction Register → RandomSource
  | .random _ _ => m.random.next.2
  | _ => m.random

/-- The registers after an instruction. -/
def registersAfter (m : Machine) : Instruction Register → Registers
  | .setRegister x value => m.registers.set x value
  | .addConstant x value => m.registers.set x (m.reg x + value)
  | .arithmetic operation x y => (m.combine operation x y).registers
  | .random x mask => m.registers.set x (m.random.next.1 &&& mask)
  | .draw x y height =>
    m.registers.setFlag
      (m.screen.draw (m.reg x).toNat (m.reg y).toNat (m.memory.slice m.index height)).collided
  | .getDelay x => m.registers.set x m.delay.value
  | .awaitKey x =>
    (m.keypad.popEarliest.map fun popped => m.registers.set x popped.1.code).getD m.registers
  | .loadRegisters x => m.registers.overwrite (m.memory.slice m.index (x + 1))
  | _ => m.registers

/-- The delay timer after an instruction, before it counts down. -/
def delayAfter (m : Machine) : Instruction Register → Timer
  | .setDelay x => ⟨m.reg x⟩
  | _ => m.delay

/-- The sound timer after an instruction, before it counts down. -/
def soundAfter (m : Machine) : Instruction Register → Timer
  | .setSound x => ⟨m.reg x⟩
  | _ => m.sound

/-- What an instruction asks of the host. -/
def operationOf (m : Machine) : Instruction Register → Operation
  | .clear => .clear
  | .draw _ _ height => if (m.memory.slice m.index height).any (· != 0) then .draw else .none
  | .awaitKey _ => if m.keypad.isEmpty then .wait else .none
  | _ => .none

/-- Where an instruction moves the counter. -/
def moveOf (m : Machine) : Instruction Register → Movement
  | .ret => .jump (m.stack.frames.headD 0)
  | .jump target => .jump target
  | .call target => .jump target
  | .jumpOffset base => .jump (base + (m.reg .first).toNat)
  | .skip test expected => .skipIf ((m.ask test).1 == expected)
  | .awaitKey _ => if m.keypad.isEmpty then .rewind else .stay
  | _ => .stay

/-- The machine after an instruction that leaves the given stack behind. -/
def after (m : Machine) (i : Instruction Register) (stack : CallStack) : Machine :=
  { m with
    memory := m.memoryAfter i
    registers := m.registersAfter i
    index := m.indexAfter i
    stack := stack
    delay := m.delayAfter i
    sound := m.soundAfter i
    screen := m.screenAfter i
    keypad := m.keypadAfter i
    random := m.randomAfter i }

/-- All that an instruction does: the parts that it has no entry for stay as they are. -/
theorem execute_ok (h : m.execute i = .ok e) :
    ∃ stack, stack.frames = m.framesAfter i ∧ e.machine = m.after i stack ∧
      e.move = m.moveOf i ∧ e.operation = m.operationOf i := by
  cases i with
  | ret =>
      obtain ⟨address, stack, hpop, rfl⟩ := execute_ret_ok h
      have hframes := CallStack.frames_of_pop hpop
      exact ⟨stack, by simp [framesAfter, hframes], rfl, by simp [moveOf, hframes], rfl⟩
  | call target =>
      obtain ⟨stack, hpush, rfl⟩ := execute_call_ok h
      exact ⟨stack, CallStack.frames_of_push hpush, rfl, rfl, rfl⟩
  | skip test expected => cases h; cases test <;> exact ⟨m.stack, rfl, rfl, rfl, rfl⟩
  | draw x y height =>
      obtain ⟨sprite, hread, rfl⟩ := execute_draw_ok h
      obtain ⟨-, rfl⟩ := Memory.read_eq_ok_iff.mp hread
      exact ⟨m.stack, rfl, rfl, rfl, rfl⟩
  | awaitKey x =>
      obtain ⟨key, keypad, hpop, rfl⟩ | ⟨hpop, rfl⟩ := execute_awaitKey_ok h
      · have hpending := Keypad.popEarliest_eq_some_iff.mp hpop
        refine ⟨m.stack, rfl, ?_, ?_, ?_⟩
        · simp [after, setReg, registersAfter, keypadAfter, memoryAfter, indexAfter, delayAfter,
            soundAfter, screenAfter, randomAfter, hpop]
        · simp [moveOf, Keypad.isEmpty, hpending]
        · simp [operationOf, Keypad.isEmpty, hpending]
      · have hpending := Keypad.popEarliest_eq_none_iff.mp hpop
        refine ⟨m.stack, rfl, ?_, ?_, ?_⟩
        · simp [after, registersAfter, keypadAfter, memoryAfter, indexAfter, delayAfter,
            soundAfter, screenAfter, randomAfter, hpop]
        · simp [moveOf, Keypad.isEmpty, hpending]
        · simp [operationOf, Keypad.isEmpty, hpending]
  | storeDigits x =>
      obtain ⟨memory, hwrite, rfl⟩ := execute_storeDigits_ok h
      obtain ⟨-, rfl⟩ := Memory.write_eq_ok_iff.mp hwrite
      exact ⟨m.stack, rfl, rfl, rfl, rfl⟩
  | storeRegisters x =>
      obtain ⟨memory, hwrite, rfl⟩ := execute_storeRegisters_ok h
      obtain ⟨-, rfl⟩ := Memory.write_eq_ok_iff.mp hwrite
      exact ⟨m.stack, rfl, rfl, rfl, rfl⟩
  | loadRegisters x =>
      obtain ⟨bytes, hread, rfl⟩ := execute_loadRegisters_ok h
      obtain ⟨-, rfl⟩ := Memory.read_eq_ok_iff.mp hread
      exact ⟨m.stack, rfl, rfl, rfl, rfl⟩
  | _ => cases h; exact ⟨m.stack, rfl, rfl, rfl, rfl⟩

theorem frames_of_execute (h : m.execute i = .ok e) :
    e.machine.stack.frames = m.framesAfter i := by
  obtain ⟨stack, hframes, hmachine, -, -⟩ := execute_ok h
  rw [hmachine]
  exact hframes

theorem index_of_execute (h : m.execute i = .ok e) : e.machine.index = m.indexAfter i := by
  obtain ⟨stack, -, hmachine, -, -⟩ := execute_ok h
  rw [hmachine]
  rfl

theorem random_of_execute (h : m.execute i = .ok e) : e.machine.random = m.randomAfter i := by
  obtain ⟨stack, -, hmachine, -, -⟩ := execute_ok h
  rw [hmachine]
  rfl

theorem operation_of_execute (h : m.execute i = .ok e) : e.operation = m.operationOf i := by
  obtain ⟨stack, -, -, -, hoperation⟩ := execute_ok h
  exact hoperation

theorem move_of_execute (h : m.execute i = .ok e) : e.move = m.moveOf i := by
  obtain ⟨stack, -, -, hmove, -⟩ := execute_ok h
  exact hmove

/-- No instruction touches the name, the word fetched last, the counter, the flag for drawing,
the settings or the observers; moving the counter is left to the cycle. -/
theorem fixed_of_execute (h : m.execute i = .ok e) :
    e.machine.name = m.name ∧ e.machine.opcode = m.opcode ∧ e.machine.counter = m.counter ∧
      e.machine.dirty = m.dirty ∧ e.machine.config = m.config ∧
      e.machine.observers = m.observers := by
  obtain ⟨stack, -, hmachine, -, -⟩ := execute_ok h
  rw [hmachine]
  exact ⟨rfl, rfl, rfl, rfl, rfl, rfl⟩

/-! ### What no instruction looks at -/

/-- The machine with another source of random bytes, other settings and other observers. -/
def refit (m : Machine) (random : RandomSource) (config : Config) (observers : Observers Unit) :
    Machine :=
  { m with random := random, config := config, observers := observers }

lemma reg_refit (m : Machine) (r : RandomSource) (c : Config) (o : Observers Unit) (x : Register) :
    (m.refit r c o).reg x = m.reg x := rfl

/-- No instruction looks at the settings or the observers, and the random ones look at the next
byte through their masks only. -/
theorem execute_refit (m : Machine) (i : Instruction Register) {r : RandomSource} {c : Config}
    {o : Observers Unit}
    (h : ∀ x mask, i = .random x mask → r.next.1 &&& mask = m.random.next.1 &&& mask) :
    (m.refit r c o).execute i = (m.execute i).map fun e =>
      { e with machine := e.machine.refit ((m.refit r c o).randomAfter i) c o } := by
  cases i with
  | ret =>
      simp only [execute, refit]
      cases m.stack.pop <;> rfl
  | call target =>
      simp only [execute, refit]
      cases m.stack.push m.counter <;> rfl
  | skip test expected => cases test <;> rfl
  | random x mask =>
      simp only [execute, refit, h x mask rfl]
      rfl
  | draw x y height =>
      simp only [execute, refit]
      cases m.memory.read m.index height <;> rfl
  | awaitKey x =>
      simp only [execute, refit]
      cases m.keypad.popEarliest <;> rfl
  | storeDigits x =>
      simp only [execute, reg_refit]
      simp only [refit]
      cases m.memory.write m.index (decimalDigits (m.reg x)) <;> rfl
  | storeRegisters x =>
      simp only [execute, refit]
      cases m.memory.write m.index (m.registers.upTo x) <;> rfl
  | loadRegisters x =>
      simp only [execute, refit]
      cases m.memory.read m.index (x + 1) <;> rfl
  | _ => rfl

end Execute

end Machine

/-! ### Operands of decoded instructions -/

namespace Instruction

/-- The address that an instruction names. -/
def address? {ρ : Type} : Instruction ρ → Option Nat
  | .jump target => some target
  | .call target => some target
  | .jumpOffset base => some base
  | .setIndex address => some address
  | _ => none

lemma address?_of_ofLowByte {byte : UInt8} {i : Instruction Register}
    (h : ofLowByte? byte = some i) : i.address? = none := by
  rw [ofLowByte?] at h
  split_ifs at h <;> cases h <;> rfl

lemma address?_of_ofKeyByte {x : Register} {byte : UInt8} {i : Instruction Register}
    (h : ofKeyByte? x byte = some i) : i.address? = none := by
  rw [ofKeyByte?] at h
  split at h <;> cases h <;> rfl

lemma address?_of_ofDeviceByte {x : Register} {byte : UInt8} {i : Instruction Register}
    (h : ofDeviceByte? x byte = some i) : i.address? = none := by
  rw [ofDeviceByte?] at h
  split at h <;> cases h <;> rfl

/-- The address of a decoded instruction lies inside the memory. -/
theorem address_lt_of_decode {word : Opcode} {i : Instruction Register} {address : Nat}
    (h : decode? word = some i) (hi : i.address? = some address) : address < 4096 := by
  have hnnn := word.nnn_lt
  rw [decode?] at h
  split at h
  -- the families whose last digits choose the instruction name no address
  case h_8 =>
    split at h
    · cases h
      cases hi
    · rw [address?_of_ofLowByte h] at hi
      cases hi
  case h_14 =>
    rcases Option.or_eq_some_iff.mp h with h | ⟨-, h⟩
    · rw [address?_of_ofKeyByte h] at hi
      cases hi
    · rw [address?_of_ofLowByte h] at hi
      cases hi
  case h_15 =>
    rcases Option.or_eq_some_iff.mp h with h | ⟨-, h⟩
    · rw [address?_of_ofDeviceByte h] at hi
      cases hi
    · rw [address?_of_ofLowByte h] at hi
      cases hi
  case h_16 =>
    rw [address?_of_ofLowByte h] at hi
    cases hi
  all_goals
    cases h
    cases hi
    try exact hnnn

/-- A sprite has at most fifteen rows. -/
theorem height_lt_of_decode {word : Opcode} {x y : Register} {height : Nat}
    (h : decode? word = some (.draw x y height)) : height < 16 := by
  have hn := word.n_lt
  -- only the words of family `D` draw, and their last digit is the height
  grind [decode?, ofLowByte?, ofKeyByte?, ofDeviceByte?]

end Instruction

end ChipEight
