import Mathlib.Tactic
import ChipEight.Proofs.Keypad.Interleaving
import ChipEight.Proofs.Timers.Countdown

/-!
What an instruction leaves alone.

* `Opcode.Targets`, `Opcode.SetsFlag`: the registers that a word may write, by its operands and as
  its flag. `Clock.pattern`: the words that set a timer.
* `Machine.Confined`: the table of what the word at the counter may change, one entry for each part
  of a machine. It leaves open which words return.
* `byteAt_changes`, `index_changes`, `stack_changes`, ...: the entries, one lemma each.
* `cycle_is_confined`: every cycle that succeeds keeps to the table, where the words that are
  decoded to returns return.
* `stray_return_pops_stack`: the words documented as returns are not all that change the stack.
-/

namespace ChipEight

/-! ### What a word may write -/

namespace Opcode

/-- Whether the result of a word goes to a register: it goes to the one that is named first, and
loading goes to all registers up to it. -/
def Targets (word : Opcode) (k : Register) : Prop :=
  word.FitsOneOf ["6XNN", "7XNN", "8XY_", "CXNN", "FX07", "FX0A"] ∧ k = word.x ∨
    word.Fits "FX65" ∧ k ≤ word.x

/-- Whether a word uses the flag register as its flag. -/
def SetsFlag (word : Opcode) : Prop :=
  word.FitsOneOf ["8XY1", "8XY2", "8XY3", "8XY4", "8XY5", "8XY6", "8XY7", "8XYE", "DXYN"]

instance (word : Opcode) (k : Register) : Decidable (word.Targets k) :=
  inferInstanceAs (Decidable (_ ∧ k = word.x ∨ word.Fits "FX65" ∧ k ≤ word.x))

instance (word : Opcode) : Decidable word.SetsFlag :=
  inferInstanceAs (Decidable (word.FitsOneOf _))

/-- The register operations all have the first digit in common. -/
lemma fits_eight_of_arithmetic {word : Opcode} {operation : Arithmetic}
    (h : word.Fits operation.pattern) : word.Fits "8XY_" := by
  have hfamily := (Instruction.fits_arithmetic_iff.mp h).1
  simp [Fits, digits, Hex.digitValue?, hfamily]

end Opcode

/-- The pattern of the words that set a timer. -/
def Clock.pattern : Clock → String
  | delay => "FX15"
  | sound => "FX18"

/-- What a cycle that succeeds may change about a machine, if the given words return. -/
structure Machine.Confined (m : Machine) (returns : Opcode → Prop) : Prop where
  /-- Digits go to three cells from the index register on, and registers to one cell each. -/
  memory : ∀ a, m.cycle.machine.memory.byteAt a ≠ m.memory.byteAt a →
    m.nextWord.Fits "FX33" ∧ m.index ≤ a ∧ a ≤ m.index + 2 ∨
      m.nextWord.Fits "FX55" ∧ m.index ≤ a ∧ a ≤ m.index + m.nextWord.x
  /-- The index register is set, moved, or advanced over what was stored or loaded. -/
  index : m.cycle.machine.index ≠ m.index →
    m.nextWord.FitsOneOf ["ANNN", "FX1E", "FX29", "FX55", "FX65"]
  /-- The stack is for calls and returns. -/
  stack : m.cycle.machine.stack ≠ m.stack → m.nextWord.Fits "2NNN" ∨ returns m.nextWord
  /-- The screen is cleared or drawn on. -/
  screen : m.cycle.machine.screen ≠ m.screen → m.nextWord.Clears ∨ m.nextWord.Fits "DXYN"
  /-- Keys are taken by the skips on keys and by waiting for a key. -/
  keypad : m.cycle.machine.keypad ≠ m.keypad → m.nextWord.FitsOneOf ["EX9E", "EXA1", "FX0A"]
  /-- No more than one key is taken, and the others keep their places. -/
  keys : m.cycle.machine.keypad = m.keypad ∨
    ∃ key ∈ m.keypad.pending, m.cycle.machine.keypad.pending = m.keypad.pending.erase key
  /-- The delay timer counts down, unless it is set. -/
  delay : m.cycle.machine.delay ≠ m.delay.tick → m.nextWord.Fits "FX15"
  /-- The sound timer counts down, unless it is set. -/
  sound : m.cycle.machine.sound ≠ m.sound.tick → m.nextWord.Fits "FX18"
  /-- Registers are written by name, and the flag register also as the flag. -/
  registers : ∀ k, m.cycle.machine.reg k ≠ m.reg k →
    m.nextWord.Targets k ∨ k = .flag ∧ m.nextWord.SetsFlag
  /-- The name is for good. -/
  name : m.cycle.machine.name = m.name
  /-- The settings are for good. -/
  config : m.cycle.machine.config = m.config

/-- Releasing a key takes that key at most. -/
lemma Keypad.release_eq_or_erase (k : Keypad) (code : UInt8) :
    k.release code = k ∨
      ∃ key ∈ k.pending, (k.release code).pending = k.pending.erase key := by
  cases hholds : k.holds code with
  | false => exact .inl (release_eq_self hholds)
  | true =>
      obtain ⟨key, hkey, hcode⟩ := List.any_eq_true.mp hholds
      refine .inr ⟨key, hkey, ?_⟩
      rw [pending_release, k.nodup.erase_eq_filter]
      refine List.filter_congr fun other _ => ?_
      rw [Bool.eq_iff_iff, bne_iff_ne, bne_iff_ne, ← eq_of_beq hcode, ne_eq, ne_eq, Fin.ext_iff]

namespace Machine

variable {m : Machine} {i : Instruction Register}

/-! ### The parts of the machine -/

/-- A word is written for the instruction that it executes. -/
lemma spelled_of_executed (h : m.executed? = some i) : i.Spelled m.nextWord :=
  Instruction.decode?_eq_some_iff.mp (decode_of_executed h)

lemma byteAt_changes (h : m.executed? = some i) {a : ℕ}
    (ha : m.cycle.machine.memory.byteAt a ≠ m.memory.byteAt a) :
    m.nextWord.Fits "FX33" ∧ m.index ≤ a ∧ a ≤ m.index + 2 ∨
      m.nextWord.Fits "FX55" ∧ m.index ≤ a ∧ a ≤ m.index + m.nextWord.x := by
  have hspelled := spelled_of_executed h
  rw [memory_of_executed h] at ha
  cases i with
  | storeDigits x =>
      obtain ⟨hle, hlt⟩ := Memory.bounds_of_overlay_ne ha
      exact .inl ⟨hspelled.1, hle, Nat.le_of_lt_succ hlt⟩
  | storeRegisters x =>
      obtain ⟨hle, hlt⟩ := Memory.bounds_of_overlay_ne ha
      rw [Registers.length_upTo, ← hspelled.2] at hlt
      exact .inr ⟨hspelled.1, hle, Nat.le_of_lt_succ hlt⟩
  | _ => exact absurd rfl ha

lemma index_changes (h : m.executed? = some i) (hne : m.cycle.machine.index ≠ m.index) :
    m.nextWord.FitsOneOf ["ANNN", "FX1E", "FX29", "FX55", "FX65"] := by
  have hspelled := spelled_of_executed h
  rw [index_of_executed h] at hne
  cases i with
  | setIndex address => exact Opcode.fitsOneOf_of_fits hspelled.1 (by decide)
  | addToIndex x => exact Opcode.fitsOneOf_of_fits hspelled.1 (by decide)
  | pointToGlyph x => exact Opcode.fitsOneOf_of_fits hspelled.1 (by decide)
  | storeRegisters x => exact Opcode.fitsOneOf_of_fits hspelled.1 (by decide)
  | loadRegisters x => exact Opcode.fitsOneOf_of_fits hspelled.1 (by decide)
  | _ => exact absurd rfl hne

/-- A return takes the newest frame. -/
lemma frames_of_ret (h : m.executed? = some .ret) :
    m.cycle.machine.stack.frames = m.stack.frames.tail := frames_of_executed h

lemma stack_changes (h : m.executed? = some i) (hne : m.cycle.machine.stack ≠ m.stack) :
    m.nextWord.Fits "2NNN" ∨ m.nextWord.Returns := by
  have hspelled := spelled_of_executed h
  have hchanged : (m.fetched m.nextWord).framesAfter i ≠ m.stack.frames := by
    rw [← frames_of_executed h]
    exact fun hsame => hne (CallStack.ext_toList (congrArg List.reverse hsame))
  cases i with
  | ret => exact .inr hspelled
  | call target => exact .inl hspelled.1
  | _ => exact absurd rfl hchanged

lemma screen_changes (h : m.executed? = some i) (hne : m.cycle.machine.screen ≠ m.screen) :
    m.nextWord.Clears ∨ m.nextWord.Fits "DXYN" := by
  have hspelled := spelled_of_executed h
  rw [screen_of_executed h] at hne
  cases i with
  | clear => exact .inl hspelled
  | draw x y height => exact .inr hspelled.1
  | _ => exact absurd rfl hne

lemma keypad_changes (h : m.executed? = some i) (hne : m.cycle.machine.keypad ≠ m.keypad) :
    m.nextWord.FitsOneOf ["EX9E", "EXA1", "FX0A"] := by
  rw [keypad_of_executed h] at hne
  refine (Instruction.asksForKey_iff_fits (decode_of_executed h)).mp ?_
  cases i with
  | skip test expected =>
      cases test with
      | key x => rfl
      | _ => exact absurd rfl hne
  | awaitKey x => rfl
  | _ => exact absurd rfl hne

lemma keypad_loses_one (h : m.executed? = some i) :
    m.cycle.machine.keypad = m.keypad ∨
      ∃ key ∈ m.keypad.pending, m.cycle.machine.keypad.pending = m.keypad.pending.erase key := by
  rw [keypad_of_executed h]
  cases i with
  | skip test expected =>
      cases test with
      | key x => exact m.keypad.release_eq_or_erase (m.reg x)
      | _ => exact .inl rfl
  | awaitKey x =>
      show (m.keypad.popEarliest.map Prod.snd).getD m.keypad = m.keypad ∨ ∃ key ∈ m.keypad.pending,
        ((m.keypad.popEarliest.map Prod.snd).getD m.keypad).pending = m.keypad.pending.erase key
      cases hpop : m.keypad.popEarliest with
      | none => exact .inl rfl
      | some popped =>
          have hpending := Keypad.popEarliest_eq_some_iff.mp hpop
          refine .inr ⟨popped.1, by simp [hpending], ?_⟩
          rw [hpending, List.erase_cons_head]
          rfl
  | _ => exact .inl rfl

lemma clock_changes {c : Clock} (h : m.executed? = some i)
    (hne : m.cycle.machine.clock c ≠ (m.clock c).tick) : m.nextWord.Fits c.pattern := by
  by_contra hfits
  refine hne (clock_of_executed h fun x hset => hfits ?_)
  have hspelled := spelled_of_executed h
  rw [hset] at hspelled
  cases c with
  | _ => exact hspelled.1

/-- Combining two registers writes the first of them, and the flag unless the second is copied. -/
lemma reg_combine_of_ne {operation : Arithmetic} {x y k : Register} (hx : k ≠ x)
    (hflag : k = .flag → operation = .copy) : (m.combine operation x y).reg k = m.reg k := by
  have hset : ∀ value, (m.registers.set x value).get k = m.registers.get k := by
    intro value
    rw [Registers.get_set, if_neg hx.symm]
  by_cases hk : k = .flag
  · rw [hflag hk]
    exact hset _
  · cases operation with
    | copy => exact hset _
    | _ =>
        refine (Registers.get_setFlag _ _ k).trans ?_
        rw [if_neg (Ne.symm hk)]
        exact hset _

lemma reg_changes (h : m.executed? = some i) {k : Register}
    (hne : m.cycle.machine.reg k ≠ m.reg k) :
    m.nextWord.Targets k ∨ k = .flag ∧ m.nextWord.SetsFlag := by
  have hspelled := spelled_of_executed h
  rw [reg, registers_of_executed h] at hne
  -- an instruction that sets one register leaves the others as they are
  have hset : ∀ x value, (m.registers.set x value).get k ≠ m.registers.get k → k = x := by
    intro x value hchanged
    by_contra hx
    rw [Registers.get_set, if_neg (Ne.symm hx)] at hchanged
    exact hchanged rfl
  cases i with
  | setRegister x value =>
      refine .inl (.inl ⟨Opcode.fitsOneOf_of_fits hspelled.1 (by decide), ?_⟩)
      exact (hset x value hne).trans hspelled.2.1.symm
  | addConstant x value =>
      refine .inl (.inl ⟨Opcode.fitsOneOf_of_fits hspelled.1 (by decide), ?_⟩)
      exact (hset x _ hne).trans hspelled.2.1.symm
  | random x mask =>
      refine .inl (.inl ⟨Opcode.fitsOneOf_of_fits hspelled.1 (by decide), ?_⟩)
      exact (hset x _ hne).trans hspelled.2.1.symm
  | getDelay x =>
      refine .inl (.inl ⟨Opcode.fitsOneOf_of_fits hspelled.1 (by decide), ?_⟩)
      exact (hset x _ hne).trans hspelled.2.symm
  | arithmetic operation x y =>
      obtain ⟨hfits, rfl, rfl⟩ := hspelled
      by_cases hx : k = m.nextWord.x
      · have height := Opcode.fits_eight_of_arithmetic hfits
        exact .inl (.inl ⟨Opcode.fitsOneOf_of_fits height (by decide), hx⟩)
      · right
        by_contra hnone
        refine hne (reg_combine_of_ne (m := m.fetched m.nextWord) hx fun hk => ?_)
        by_contra hcopy
        refine hnone ⟨hk, Opcode.fitsOneOf_of_fits hfits ?_⟩
        cases operation with
        | copy => exact absurd rfl hcopy
        | _ => decide
  | draw x y height =>
      exact .inr ⟨hset .flag _ hne, Opcode.fitsOneOf_of_fits hspelled.1 (by decide)⟩
  | awaitKey x =>
      refine .inl (.inl ⟨Opcode.fitsOneOf_of_fits hspelled.1 (by decide), ?_⟩)
      change ((m.keypad.popEarliest.map fun popped => m.registers.set x popped.1.code).getD
        m.registers).get k ≠ m.registers.get k at hne
      cases hpop : m.keypad.popEarliest with
      | none =>
          rw [hpop] at hne
          exact absurd rfl hne
      | some popped =>
          rw [hpop] at hne
          exact (hset x _ hne).trans hspelled.2.symm
  | loadRegisters x =>
      obtain ⟨hfits, rfl⟩ := hspelled
      refine .inl (.inr ⟨hfits, ?_⟩)
      change (m.registers.overwrite (m.memory.slice m.index (m.nextWord.x + 1))).get k ≠
        m.registers.get k at hne
      by_contra hbehind
      rw [Fin.le_def] at hbehind
      rw [Registers.get_overwrite, List.getElem?_eq_none (by rw [Memory.length_slice]; omega)]
        at hne
      exact hne rfl
  | _ => exact absurd rfl hne

/-- A cycle that executes an instruction keeps to the table. -/
theorem confined_of_executed (h : m.executed? = some i) : m.Confined Opcode.Returns where
  memory _ := byteAt_changes h
  index := index_changes h
  stack := stack_changes h
  screen := screen_changes h
  keypad := keypad_changes h
  keys := keypad_loses_one h
  delay := clock_changes (c := .delay) h
  sound := clock_changes (c := .sound) h
  registers _ := reg_changes h
  name := (fixed_cycle m).1
  config := (fixed_cycle m).2.1

end Machine

/-- Every word touches its own parts of the machine only. Whatever a cycle that succeeds has changed
in the memory, the index register, the stack, the screen, the pending keys, the timers apart from
their tick, or the registers is a change that the table has for the word at the counter; at most
one key is gone, and the name and the settings never change. The words that return, and so may
change the stack, are the documented one and the undocumented ones that end in the same byte. -/
theorem cycle_is_confined (m : Machine) (operation : Operation)
    (h : m.cycle.result = .ok operation) : m.Confined Opcode.Returns := by
  cases hexecuted : m.executed? with
  | none =>
      obtain ⟨crash, hresult⟩ := Machine.result_of_crashed hexecuted
      rw [hresult] at h
      cases h
  | some i => exact Machine.confined_of_executed hexecuted

/-- Two registers are stored over the first two bytes of the font. The table keeps the third byte,
the stack and the registers as they are. -/
theorem cycle_is_confined_at_store :
    let rom : Rom := ⟨"STORE", [0xF1, 0x55], by decide⟩
    let m := Machine.boot rom {} (.cycling #[])
    m.cycle.result = .ok .none ∧ m.Confined Opcode.Returns ∧ m.nextWord = 0xF155 ∧
      m.cycle.machine.index = 2 ∧ m.cycle.machine.memory.byteAt 1 = 0 ∧
      m.cycle.machine.memory.byteAt 2 = m.memory.byteAt 2 ∧
      m.cycle.machine.stack = m.stack ∧ ∀ k, m.cycle.machine.reg k = m.reg k := by
  intro rom m
  have hword : m.nextWord = 0xF155 := (Machine.nextWord_boot rfl _ _).trans (by decide)
  have hexecuted : m.executed? = some (.storeRegisters 1) :=
    Machine.executed?_of_extent (by decide) (by rw [hword]; rfl) rfl (by decide)
  have hresult : m.cycle.result = .ok .none := Machine.result_of_executed hexecuted
  have hconfined := cycle_is_confined m .none hresult
  obtain ⟨hmemory, -, hstack, -, -, -, -, -, hregisters, -, -⟩ := id hconfined
  rw [hword] at hmemory hstack hregisters
  refine ⟨hresult, hconfined, hword, Machine.index_of_executed hexecuted, ?_, ?_, ?_, fun k => ?_⟩
  · rw [Machine.memory_of_executed hexecuted]
    exact Memory.byteAt_overlay _ _ _ (by decide)
  · by_contra hne
    rcases hmemory 2 hne with ⟨hfits, -⟩ | ⟨-, -, hle⟩
    · exact absurd hfits (by decide)
    · exact absurd hle (by decide)
  · by_contra hne
    rcases hstack hne with hfits | hfits | ⟨-, hlow⟩
    · exact absurd hfits (by decide)
    · exact absurd hfits (by decide)
    · exact absurd hlow (by decide)
  · by_contra hne
    rcases hregisters k hne with (⟨hfits, -⟩ | ⟨hfits, -⟩) | ⟨-, hflag⟩
    · exact absurd hfits (by decide)
    · exact absurd hfits (by decide)
    · exact absurd hflag (by decide)

/-- A program that calls a subroutine, which ends in an undocumented word, is about to return from
it after its first cycle. -/
lemma Machine.parts_at_stray_return {rom : Rom} {m : Machine}
    (hrom : rom = ⟨"STRAY", [0x22, 0x04, 0x00, 0x00, 0x01, 0xEE], by decide⟩)
    (hm : m = (Machine.boot rom {} (.cycling #[])).actAll [.cycle]) :
    m.nextWord = 0x01EE ∧ m.executed? = some .ret ∧ m.counter = 0x204 ∧
      m.stack.frames = [0x202] := by
  have hprogram : (Machine.boot rom {} (.cycling #[])).HoldsProgram rom :=
    Machine.holdsProgram_of_image rfl
  subst hm hrom
  refine ⟨(Machine.nextWord_of_readRun hprogram rfl rfl).2,
    Machine.executed?_of_readRun hprogram rfl rfl, ?_, ?_⟩
  · rw [Machine.actAll_of_readRun hprogram rfl]
    rfl
  · rw [Machine.actAll_of_readRun hprogram rfl]
    rfl

/-- A program that calls a subroutine, which ends in the undocumented word `01EE`. The cycle takes
the newest frame off the stack, so the words documented as calls and returns are not all that
change it. -/
theorem stray_return_pops_stack :
    let rom : Rom := ⟨"STRAY", [0x22, 0x04, 0x00, 0x00, 0x01, 0xEE], by decide⟩
    let m := (Machine.boot rom {} (.cycling #[])).actAll [.cycle]
    m.cycle.result = .ok .none ∧ m.nextWord = 0x01EE ∧ m.stack.frames = [0x202] ∧
      m.cycle.machine.stack.frames = [] ∧ ¬ m.Confined (·.Fits "00EE") := by
  intro rom m
  obtain ⟨hword, hexecuted, -, hcalled⟩ :=
    Machine.parts_at_stray_return (rfl : rom = _) (rfl : m = _)
  have hreturned := Machine.frames_of_ret hexecuted
  rw [hcalled, List.tail_cons] at hreturned
  refine ⟨Machine.result_of_executed hexecuted, hword, hcalled, hreturned, fun hconfined => ?_⟩
  have hchanged : m.cycle.machine.stack ≠ m.stack := by
    intro hsame
    rw [hsame, hcalled] at hreturned
    cases hreturned
  -- the word has neither of the patterns that the table asks for
  rcases hconfined.stack hchanged with hfits | hfits <;>
  · rw [hword] at hfits
    exact absurd hfits (by decide)

end ChipEight
