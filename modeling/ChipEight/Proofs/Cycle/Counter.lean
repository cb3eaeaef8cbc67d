import Mathlib.Tactic
import ChipEight.Proofs.Cycle.Frame
import ChipEight.Proofs.Keypad.Accounting

/-!
Where a cycle takes the counter.

The fetch moves the counter behind the word, and the instruction moves it on from there. In terms
of the word and of the machine before the cycle there is one rule for both.

* `SkipHolds`, `skipHolds_iff`: whether the word is a skip whose condition holds.
* `CounterLaw`, `counterLaw`: the rule, and that every cycle that succeeds follows it. It leaves
  open which words return, and the words that are decoded to returns do.
* `stray_return_breaks_law`: the words documented as returns are not all that do.
* `Opposite`, `cycle_of_skip`: a skip and the one with the opposite condition, and what a cycle
  with a skip does. Asking for a key takes it, whichever outcome makes the machine skip.
* `skips_are_complementary`: so of two machines that differ in the one word only, one skips and
  the other does not, and they stay the same otherwise.
* `counter_follows_law`: the rule, and the law of opposite skips.
-/

namespace ChipEight

namespace Machine

/-! ### The rule -/

/-- Whether the word at the counter is a skip whose condition holds. -/
def SkipHolds (m : Machine) : Prop :=
  m.nextWord.Fits "3XNN" ∧ m.reg m.nextWord.x = m.nextWord.nn ∨
    m.nextWord.Fits "4XNN" ∧ m.reg m.nextWord.x ≠ m.nextWord.nn ∨
    m.nextWord.Fits "5XY_" ∧ m.reg m.nextWord.x = m.reg m.nextWord.y ∨
    m.nextWord.Fits "9XY_" ∧ m.reg m.nextWord.x ≠ m.reg m.nextWord.y ∨
    m.nextWord.Fits "EX9E" ∧ m.reg m.nextWord.x ∈ m.keypad.codes ∨
    m.nextWord.Fits "EXA1" ∧ m.reg m.nextWord.x ∉ m.keypad.codes

/-- Where the next cycle takes the counter, as far as it succeeds, if the given words return. -/
structure CounterLaw (m : Machine) (returns : Opcode → Prop) : Prop where
  /-- Jumps and calls go to the address that they name. -/
  jump : m.nextWord.Fits "1NNN" ∨ m.nextWord.Fits "2NNN" →
    m.cycle.machine.counter = m.nextWord.nnn
  /-- A jump with an offset adds a register to the address, and cuts nothing off. -/
  jumpOffset : m.nextWord.Fits "BNNN" →
    m.cycle.machine.counter = m.nextWord.nnn + (m.reg .first).toNat
  /-- A return goes to the newest address on the stack. -/
  ret : returns m.nextWord → m.stack.frames.head? = some m.cycle.machine.counter
  /-- Waiting for a key stays where it is. -/
  wait : m.nextWord.Fits "FX0A" → m.keypad.pending = [] → m.cycle.machine.counter = m.counter
  /-- A skip whose condition holds leaves one word out. -/
  skip : m.SkipHolds → m.cycle.machine.counter = m.counter + 4
  /-- Everything else goes on with the next word. -/
  next : ¬ (m.nextWord.Fits "1NNN" ∨ m.nextWord.Fits "2NNN") → ¬ m.nextWord.Fits "BNNN" →
    ¬ returns m.nextWord → ¬ (m.nextWord.Fits "FX0A" ∧ m.keypad.pending = []) →
    ¬ m.SkipHolds → m.cycle.machine.counter = m.counter + 2

variable {m : Machine}

/-- A skip holds exactly if its test comes out as the instruction expects. -/
lemma skipHolds_iff :
    m.SkipHolds ↔ ∃ test expected,
      (Instruction.skip test expected).Spelled m.nextWord ∧ (m.ask test).1 = expected := by
  have hholds : ∀ code, m.keypad.holds code = false ↔ code ∉ m.keypad.codes := fun code => by
    rw [← Keypad.holds_iff, Bool.not_eq_true]
  constructor
  · rintro (⟨h, hc⟩ | ⟨h, hc⟩ | ⟨h, hc⟩ | ⟨h, hc⟩ | ⟨h, hc⟩ | ⟨h, hc⟩)
    · exact ⟨.byte _ _, true, ⟨h, rfl, rfl⟩, beq_iff_eq.mpr hc⟩
    · exact ⟨.byte _ _, false, ⟨h, rfl, rfl⟩, beq_eq_false_iff_ne.mpr hc⟩
    · exact ⟨.register _ _, true, ⟨h, rfl, rfl⟩, beq_iff_eq.mpr hc⟩
    · exact ⟨.register _ _, false, ⟨h, rfl, rfl⟩, beq_eq_false_iff_ne.mpr hc⟩
    · exact ⟨.key _, true, ⟨h, rfl⟩, Keypad.holds_iff.mpr hc⟩
    · exact ⟨.key _, false, ⟨h, rfl⟩, (hholds _).mpr hc⟩
  · rintro ⟨test, expected, ⟨h, hoperands⟩, hc⟩
    cases test with
    | byte x value =>
        obtain ⟨rfl, rfl⟩ := hoperands
        cases expected with
        | true => exact .inl ⟨h, beq_iff_eq.mp hc⟩
        | false => exact .inr (.inl ⟨h, beq_eq_false_iff_ne.mp hc⟩)
    | register x y =>
        obtain ⟨rfl, rfl⟩ := hoperands
        cases expected with
        | true => exact .inr (.inr (.inl ⟨h, beq_iff_eq.mp hc⟩))
        | false => exact .inr (.inr (.inr (.inl ⟨h, beq_eq_false_iff_ne.mp hc⟩)))
    | key x =>
        obtain rfl := hoperands
        cases expected with
        | true => exact .inr (.inr (.inr (.inr (.inl ⟨h, Keypad.holds_iff.mp hc⟩))))
        | false => exact .inr (.inr (.inr (.inr (.inr ⟨h, (hholds _).mp hc⟩))))

/-- The fetch does not change what a test comes to. -/
lemma ask_fetched (m : Machine) (word : Opcode) (test : Test Register) :
    (m.fetched word).ask test = ((m.ask test).1, (m.ask test).2.fetched word) := by
  cases test <;> rfl

/-- The counter after a cycle, from the instruction that the word is written for. -/
lemma counter_of_spelled {operation : Operation} {i : Instruction Register}
    (h : m.cycle.result = .ok operation) (hi : i.Spelled m.nextWord) :
    m.executed? = some i ∧
      m.cycle.machine.counter = ((m.fetched m.nextWord).moveOf i).apply (m.counter + 2) := by
  have hexecuted : m.executed? = some i := by
    rw [executed?, h]
    exact Instruction.decode?_eq_some_iff.mpr hi
  exact ⟨hexecuted, counter_of_executed hexecuted⟩

/-- A return that succeeds goes to the newest frame. -/
lemma head?_of_ret (h : m.executed? = some .ret) :
    m.stack.frames.head? = some m.cycle.machine.counter := by
  obtain ⟨e, hexecute, -, hmachine⟩ := execute_of_executed h
  obtain ⟨address, stack, hpop, rfl⟩ := execute_ret_ok hexecute
  rw [CallStack.frames_of_pop (s := m.stack) hpop, hmachine]
  rfl

/-- Every cycle that succeeds follows the rule, where all words return that are decoded so. -/
theorem counterLaw {operation : Operation} (h : m.cycle.result = .ok operation) :
    m.CounterLaw Opcode.Returns where
  jump := by
    rintro (hfits | hfits)
    · exact (counter_of_spelled (i := .jump _) h ⟨hfits, rfl⟩).2
    · exact (counter_of_spelled (i := .call _) h ⟨hfits, rfl⟩).2
  jumpOffset hfits := (counter_of_spelled (i := .jumpOffset _) h ⟨hfits, rfl⟩).2
  ret hreturns := head?_of_ret (counter_of_spelled (i := .ret) h hreturns).1
  wait hfits hpending := by
    have hempty : (m.fetched m.nextWord).keypad.isEmpty = true := by
      show m.keypad.pending.isEmpty = true
      rw [hpending]
      rfl
    rw [(counter_of_spelled (i := .awaitKey _) h ⟨hfits, rfl⟩).2, moveOf, if_pos hempty,
      Movement.apply_rewind_add_two]
  skip hholds := by
    obtain ⟨test, expected, hspelled, houtcome⟩ := skipHolds_iff.mp hholds
    rw [(counter_of_spelled h hspelled).2, moveOf, ask_fetched, houtcome, beq_self_eq_true]
    rfl
  next hjump hoffset hret hwait hskip := by
    cases hexecuted : m.executed? with
    | none =>
        obtain ⟨crash, hcrash⟩ := result_of_crashed hexecuted
        rw [h] at hcrash
        cases hcrash
    | some i =>
        have hspelled := Instruction.decode?_eq_some_iff.mp (decode_of_executed hexecuted)
        rw [counter_of_executed hexecuted]
        cases i with
        | jump target => exact absurd (.inl hspelled.1) hjump
        | call target => exact absurd (.inr hspelled.1) hjump
        | jumpOffset base => exact absurd hspelled.1 hoffset
        | ret => exact absurd hspelled hret
        | skip test expected =>
            have hne : ((m.ask test).1 == expected) = false := by
              rw [beq_eq_false_iff_ne]
              exact fun houtcome => hskip (skipHolds_iff.mpr ⟨test, expected, hspelled, houtcome⟩)
            rw [moveOf, ask_fetched, hne]
            rfl
        | awaitKey x =>
            have hkey : ¬ (m.fetched m.nextWord).keypad.isEmpty = true := fun hempty =>
              hwait ⟨hspelled.1, List.isEmpty_iff.mp hempty⟩
            rw [moveOf, if_neg hkey]
            rfl
        | _ => rfl

end Machine

/-! ### Opposite skips -/

/-- Whether two words are a skip and the one with the opposite condition on the same operands. -/
inductive Opposite (word other : Opcode) : Prop where
  | byte (hword : word.Fits "3XNN") (hother : other.Fits "4XNN") (hx : other.x = word.x)
      (hnn : other.nn = word.nn)
  | register (hword : word.Fits "5XY_") (hother : other.Fits "9XY_") (hx : other.x = word.x)
      (hy : other.y = word.y)
  | key (hword : word.Fits "EX9E") (hother : other.Fits "EXA1") (hx : other.x = word.x)

/-- Opposite words are skips on one test, and expect opposite outcomes. -/
lemma Opposite.exists_test {word other : Opcode} (h : Opposite word other) :
    ∃ test, (Instruction.skip test true).Spelled word ∧
      (Instruction.skip test false).Spelled other := by
  cases h with
  | byte hword hother hx hnn =>
      exact ⟨.byte word.x word.nn, ⟨hword, rfl, rfl⟩, ⟨hother, hx, hnn⟩⟩
  | register hword hother hx hy =>
      exact ⟨.register word.x word.y, ⟨hword, rfl, rfl⟩, ⟨hother, hx, hy⟩⟩
  | key hword hother hx => exact ⟨.key word.x, ⟨hword, rfl⟩, ⟨hother, hx⟩⟩

namespace Machine

/-- Whether two machines are the same but for their counters, the words they fetched last and the
two bytes at an address. -/
structure SameButWord (address : ℕ) (m k : Machine) : Prop where
  /-- The other parts are the same. -/
  parts : k = { m with counter := k.counter, opcode := k.opcode, memory := k.memory }
  /-- The other bytes are the same. -/
  bytes : ∀ a, a ≠ address → a ≠ address + 1 → k.memory.byteAt a = m.memory.byteAt a

variable {m : Machine}

/-- A cycle with a skip asks, moves the counter, and counts down. -/
lemma cycle_of_skip {test : Test Register} {expected : Bool} (hcounter : m.counter ≤ 0xFFE)
    (h : (Instruction.skip test expected).Spelled m.nextWord) :
    m.cycle.result = .ok .none ∧
      m.cycle.machine =
        { (m.ask test).2 with
          counter := m.counter + if (m.ask test).1 = expected then 4 else 2
          opcode := m.nextWord
          dirty := false
          delay := m.delay.tick
          sound := m.sound.tick } := by
  have hexecute : (m.fetched m.nextWord).execute (.skip test expected) =
      .ok { machine := (m.ask test).2.fetched m.nextWord
            move := .skipIf ((m.ask test).1 == expected) } := by
    simp only [execute, ask_fetched]
  obtain ⟨hresult, hmachine⟩ := cycle_of_spelled hcounter h hexecute
  refine ⟨hresult, ?_⟩
  have hmove : (Movement.skipIf ((m.ask test).1 == expected)).apply (m.counter + 2) =
      m.counter + if (m.ask test).1 = expected then 4 else 2 := by
    by_cases houtcome : (m.ask test).1 = expected
    · simp [houtcome, Movement.skipIf]
    · simp [houtcome, Movement.skipIf]
  rw [hmachine, settle, ← hmove]
  cases test <;> rfl

/-- Tests do not look at the memory, the counter or the word fetched last, nor change them. -/
lemma ask_congr {k : Machine} {address : ℕ} (h : SameButWord address m k) (test : Test Register) :
    (k.ask test).1 = (m.ask test).1 ∧ SameButWord address (m.ask test).2 (k.ask test).2 := by
  obtain ⟨hparts, hbytes⟩ := h
  generalize k.counter = counter, k.opcode = opcode, k.memory = memory at hparts hbytes
  subst hparts
  cases test with
  | _ => exact ⟨rfl, rfl, hbytes⟩

/-- Of two machines that differ in nothing but an opposite skip at the counter, one skips and the
other does not, and the rest of them stays the same. -/
theorem skips_are_complementary {k : Machine} (hsame : SameButWord m.counter m k)
    (hmeet : k.counter = m.counter) (hcounter : m.counter ≤ 0xFFE)
    (hopposite : Opposite m.nextWord k.nextWord) :
    (m.cycle.result = .ok .none ∧ k.cycle.result = .ok .none) ∧
      (m.cycle.machine.counter = m.counter + 4 ∧ k.cycle.machine.counter = m.counter + 2 ∨
        m.cycle.machine.counter = m.counter + 2 ∧ k.cycle.machine.counter = m.counter + 4) ∧
      SameButWord m.counter m.cycle.machine k.cycle.machine := by
  obtain ⟨test, hword, hother⟩ := hopposite.exists_test
  obtain ⟨houtcome, hasked⟩ := ask_congr hsame test
  obtain ⟨hresult, hmachine⟩ := cycle_of_skip hcounter hword
  obtain ⟨hresult', hmachine'⟩ := cycle_of_skip (hmeet ▸ hcounter) hother
  refine ⟨⟨hresult, hresult'⟩, ?_, ?_⟩
  · rw [hmachine, hmachine', houtcome, hmeet]
    cases (m.ask test).1
    · exact .inr ⟨rfl, rfl⟩
    · exact .inl ⟨rfl, rfl⟩
  · have hdelay : k.delay = m.delay := by rw [hsame.parts]
    have hsound : k.sound = m.sound := by rw [hsame.parts]
    refine ⟨?_, ?_⟩
    · rw [hmachine, hmachine', hdelay, hsound, hasked.parts]
    · rw [hmachine, hmachine']
      exact hasked.bytes

/-- A skip on a key takes the key, whichever outcome it expects. -/
lemma codes_of_skip {expected : Bool} {x : Register} (hcounter : m.counter ≤ 0xFFE)
    (h : (Instruction.skip (.key x) expected).Spelled m.nextWord) :
    m.cycle.machine.keypad.codes = m.keypad.codes.filter (· != m.reg x) := by
  rw [(cycle_of_skip hcounter h).2]
  exact m.keypad.codes_release (m.reg x)

end Machine

/-! ### The law -/

/-- Every cycle that succeeds takes the counter where the rule says: to the address of a jump or
call, to that address and `V0` together, to the newest frame, nowhere while it waits for a key,
over one word if a skip holds, and to the next word in all other cases. The words that return are
the documented one and the undocumented ones that end in the same byte. Opposite skips are
complementary: of two machines that differ in nothing but the skip at the counter, one moves by
four and the other by two, they are the same otherwise, and skips on a key take it from both. -/
theorem counter_follows_law (m : Machine) :
    (∀ operation, m.cycle.result = .ok operation → m.CounterLaw Opcode.Returns) ∧
      ∀ k : Machine, Machine.SameButWord m.counter m k → k.counter = m.counter →
        m.counter ≤ 0xFFE → Opposite m.nextWord k.nextWord →
          (m.cycle.result = .ok .none ∧ k.cycle.result = .ok .none) ∧
          (m.cycle.machine.counter = m.counter + 4 ∧ k.cycle.machine.counter = m.counter + 2 ∨
            m.cycle.machine.counter = m.counter + 2 ∧ k.cycle.machine.counter = m.counter + 4) ∧
          Machine.SameButWord m.counter m.cycle.machine k.cycle.machine ∧
          (m.nextWord.Fits "EX9E" →
            m.cycle.machine.keypad.codes =
                m.keypad.codes.filter (· != m.reg m.nextWord.x) ∧
              k.cycle.machine.keypad = m.cycle.machine.keypad) := by
  refine ⟨fun _ => Machine.counterLaw, fun k hsame hmeet hcounter hopposite => ?_⟩
  obtain ⟨hresults, hcounters, hafter⟩ :=
    Machine.skips_are_complementary hsame hmeet hcounter hopposite
  refine ⟨hresults, hcounters, hafter, fun hkey => ⟨?_, by rw [hafter.parts]⟩⟩
  have hspelled : (Instruction.skip (.key m.nextWord.x) true).Spelled m.nextWord := ⟨hkey, rfl⟩
  exact Machine.codes_of_skip hcounter hspelled

/-- The key that the register names is pressed. The skip that wants it pressed leaves one word
out, the opposite one goes on with the next word, and the key is taken both times. -/
theorem counter_follows_law_at_pressed_key :
    let rom : Rom := ⟨"SKIP", [0xE1, 0x9E], by decide⟩
    let m := (Machine.boot rom {} (.cycling #[])).press 0
    let k : Machine := { m with memory := m.memory.overlay 0x200 [0xE1, 0xA1] }
    (m.counter ≤ 0xFFE ∧ Machine.SameButWord m.counter m k ∧ Opposite m.nextWord k.nextWord) ∧
      m.CounterLaw Opcode.Returns ∧
      (m.cycle.machine.counter = 0x204 ∧ k.cycle.machine.counter = 0x202) ∧
      m.keypad.codes = [0] ∧ m.cycle.machine.keypad.codes = [] ∧
      k.cycle.machine.keypad = m.cycle.machine.keypad := by
  intro rom m k
  have hword : m.nextWord = 0xE19E :=
    (Machine.nextWord_boot rfl {} (.cycling #[])).trans (by decide)
  have hother : k.nextWord = 0xE1A1 := by
    have hhigh : k.memory.byteAt 0x200 = 0xE1 := Memory.byteAt_overlay _ _ _ (by decide)
    have hlow : k.memory.byteAt 0x201 = 0xA1 := Memory.byteAt_overlay _ _ _ (by decide)
    show Opcode.ofBytes (k.memory.byteAt 0x200) (k.memory.byteAt 0x201) = _
    rw [hhigh, hlow]
    decide
  have hsame : Machine.SameButWord m.counter m k := by
    refine ⟨rfl, fun a hhigh hlow => ?_⟩
    by_contra hne
    obtain ⟨hle, hlt⟩ := Memory.bounds_of_overlay_ne hne
    have hcounter : m.counter = 0x200 := rfl
    have hlength : [(0xE1 : UInt8), 0xA1].length = 2 := rfl
    omega
  have hopposite : Opposite m.nextWord k.nextWord := by
    rw [hword, hother]
    exact .key (by decide) (by decide) rfl
  have hcodes : m.keypad.codes = [0] := by decide
  have hreg : m.reg m.nextWord.x = 0 := Registers.get_zero _
  have hcounter : m.counter ≤ 0xFFE := by decide
  obtain ⟨hlaw, hskips⟩ := counter_follows_law m
  obtain ⟨⟨hresult, -⟩, hcounters, -, hkeys⟩ := hskips k hsame rfl hcounter hopposite
  have hfits : m.nextWord.Fits "EX9E" := by rw [hword]; decide
  obtain ⟨htaken, hboth⟩ := hkeys hfits
  have hfour : m.cycle.machine.counter = m.counter + 4 := by
    refine (hlaw .none hresult).skip (.inr (.inr (.inr (.inr (.inl ⟨hfits, ?_⟩)))))
    rw [hreg, hcodes]
    decide
  refine ⟨⟨hcounter, hsame, hopposite⟩, hlaw .none hresult, ⟨hfour, ?_⟩, hcodes, ?_, hboth⟩
  · rcases hcounters with ⟨-, htwo⟩ | ⟨htwo, -⟩
    · exact htwo
    · omega
  · rw [htaken, hreg, hcodes]
    decide

/-- A program that calls a subroutine, which ends in the undocumented word `01EE`. The cycle goes
back to the newest frame, so the words documented as returns are not all that return. -/
theorem stray_return_breaks_law :
    let rom : Rom := ⟨"STRAY", [0x22, 0x04, 0x00, 0x00, 0x01, 0xEE], by decide⟩
    let m := (Machine.boot rom {} (.cycling #[])).actAll [.cycle]
    m.cycle.result = .ok .none ∧ m.counter = 0x204 ∧ m.nextWord = 0x01EE ∧
      m.cycle.machine.counter = 0x202 ∧ ¬ m.CounterLaw (·.Fits "00EE") := by
  intro rom m
  obtain ⟨hword, hexecuted, hcounter, hframes⟩ :=
    Machine.parts_at_stray_return (rfl : rom = _) (rfl : m = _)
  have hreturned : m.cycle.machine.counter = 0x202 := by
    have hhead := Machine.head?_of_ret hexecuted
    rw [hframes] at hhead
    exact (Option.some.inj hhead).symm
  refine ⟨Machine.result_of_executed hexecuted, hcounter, hword, hreturned, fun hlaw => ?_⟩
  -- the word has none of the patterns that the rule asks for
  have hnext : m.cycle.machine.counter = m.counter + 2 := by
    apply hlaw.next <;> simp only [Machine.SkipHolds, hword] <;> decide
  omega

end ChipEight
