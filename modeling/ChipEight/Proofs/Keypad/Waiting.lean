import Mathlib.Tactic
import ChipEight.Proofs.Keypad.Accounting
import ChipEight.Proofs.Timers.Countdown

/-!
Waiting for a key.

The fetch moves the counter behind the word, the instruction moves it back, and so the machine
waits on one word for as long as no key is pending.

* `Waits`: a machine that is about to wait.
* `cycle_of_wait`, `cycle_of_key`: what a cycle does to it while no key is pending, and once one is.
* `Spun`, `spun_of_waits`: what any number of such cycles leaves behind. Only the word fetched last,
  the flag for drawing and the timers tell that time has passed.
* `codes_foldl_press`: what a list of presses leaves pending. Codes without a key are dropped, and
  of the others the first occurrences are kept.
* `waiting_is_a_spin`: any number of cycles, then any presses with a key among them, then the cycle
  that ends the wait.
-/

namespace ChipEight

/-! ### Lists of presses -/

namespace Keypad

/-- Whether there is a key with a code. -/
def valid (code : UInt8) : Bool := code.toNat < 16

/-- Presses queue the codes that have a key and are not pending yet, in the order in which they
occur first. -/
lemma codes_foldl_press (k : Keypad) (codes : List UInt8) :
    (codes.foldl press k).codes =
      k.codes ++ (codes.filter fun code => valid code && !k.holds code).eraseDups := by
  induction codes generalizing k with
  | nil => simp
  | cons code codes ih =>
      have hpress := k.codes_press code
      rw [List.foldl_cons, ih, List.filter_cons]
      -- a code that is queued here is pending from here on, and dropped when it comes again
      by_cases hnew : code.toNat < 16 ∧ k.holds code = false
      · have hholds : ∀ other, (k.press code).holds other = (k.holds other || other == code) := by
          intro other
          rw [Bool.eq_iff_iff, holds_iff, hpress, if_pos hnew]
          simp [holds_iff]
        rw [hpress, if_pos hnew, if_pos (by simpa [valid] using hnew), List.eraseDups_cons,
          List.filter_filter, List.append_assoc, List.singleton_append]
        simp only [hholds, Bool.not_or]
        refine congrArg (fun rest => _ ++ code :: List.eraseDups rest) (List.filter_congr ?_)
        intro other _
        ac_rfl
      · have hholds : ∀ other, (k.press code).holds other = k.holds other := by
          intro other
          rw [Bool.eq_iff_iff, holds_iff, hpress, if_neg hnew, holds_iff]
        rw [hpress, if_neg hnew, if_neg (by simpa [valid] using hnew)]
        simp only [hholds]

/-- If no key is pending, the first code with a key comes to the front, and the others with a key
behind it. -/
lemma codes_foldl_press_of_find? {k : Keypad} {codes : List UInt8} {first : UInt8}
    (hempty : k.pending = []) (hfirst : codes.find? valid = some first) :
    (codes.foldl press k).codes =
      first :: (codes.filter fun code => valid code && code != first).eraseDups := by
  have hvalid : codes.filter (fun code => valid code && !k.holds code) = codes.filter valid := by
    simp [holds, hempty]
  have hnone : k.codes = [] := by rw [Keypad.codes, hempty, List.map_nil]
  obtain ⟨rest, hrest⟩ : ∃ rest, codes.filter valid = first :: rest := by
    rw [← List.head?_eq_some_iff, List.head?_filter, hfirst]
  have hothers : rest.filter (fun code => !code == first) =
      codes.filter fun code => valid code && code != first := by
    rw [← List.filter_cons_of_neg (a := first) (by simp), ← hrest, List.filter_filter]
    exact List.filter_congr fun code _ => Bool.and_comm _ _
  rw [codes_foldl_press, hvalid, hnone, hrest, List.eraseDups_cons, hothers, List.nil_append]

lemma popEarliest_of_codes {k : Keypad} {code : UInt8} {codes : List UInt8}
    (h : k.codes = code :: codes) :
    ∃ key rest, k.popEarliest = some (key, rest) ∧ key.code = code ∧ rest.codes = codes := by
  cases hpop : k.popEarliest with
  | none =>
      rw [Keypad.codes, popEarliest_eq_none_iff.mp hpop] at h
      cases h
  | some popped =>
      obtain ⟨key, rest⟩ := popped
      rw [codes_of_popEarliest hpop, List.cons.injEq] at h
      exact ⟨key, rest, rfl, h.1, h.2⟩

end Keypad

namespace Machine

variable {m k : Machine}

lemma pressAll_eq (m : Machine) (codes : List UInt8) :
    m.pressAll codes = { m with keypad := codes.foldl Keypad.press m.keypad } := by
  induction codes generalizing m with
  | nil => rfl
  | cons code codes ih => exact ih (m.press code)

/-! ### One cycle -/

/-- Whether the word at the counter waits for a key, and none is pending. -/
structure Waits (m : Machine) : Prop where
  /-- The counter lies inside the memory. -/
  counter : m.counter ≤ 0xFFE
  /-- The word waits. -/
  word : m.nextWord.Fits "FX0A"
  /-- No key is pending. -/
  pending : m.keypad.pending = []

/-- The machine after a cycle that does nothing but fetch a word and count down. -/
def idle (m : Machine) : Machine :=
  { m with
    opcode := m.nextWord
    dirty := false
    delay := m.delay.tick
    sound := m.sound.tick }

/-- Without a pending key, the cycle has the host go on and leaves the counter where it is. -/
lemma cycle_of_wait (h : m.Waits) : m.cycle.result = .ok .wait ∧ m.cycle.machine = m.idle := by
  have hspelled : (Instruction.awaitKey m.nextWord.x).Spelled m.nextWord := ⟨h.word, rfl⟩
  have hpop : (m.fetched m.nextWord).keypad.popEarliest = none :=
    Keypad.popEarliest_eq_none_iff.mpr h.pending
  have hexecute : (m.fetched m.nextWord).execute (.awaitKey m.nextWord.x) =
      .ok { machine := m.fetched m.nextWord, move := .rewind, operation := .wait } := by
    simp only [execute, hpop]
  obtain ⟨hresult, hmachine⟩ := cycle_of_spelled h.counter hspelled hexecute
  refine ⟨hresult, ?_⟩
  have hcounter : Movement.rewind.apply (m.fetched m.nextWord).counter = m.counter :=
    Movement.apply_rewind_add_two m.counter
  rw [hmachine, settle, hcounter]
  rfl

/-- With a pending key, the cycle puts the oldest one into the register and goes on. -/
lemma cycle_of_key {key : Key} {rest : Keypad} (hcounter : m.counter ≤ 0xFFE)
    (hword : m.nextWord.Fits "FX0A") (hpop : m.keypad.popEarliest = some (key, rest)) :
    m.cycle.result = .ok .none ∧
      m.cycle.machine =
        { m.idle with
          registers := m.registers.set m.nextWord.x key.code
          counter := m.counter + 2
          keypad := rest } := by
  have hspelled : (Instruction.awaitKey m.nextWord.x).Spelled m.nextWord := ⟨hword, rfl⟩
  have hfetched : (m.fetched m.nextWord).keypad.popEarliest = some (key, rest) := hpop
  have hexecute : (m.fetched m.nextWord).execute (.awaitKey m.nextWord.x) =
      .ok { machine := { (m.fetched m.nextWord).setReg m.nextWord.x key.code with
              keypad := rest } } := by
    simp only [execute, hfetched]
  exact cycle_of_spelled hcounter hspelled hexecute

lemma Waits.idle (h : m.Waits) : m.idle.Waits := ⟨h.counter, h.word, h.pending⟩

/-! ### Any number of cycles -/

/-- Whether one machine is another one that has waited for a number of cycles. -/
structure Spun (m : Machine) (n : ℕ) (k : Machine) : Prop where
  /-- The other parts are the same. -/
  parts : k = { m with opcode := k.opcode, dirty := k.dirty, delay := k.delay, sound := k.sound }
  /-- The first cycle has fetched the word that waits. -/
  word : 0 < n → k.opcode = m.nextWord ∧ k.dirty = false
  /-- The timers have gone on, down to zero. -/
  timers : ∀ c, (k.clock c).value.toNat = (m.clock c).value.toNat - n

lemma Spun.zero (m : Machine) : Spun m 0 m :=
  ⟨rfl, fun h => absurd h (lt_irrefl 0), fun _ => rfl⟩

lemma Spun.idle {n : ℕ} (h : Spun m n k) : Spun m (n + 1) k.idle := by
  have hword : k.nextWord = m.nextWord := by rw [h.parts]; rfl
  refine ⟨?_, fun _ => ⟨hword, rfl⟩, fun c => ?_⟩
  · exact congrArg (fun machine : Machine =>
      { machine with
        opcode := k.nextWord, dirty := false
        delay := k.delay.tick, sound := k.sound.tick }) h.parts
  · have htick : (k.idle.clock c).value.toNat = (k.clock c).value.toNat - 1 := by
      cases c <;> exact Timer.toNat_tick _
    rw [htick, h.timers, Nat.sub_sub]

lemma Spun.waits {n : ℕ} (h : Spun m n k) (hwaits : m.Waits) : k.Waits := by
  rw [h.parts]
  exact ⟨hwaits.counter, hwaits.word, hwaits.pending⟩

/-- While no key is pressed, a machine that waits goes on waiting. -/
theorem spun_of_waits (h : m.Waits) (n : ℕ) :
    Spun m n (m.actAll (List.replicate n .cycle)) := by
  induction n with
  | zero => exact .zero m
  | succ n ih =>
      rw [List.replicate_succ', actAll_concat, act, (cycle_of_wait (ih.waits h)).2]
      exact ih.idle

/-- Once keys are pressed, the first of them ends the wait, and the others stay pending. Beyond
that the cycle does what one more cycle of waiting does. -/
theorem cycle_of_presses {codes : List UInt8} {first : UInt8} (h : m.Waits)
    (hfirst : codes.find? Keypad.valid = some first) :
    let next := (m.pressAll codes).cycle
    next.result = .ok .none ∧
      next.machine.registers = m.registers.set m.nextWord.x first ∧
      next.machine.counter = m.counter + 2 ∧
      next.machine.keypad.codes =
        (codes.filter fun code => Keypad.valid code && code != first).eraseDups ∧
      { next.machine with
        registers := m.registers, counter := m.counter, keypad := m.keypad } = m.idle := by
  intro next
  have hpressed := m.pressAll_eq codes
  have hcodes := Keypad.codes_foldl_press_of_find? h.pending hfirst
  obtain ⟨key, rest, hpop, hkey, hrest⟩ := Keypad.popEarliest_of_codes hcodes
  have hcounter : (m.pressAll codes).counter ≤ 0xFFE := by rw [hpressed]; exact h.counter
  have hword : (m.pressAll codes).nextWord.Fits "FX0A" := by rw [hpressed]; exact h.word
  have holdest : (m.pressAll codes).keypad.popEarliest = some (key, rest) := by
    rw [hpressed]
    exact hpop
  obtain ⟨hresult, hmachine⟩ := cycle_of_key hcounter hword holdest
  refine ⟨hresult, ?_, ?_, ?_, ?_⟩
  · rw [hmachine, hkey, hpressed]
    rfl
  · rw [hmachine, hpressed]
  · rw [hmachine, ← hrest]
  · rw [hmachine, hpressed]
    rfl

end Machine

/-- Waiting for a key is a spin. However many cycles a machine waits, each of them has the host go
on, and they change nothing but the word fetched last, the flag for drawing and the timers. If
keys are pressed then, any list of codes with a key among them, the next cycle puts the first code
with a key into the register and goes on behind the word. Of the other codes with a key it leaves
each one pending once, in the order in which they occur first. -/
theorem waiting_is_a_spin {m : Machine} (hwaits : m.Waits) (n : ℕ) :
    let k := m.actAll (List.replicate n .cycle)
    (∀ i < n, (m.actAll (List.replicate i .cycle)).cycle.result = .ok .wait) ∧
      Machine.Spun m n k ∧
      ∀ codes : List UInt8, (∃ code ∈ codes, code.toNat < 16) →
        ∃ first, codes.find? Keypad.valid = some first ∧
          let next := (k.pressAll codes).cycle
          next.result = .ok .none ∧
          next.machine.registers = m.registers.set m.nextWord.x first ∧
          next.machine.counter = m.counter + 2 ∧
          next.machine.keypad.codes =
            (codes.filter fun code => Keypad.valid code && code != first).eraseDups ∧
          Machine.Spun m (n + 1)
            { next.machine with
              registers := m.registers, counter := m.counter, keypad := m.keypad } := by
  intro k
  have hspun : Machine.Spun m n k := Machine.spun_of_waits hwaits n
  have hresults : ∀ i, (m.actAll (List.replicate i .cycle)).cycle.result = .ok .wait := fun i =>
    (Machine.cycle_of_wait ((Machine.spun_of_waits hwaits i).waits hwaits)).1
  refine ⟨fun i _ => hresults i, hspun, ?_⟩
  rintro codes ⟨code, hmem, hcode⟩
  have hsome : (codes.find? Keypad.valid).isSome := by
    rw [List.find?_isSome]
    exact ⟨code, hmem, decide_eq_true hcode⟩
  obtain ⟨first, hfirst⟩ := Option.isSome_iff_exists.mp hsome
  obtain ⟨hresult, hregisters, hcounter, hcodes, hrest⟩ :=
    Machine.cycle_of_presses (hspun.waits hwaits) hfirst
  have hkept : k.registers = m.registers ∧ k.counter = m.counter ∧ k.keypad = m.keypad ∧
      k.nextWord = m.nextWord := by
    rw [hspun.parts]
    exact ⟨rfl, rfl, rfl, rfl⟩
  obtain ⟨hsameRegisters, hsameCounter, hsameKeypad, hsameWord⟩ := hkept
  rw [hsameRegisters, hsameWord] at hregisters
  rw [hsameCounter] at hcounter
  rw [hsameRegisters, hsameCounter, hsameKeypad] at hrest
  refine ⟨first, hfirst, hresult, hregisters, hcounter, hcodes, ?_⟩
  rw [hrest]
  exact hspun.idle

/-- The last word of the memory waits for a key for `VF` while a timer runs out. Of the codes
pressed then, two have no key and two occur twice. -/
theorem waiting_is_a_spin_at_end_of_memory :
    let boot := Machine.boot ⟨"WAIT", [], by decide⟩ {} (.cycling #[])
    let m : Machine := { boot with
      counter := 0xFFE, delay := ⟨2⟩, memory := boot.memory.overlay 0xFFE [0xFF, 0x0A] }
    let waited := m.actAll (List.replicate 3 .cycle)
    let next := (waited.pressAll [0x10, 7, 3, 7, 0xFF, 0xA, 3]).cycle
    m.Waits ∧ m.cycle.result = .ok .wait ∧
      (waited.counter = 0xFFE ∧ (waited.clock .delay).value.toNat = 0) ∧
      next.result = .ok .none ∧ next.machine.reg .flag = 7 ∧ next.machine.counter = 0x1000 ∧
      next.machine.keypad.codes = [3, 0xA] := by
  intro boot m waited next
  have hword : m.nextWord = 0xFF0A := by
    have hhigh : m.memory.byteAt 0xFFE = 0xFF := Memory.byteAt_overlay _ _ _ (by decide)
    have hlow : m.memory.byteAt 0xFFF = 0x0A := Memory.byteAt_overlay _ _ _ (by decide)
    show Opcode.ofBytes (m.memory.byteAt 0xFFE) (m.memory.byteAt 0xFFF) = _
    rw [hhigh, hlow]
    decide
  have hcounter : m.counter = 0xFFE := rfl
  have hdelay : (m.clock .delay).value.toNat = 2 := rfl
  have hwaits : m.Waits := ⟨hcounter.le, by rw [hword]; decide, rfl⟩
  -- from here on only these facts count, and nothing has to look into the machine again
  clear_value m
  obtain ⟨hresults, hspun, hpresses⟩ := waiting_is_a_spin hwaits 3
  obtain ⟨first, hfirst, hresult, hregisters, hbehind, hcodes, -⟩ :=
    hpresses [0x10, 7, 3, 7, 0xFF, 0xA, 3] ⟨7, by decide, by decide⟩
  obtain rfl : first = 7 := by
    have hseven : [(0x10 : UInt8), 7, 3, 7, 0xFF, 0xA, 3].find? Keypad.valid = some 7 := by decide
    exact Option.some.inj (hfirst.symm.trans hseven)
  refine ⟨hwaits, hresults 0 (by decide), ⟨?_, ?_⟩, hresult, ?_, ?_, ?_⟩
  · exact (congrArg Machine.counter hspun.parts).trans hcounter
  · rw [hspun.timers, hdelay]
  · rw [Machine.reg, hregisters, hword, Registers.get_set, if_pos (by decide)]
  · rw [hbehind, hcounter]
  · rw [hcodes]
    decide

end ChipEight
