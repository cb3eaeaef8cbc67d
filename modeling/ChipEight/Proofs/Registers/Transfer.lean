import Mathlib.Tactic
import ChipEight.Proofs.Cycle.Frame
import ChipEight.Proofs.InPlace.Agreement

/-!
Registers on their way through the memory.

* `Machine.Performs`, `Machine.Permits`: an instruction that is carried out, on its own, by a host
  that changes the machine in place, or in the cycle that fetches a word for it; and that there is
  nothing in its way. `permits_of_extent`, `parts_of_performs`: when an instruction that needs bytes
  at the index register is permitted, and that it comes to the same in all three ways.
* `stored_of_performs`, `loaded_of_performs`, `digits_of_performs`: what storing registers, loading
  them and storing the digits of one do.
* `decimalDigits_eq`: a byte is the number of its three decimal digits.
* `reg_of_stored_loaded`, `memory_of_loaded_stored`, `slice_of_digits`, `reg_of_loaded_three`: what
  two of them come to, one after the other at the same place.
* `registers_survive_memory`: what was stored is loaded again, what was loaded can be stored without
  a trace, and digits are loaded as they were stored.
-/

namespace ChipEight

namespace Machine

variable {m k : Machine} {i : Instruction Register} {x : Register} {length : ℕ}

/-! ### Instructions that are carried out -/

/-- The ways in which a machine becomes another one by an instruction. -/
inductive Performs (m : Machine) (i : Instruction Register) : Machine → Prop where
  /-- The instruction is executed on its own. -/
  | alone (e : Execution) (hexecute : m.execute i = .ok e) : Performs m i e.machine
  /-- A host goes through the instruction in place. -/
  | inPlace (done : Movement × Operation) (k : Machine)
      (hrun : InPlace.execute i.numbered m = .done done k) : Performs m i k
  /-- The instruction is executed by a cycle. -/
  | cycle (hexecuted : m.executed? = some i) : Performs m i m.cycle.machine

/-- Whether a machine lets an instruction go through in each of these ways. -/
structure Permits (m : Machine) (i : Instruction Register) : Prop where
  /-- The instruction is not refused. -/
  alone : ∃ e, m.execute i = .ok e
  /-- A host comes to its end. -/
  inPlace : ∃ done k, InPlace.execute i.numbered m = .done done k
  /-- A cycle that fetches a word for the instruction does not crash. -/
  cycle : m.counter ≤ 0xFFE → i.Spelled m.nextWord → m.executed? = some i

/-- An instruction that needs bytes at the index register names no address. -/
lemma address?_of_extent (hextent : i.extent? = some length) : i.address? = none := by
  cases i <;> first | rfl | cases hextent

/-- A host does not trap on it either. -/
lemma inPlace_of_extent (hextent : i.extent? = some length) :
    InPlace.execute i.numbered m = InPlace.ofExecution m (m.execute i) := by
  refine InPlace.execute_numbered ?_ ?_
  · intro address haddress
    rw [address?_of_extent hextent] at haddress
    cases haddress
  · rintro ⟨x, rfl, -⟩
    cases hextent

/-- An instruction that needs bytes at the index register goes through if they lie in the
memory. -/
theorem permits_of_extent (hextent : i.extent? = some length)
    (hfits : m.index + length ≤ 4096) : m.Permits i := by
  obtain ⟨e, hexecute⟩ : ∃ e, m.execute i = .ok e := by
    cases hexecute : m.execute i with
    | ok e => exact ⟨e, rfl⟩
    | error fault =>
        obtain _ | _ | ⟨_, other, hother, hout⟩ := execute_eq_error_iff.mp hexecute
        · cases hextent
        · cases hextent
        · cases hextent.symm.trans hother
          omega
  refine ⟨⟨e, hexecute⟩, ?_, fun hcounter hspelled => ?_⟩
  · exact ⟨_, _, (inPlace_of_extent hextent).trans (by rw [hexecute]; rfl)⟩
  · exact executed?_of_extent hcounter (Instruction.decode?_eq_some_iff.mpr hspelled) hextent hfits

/-- In whichever way the instruction is carried out, the same becomes of the memory, the registers
and the index register. -/
theorem parts_of_performs (hextent : i.extent? = some length) (h : m.Performs i k) :
    k.memory = m.memoryAfter i ∧ k.registers = m.registersAfter i ∧ k.index = m.indexAfter i := by
  have hparts : ∀ e, m.execute i = .ok e → e.machine.memory = m.memoryAfter i ∧
      e.machine.registers = m.registersAfter i ∧ e.machine.index = m.indexAfter i := by
    intro e hexecute
    obtain ⟨stack, -, hmachine, -, -⟩ := execute_ok hexecute
    rw [hmachine]
    exact ⟨rfl, rfl, rfl⟩
  cases h with
  | alone e hexecute => exact hparts e hexecute
  | inPlace done k hrun =>
      rw [inPlace_of_extent hextent] at hrun
      cases hexecute : m.execute i with
      | error fault =>
          rw [hexecute] at hrun
          cases hrun
      | ok e =>
          rw [hexecute] at hrun
          cases hrun
          exact hparts e hexecute
  | cycle hexecuted =>
      exact ⟨memory_of_executed hexecuted, registers_of_executed hexecuted,
        index_of_executed hexecuted⟩

/-! ### Storing and loading -/

lemma stored_of_performs (h : m.Performs (.storeRegisters x) k) :
    k.memory = m.memory.overlay m.index (m.registers.upTo x) ∧ k.registers = m.registers ∧
      k.index = m.index + (x + 1) :=
  parts_of_performs rfl h

lemma loaded_of_performs (h : m.Performs (.loadRegisters x) k) :
    k.memory = m.memory ∧
      k.registers = m.registers.overwrite (m.memory.slice m.index (x + 1)) ∧
      k.index = m.index + (x + 1) :=
  parts_of_performs rfl h

lemma digits_of_performs (h : m.Performs (.storeDigits x) k) :
    k.memory = m.memory.overlay m.index (decimalDigits (m.reg x)) ∧ k.registers = m.registers ∧
      k.index = m.index :=
  parts_of_performs rfl h

/-- Storing writes to the cells from the index register on, one for each register. -/
lemma byteAt_of_stored (h : m.Performs (.storeRegisters x) k) {a : ℕ}
    (ha : a < m.index ∨ m.index + x < a) : k.memory.byteAt a = m.memory.byteAt a := by
  by_contra hne
  rw [(stored_of_performs h).1] at hne
  obtain ⟨hle, hlt⟩ := Memory.bounds_of_overlay_ne hne
  rw [Registers.length_upTo] at hlt
  omega

/-- A byte is the number of its three decimal digits. -/
lemma decimalDigits_eq (value : UInt8) :
    ∃ hundreds tens ones : UInt8, decimalDigits value = [hundreds, tens, ones] ∧
      (hundreds.toNat ≤ 9 ∧ tens.toNat ≤ 9 ∧ ones.toNat ≤ 9) ∧
      100 * hundreds.toNat + 10 * tens.toNat + ones.toNat = value.toNat := by
  have hlt := value.toNat_lt
  have hhundreds : (value / 100).toNat = value.toNat / 100 := UInt8.toNat_div _ _
  have htens : (value / 10 % 10).toNat = value.toNat / 10 % 10 :=
    (UInt8.toNat_mod _ _).trans (congrArg (· % 10) (UInt8.toNat_div _ _))
  have hones : (value % 10).toNat = value.toNat % 10 := UInt8.toNat_mod _ _
  exact ⟨_, _, _, rfl, by omega, by omega⟩

/-! ### There and back -/

section Trips

variable {stored loaded : Machine}

/-- Registers that are loaded from where some were stored hold what was stored, and the others hold
what they held before they were loaded. -/
lemma reg_of_stored_loaded (hfits : m.index + (x + 1) ≤ 4096)
    (hstored : m.Performs (.storeRegisters x) stored) (hmemory : k.memory = stored.memory)
    (hback : k.index = m.index) (hloaded : k.Performs (.loadRegisters x) loaded) (y : Register) :
    loaded.reg y = if y ≤ x then m.reg y else k.reg y := by
  have hcontains : Memory.Contains m.index (m.registers.upTo x).length := by
    rwa [Registers.length_upTo]
  have hslice : k.memory.slice k.index (x + 1) = m.registers.upTo x := by
    rw [hmemory, (stored_of_performs hstored).1, hback, ← Registers.length_upTo m.registers,
      Memory.slice_overlay _ hcontains]
  rw [reg, (loaded_of_performs hloaded).2.1, hslice, Registers.get_overwrite_upTo]
  rfl

/-- Registers that are stored where they were loaded from leave the memory as it was. -/
lemma memory_of_loaded_stored (hloaded : m.Performs (.loadRegisters x) loaded)
    (hmemory : k.memory = loaded.memory) (hregisters : k.registers = loaded.registers)
    (hback : k.index = m.index) (hstored : k.Performs (.storeRegisters x) stored) :
    stored.memory = m.memory := by
  obtain ⟨hkept, hwritten, -⟩ := loaded_of_performs hloaded
  have hlength : (m.memory.slice m.index (x + 1)).length = x + 1 := Memory.length_slice _ _ _
  rw [(stored_of_performs hstored).1, hmemory, hregisters, hback, hkept, hwritten,
    Registers.upTo_overwrite _ hlength, Memory.overlay_slice]

/-- The digits of a register stand at the index register. -/
lemma slice_of_digits (hfits : m.index + 3 ≤ 4096) (hstored : m.Performs (.storeDigits x) stored) :
    stored.memory.slice m.index 3 = decimalDigits (m.reg x) := by
  rw [(digits_of_performs hstored).1]
  have hcontains : Memory.Contains m.index (decimalDigits (m.reg x)).length := hfits
  exact Memory.slice_overlay _ hcontains

/-- Three bytes at the index register are loaded into the first three registers. -/
lemma reg_of_loaded_three {first second third : UInt8}
    (hslice : k.memory.slice k.index 3 = [first, second, third])
    (hloaded : k.Performs (.loadRegisters 2) loaded) :
    loaded.reg 0 = first ∧ loaded.reg 1 = second ∧ loaded.reg 2 = third := by
  have hregisters : loaded.registers = k.registers.overwrite [first, second, third] :=
    (loaded_of_performs hloaded).2.1.trans (congrArg _ hslice)
  simp only [reg, hregisters, Registers.get_overwrite]
  exact ⟨rfl, rfl, rfl⟩

end Trips

end Machine

/-- Registers survive a trip through the memory. Storing the registers up to a number touches no
other byte, and loading as many from where they were stored brings them back, whatever has happened
to the registers in between; the higher registers stay as they are then. Both move the index
register behind the bytes. Loading registers and storing them again at the same place leaves the
whole memory as it was. The digits of a register are its hundreds, tens and ones, they leave the
index register where it is, and loading three registers from there gives the digits. -/
theorem registers_survive_memory (m : Machine) (x : Register) :
    (m.index + (x + 1) ≤ 4096 →
      m.Permits (.storeRegisters x) ∧ ∀ stored, m.Performs (.storeRegisters x) stored →
        stored.index = m.index + (x + 1) ∧
        (∀ a, a < m.index ∨ m.index + x < a → stored.memory.byteAt a = m.memory.byteAt a) ∧
        ∀ k : Machine, k.memory = stored.memory → k.index = m.index →
          k.Permits (.loadRegisters x) ∧ ∀ loaded, k.Performs (.loadRegisters x) loaded →
            (∀ y, loaded.reg y = if y ≤ x then m.reg y else k.reg y) ∧
            loaded.index = m.index + (x + 1) ∧ loaded.memory = stored.memory) ∧
    (m.index + (x + 1) ≤ 4096 →
      m.Permits (.loadRegisters x) ∧ ∀ loaded, m.Performs (.loadRegisters x) loaded →
        ∀ k : Machine, k.memory = loaded.memory → k.registers = loaded.registers →
          k.index = m.index →
          k.Permits (.storeRegisters x) ∧ ∀ stored, k.Performs (.storeRegisters x) stored →
            stored.memory = m.memory) ∧
    (m.index + 3 ≤ 4096 →
      m.Permits (.storeDigits x) ∧ ∀ stored, m.Performs (.storeDigits x) stored →
        stored.index = m.index ∧
        ∃ hundreds tens ones : UInt8,
          (hundreds.toNat ≤ 9 ∧ tens.toNat ≤ 9 ∧ ones.toNat ≤ 9) ∧
          100 * hundreds.toNat + 10 * tens.toNat + ones.toNat = (m.reg x).toNat ∧
          stored.memory.slice m.index 3 = [hundreds, tens, ones] ∧
          ∀ k : Machine, k.memory = stored.memory → k.index = stored.index →
            k.Permits (.loadRegisters 2) ∧ ∀ loaded, k.Performs (.loadRegisters 2) loaded →
              loaded.reg 0 = hundreds ∧ loaded.reg 1 = tens ∧ loaded.reg 2 = ones) := by
  refine ⟨fun hfits => ⟨Machine.permits_of_extent rfl hfits, fun stored hstored => ?_⟩,
    fun hfits => ⟨Machine.permits_of_extent rfl hfits, fun loaded hloaded => ?_⟩,
    fun hfits => ⟨Machine.permits_of_extent rfl hfits, fun stored hstored => ?_⟩⟩
  · refine ⟨(Machine.stored_of_performs hstored).2.2, fun a => Machine.byteAt_of_stored hstored,
      fun k hmemory hback => ⟨Machine.permits_of_extent rfl (by rwa [hback]), ?_⟩⟩
    intro loaded hloaded
    obtain ⟨hkept, -, hindex⟩ := Machine.loaded_of_performs hloaded
    exact ⟨Machine.reg_of_stored_loaded hfits hstored hmemory hback hloaded, by rw [hindex, hback],
      hkept.trans hmemory⟩
  · intro k hmemory hregisters hback
    exact ⟨Machine.permits_of_extent rfl (by rwa [hback]), fun stored =>
      Machine.memory_of_loaded_stored hloaded hmemory hregisters hback⟩
  · obtain ⟨-, -, hindex⟩ := Machine.digits_of_performs hstored
    obtain ⟨hundreds, tens, ones, hdigits, hbounds, hvalue⟩ := Machine.decimalDigits_eq (m.reg x)
    have hslice := (Machine.slice_of_digits hfits hstored).trans hdigits
    refine ⟨hindex, hundreds, tens, ones, hbounds, hvalue, hslice, fun k hmemory hback => ?_⟩
    rw [hindex] at hback
    refine ⟨Machine.permits_of_extent rfl (by rw [hback]; exact hfits), fun loaded => ?_⟩
    exact Machine.reg_of_loaded_three (by rw [hmemory, hback, hslice])

/-- All registers at the very end of the memory, and back into registers that are zero by then; and
the digits of the last one. -/
theorem registers_survive_memory_at_end :
    let m : Machine := { Machine.boot ⟨"TRIP", [], by decide⟩ {} (.cycling #[]) with
      index := 4080, registers := Registers.zero.set .flag 246 }
    (m.index + (Register.flag + 1) ≤ 4096 ∧ m.index + 3 ≤ 4096) ∧
      (∃ stored, m.Performs (.storeRegisters .flag) stored ∧ stored.index = 4096 ∧
      ∃ loaded, ({ stored with registers := .zero, index := 4080 } : Machine).Performs
          (.loadRegisters .flag) loaded ∧
        loaded.reg .flag = 246 ∧ loaded.reg .first = 0 ∧ loaded.index = 4096) ∧
      ∃ stored, m.Performs (.storeDigits .flag) stored ∧
        stored.memory.slice 4080 3 = [2, 4, 6] := by
  intro m
  have hindex : m.index = 4080 := rfl
  have hflag : m.reg .flag = 246 := Registers.get_set _ _ _ _
  have hfirst : m.reg .first = 0 := Registers.get_set _ _ _ _
  -- from here on only these facts count, and nothing has to look into the machine again
  clear_value m
  obtain ⟨hstore, -, hdigits⟩ := registers_survive_memory m .flag
  have hfits : m.index + (Register.flag + 1) ≤ 4096 := by rw [hindex]; decide
  have hthree : m.index + 3 ≤ 4096 := by rw [hindex]; decide
  refine ⟨⟨hfits, hthree⟩, ?_, ?_⟩
  · obtain ⟨⟨⟨e, he⟩, -, -⟩, hstored⟩ := hstore hfits
    have hperforms := Machine.Performs.alone e he
    obtain ⟨hbehind, -, hback⟩ := hstored _ hperforms
    obtain ⟨⟨⟨e', he'⟩, -, -⟩, hloaded⟩ :=
      hback { e.machine with registers := .zero, index := 4080 } rfl hindex.symm
    have hagain := Machine.Performs.alone e' he'
    obtain ⟨hregisters, hend, -⟩ := hloaded _ hagain
    refine ⟨_, hperforms, by rw [hbehind, hindex]; rfl, _, hagain, ?_, ?_,
      by rw [hend, hindex]; rfl⟩
    · rw [hregisters, if_pos le_rfl, hflag]
    · rw [hregisters, if_pos (by decide), hfirst]
  · obtain ⟨⟨⟨e, he⟩, -, -⟩, hstored⟩ := hdigits hthree
    have hperforms := Machine.Performs.alone e he
    obtain ⟨-, hundreds, tens, ones, hbounds, hvalue, hslice, -⟩ := hstored _ hperforms
    refine ⟨_, hperforms, ?_⟩
    -- digits are determined by the number that they make
    have hnumber : (246 : UInt8).toNat = 246 := rfl
    rw [hflag, hnumber] at hvalue
    have hhundreds : hundreds = 2 := UInt8.toNat_inj.mp (show hundreds.toNat = 2 by omega)
    have htens : tens = 4 := UInt8.toNat_inj.mp (show tens.toNat = 4 by omega)
    have hones : ones = 6 := UInt8.toNat_inj.mp (show ones.toNat = 6 by omega)
    rw [← hindex, hslice, hhundreds, htens, hones]

end ChipEight
