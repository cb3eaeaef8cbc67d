import Mathlib.Tactic
import ChipEight.Proofs.Cycle.Frame
import ChipEight.Proofs.InPlace.Agreement

/-!
Register arithmetic in numbers, whichever of the registers coincide.

The operations are on bytes and wrap around. What an instruction leaves in the registers is said
here in terms of the numbers that were in them before: both operands are read before anything is
written, and the flag is written last.

* `Arithmetic.value`, `Arithmetic.carry`: what an operation puts into its first register and into
  the flag register. `toNat_result`, `exists_flag`: the bytes that are written stand for these
  numbers.
* `Machine.Combines`, `Machine.Adds`: the registers after an operation and after the addition of a
  constant.
* `execute_shift_setReg`: a shift does not look at the register it writes.
* `inPlace_arithmetic`: a host that writes the result first and the flag then does the same.
* `arithmetic_is_exact`: the instructions, and the cycles that fetch a word for one of them.
-/

namespace ChipEight

/-! ### Operations on numbers -/

namespace Arithmetic

/-- What an operation on two bytes puts into the first register. -/
def value (operation : Arithmetic) (a b : ℕ) : ℕ :=
  match operation with
  | copy => b
  | or => a ||| b
  | and => a &&& b
  | xor => a ^^^ b
  | add => (a + b) % 256
  | sub => (a + (256 - b)) % 256
  | shiftRight => b / 2
  | subReverse => (b + (256 - a)) % 256
  | shiftLeft => 2 * b % 256

/-- What an operation on two bytes puts into the flag register; only copying puts nothing there. -/
def carry (operation : Arithmetic) (a b : ℕ) : ℕ :=
  match operation with
  | copy => 0
  | or => 0
  | and => 0
  | xor => 0
  | add => if 255 < a + b then 1 else 0
  | sub => if b < a then 1 else 0
  | shiftRight => b % 2
  | subReverse => if a < b then 1 else 0
  | shiftLeft => b / 128

lemma toNat_result (operation : Arithmetic) (a b : UInt8) :
    (operation.result a b).toNat = operation.value a.toNat b.toNat := by
  have ha := a.toNat_lt
  have hb := b.toNat_lt
  cases operation with
  | copy => rfl
  | or => exact UInt8.toNat_or a b
  | and => exact UInt8.toNat_and a b
  | xor => exact UInt8.toNat_xor a b
  | add => exact UInt8.toNat_add a b
  | sub =>
      refine (UInt8.toNat_sub a b).trans ?_
      rw [value]
      omega
  | shiftRight => exact UInt8.toNat_shiftRight b 1
  | subReverse =>
      refine (UInt8.toNat_sub b a).trans ?_
      rw [value]
      omega
  | shiftLeft =>
      have hone : (1 : UInt8).toNat % 8 = 1 := rfl
      refine (UInt8.toNat_shiftLeft b 1).trans ?_
      rw [hone, Nat.shiftLeft_eq, value]
      omega

lemma toNat_toUInt8_decide (p : Prop) [Decidable p] :
    (decide p).toUInt8.toNat = if p then 1 else 0 := by
  by_cases hp : p <;> simp [hp, Bool.toUInt8]

/-- Every operation but copying writes a flag. -/
lemma exists_flag {operation : Arithmetic} (h : operation ≠ .copy) (a b : UInt8) :
    ∃ flag, operation.flag? a b = some flag ∧
      flag.toUInt8.toNat = operation.carry a.toNat b.toNat := by
  have hb := b.toNat_lt
  cases operation with
  | copy => exact absurd rfl h
  | or => exact ⟨false, rfl, rfl⟩
  | and => exact ⟨false, rfl, rfl⟩
  | xor => exact ⟨false, rfl, rfl⟩
  | add => exact ⟨_, rfl, toNat_toUInt8_decide _⟩
  | sub => exact ⟨_, rfl, toNat_toUInt8_decide _⟩
  | subReverse => exact ⟨_, rfl, toNat_toUInt8_decide _⟩
  | shiftRight =>
      refine ⟨_, rfl, (toNat_toUInt8_decide _).trans ?_⟩
      rw [carry]
      split_ifs <;> omega
  | shiftLeft =>
      refine ⟨_, rfl, (toNat_toUInt8_decide _).trans ?_⟩
      rw [carry]
      split_ifs <;> omega

end Arithmetic

/-! ### The registers afterwards -/

namespace Machine

/-- Whether a machine has the registers of another one after an operation on two of them. -/
structure Combines (m : Machine) (operation : Arithmetic) (x y : Register) (k : Machine) :
    Prop where
  /-- The flag comes from the operands as they were, and replaces a result in its register. -/
  flag : operation ≠ .copy →
    (k.reg .flag).toNat = operation.carry (m.reg x).toNat (m.reg y).toNat
  /-- So does the result. -/
  result : x ≠ .flag ∨ operation = .copy →
    (k.reg x).toNat = operation.value (m.reg x).toNat (m.reg y).toNat
  /-- The other registers are kept, and if the second operand is copied the flag register is one
  of them. -/
  kept : ∀ z, z ≠ x → z ≠ .flag ∨ operation = .copy → k.reg z = m.reg z

/-- Whether a machine has the registers of another one after a constant is added to one of them. -/
structure Adds (m : Machine) (x : Register) (value : UInt8) (k : Machine) : Prop where
  /-- The sum wraps around. -/
  sum : (k.reg x).toNat = ((m.reg x).toNat + value.toNat) % 256
  /-- All other registers are kept, the flag register too. -/
  kept : ∀ z, z ≠ x → k.reg z = m.reg z

variable {m : Machine} {operation : Arithmetic} {x y : Register}

/-- The registers after an operation that writes a flag. -/
lemma registers_combine {flag : Bool} (h : operation.flag? (m.reg x) (m.reg y) = some flag) :
    (m.combine operation x y).registers =
      (m.registers.set x (operation.result (m.reg x) (m.reg y))).setFlag flag := by
  simp only [combine, h]

theorem combines_combine (m : Machine) (operation : Arithmetic) (x y : Register) :
    m.Combines operation x y (m.combine operation x y) where
  flag hcopy := by
    obtain ⟨flag, hflag, hcarry⟩ := Arithmetic.exists_flag hcopy (m.reg x) (m.reg y)
    rw [reg, registers_combine hflag, Registers.get_setFlag, if_pos rfl, hcarry]
  result hx := by
    rw [← Arithmetic.toNat_result]
    refine congrArg UInt8.toNat ?_
    by_cases hcopy : operation = .copy
    · -- no flag is written, so the copy stays even in the flag register
      subst hcopy
      exact (Registers.get_set _ _ _ _).trans (if_pos rfl)
    · obtain ⟨flag, hflag, -⟩ := Arithmetic.exists_flag hcopy (m.reg x) (m.reg y)
      have hne : Register.flag ≠ x := (hx.resolve_right hcopy).symm
      rw [reg, registers_combine hflag, Registers.get_setFlag, if_neg hne, Registers.get_set,
        if_pos rfl]
  kept z hz hcopy := reg_combine_of_ne hz fun hflag => hcopy.resolve_left (not_not.mpr hflag)

theorem adds_setReg (m : Machine) (x : Register) (value : UInt8) :
    m.Adds x value (m.setReg x (m.reg x + value)) where
  sum := by
    rw [reg, setReg, Registers.get_set, if_pos rfl]
    exact UInt8.toNat_add _ _
  kept z hz := (Registers.get_set _ _ _ _).trans (if_neg hz.symm)

/-- A shift does the same whatever is in the register it writes. -/
lemma execute_shift_setReg (hne : x ≠ y)
    (hshift : operation = .shiftRight ∨ operation = .shiftLeft) (other : UInt8) :
    (m.setReg x other).execute (.arithmetic operation x y) =
      m.execute (.arithmetic operation x y) := by
  have hread : (m.setReg x other).reg y = m.reg y :=
    (Registers.get_set _ _ _ _).trans (if_neg hne)
  have hset : ∀ value, (m.setReg x other).registers.set x value = m.registers.set x value := by
    intro value
    ext z
    simp only [setReg, Registers.get_set]
    split_ifs <;> rfl
  rcases hshift with rfl | rfl <;>
  · simp only [execute, combine, hread, Arithmetic.result, Arithmetic.flag?, hset]
    rfl

/-- A host that writes one register after the other does the same. -/
lemma inPlace_arithmetic (m : Machine) (operation : Arithmetic) (x y : Register) :
    InPlace.execute (Instruction.numbered (.arithmetic operation x y)) m =
      .done (.stay, .none) (m.combine operation x y) := by
  refine InPlace.execute_numbered (i := .arithmetic operation x y) ?_ ?_
  · intro address haddress
    cases haddress
  · rintro ⟨_, hindex, -⟩
    cases hindex

/-! ### Cycles -/

/-- A cycle whose word stands for an operation leaves its result in the registers. -/
lemma combines_cycle (hcounter : m.counter ≤ 0xFFE) (hword : m.nextWord.Fits operation.pattern) :
    m.cycle.result = .ok .none ∧
      m.Combines operation m.nextWord.x m.nextWord.y m.cycle.machine := by
  have hspelled : (Instruction.arithmetic operation m.nextWord.x m.nextWord.y).Spelled
      m.nextWord := ⟨hword, rfl, rfl⟩
  obtain ⟨hresult, hmachine⟩ := cycle_of_spelled hcounter hspelled rfl
  obtain ⟨hflag, hvalue, hkept⟩ :=
    combines_combine (m.fetched m.nextWord) operation m.nextWord.x m.nextWord.y
  rw [hmachine]
  exact ⟨hresult, hflag, hvalue, hkept⟩

lemma adds_cycle (hcounter : m.counter ≤ 0xFFE) (hword : m.nextWord.Fits "7XNN") :
    m.cycle.result = .ok .none ∧ m.Adds m.nextWord.x m.nextWord.nn m.cycle.machine := by
  have hspelled : (Instruction.addConstant m.nextWord.x m.nextWord.nn).Spelled m.nextWord :=
    ⟨hword, rfl, rfl⟩
  obtain ⟨hresult, hmachine⟩ := cycle_of_spelled hcounter hspelled rfl
  obtain ⟨hsum, hkept⟩ := adds_setReg (m.fetched m.nextWord) m.nextWord.x m.nextWord.nn
  rw [hmachine]
  exact ⟨hresult, hsum, hkept⟩

end Machine

/-- The arithmetic instructions are exact whichever registers coincide. Each of them succeeds and
writes what it comes to in numbers, computed from the registers as they were: the flag register
gets the carry, which replaces the result if that goes to the same register, and every other
register is kept. Copying and the addition of a constant write no flag. A host that writes the
registers in place, one after the other, ends with the same. A shift takes its operand from the
second register only, so the first one makes no difference unless it is the same. A cycle does the
same if the word it fetches is written for the instruction. -/
theorem arithmetic_is_exact (m : Machine) (x y : Register) :
    (∀ operation : Arithmetic, ∃ e, m.execute (.arithmetic operation x y) = .ok e ∧
        m.Combines operation x y e.machine ∧
        InPlace.execute (Instruction.numbered (.arithmetic operation x y)) m =
          .done (e.move, e.operation) e.machine) ∧
      (∀ value : UInt8, ∃ e, m.execute (.addConstant x value) = .ok e ∧
        m.Adds x value e.machine) ∧
      (∀ operation : Arithmetic, operation = .shiftRight ∨ operation = .shiftLeft → x ≠ y →
        ∀ other : UInt8, (m.setReg x other).execute (.arithmetic operation x y) =
          m.execute (.arithmetic operation x y)) ∧
      (m.counter ≤ 0xFFE → m.nextWord.x = x →
        (∀ operation : Arithmetic, m.nextWord.Fits operation.pattern → m.nextWord.y = y →
          m.cycle.result = .ok .none ∧ m.Combines operation x y m.cycle.machine) ∧
        (m.nextWord.Fits "7XNN" →
          m.cycle.result = .ok .none ∧ m.Adds x m.nextWord.nn m.cycle.machine)) := by
  refine ⟨fun operation => ⟨_, rfl, m.combines_combine operation x y,
      m.inPlace_arithmetic operation x y⟩,
    fun value => ⟨_, rfl, m.adds_setReg x value⟩,
    fun operation hshift hne other => Machine.execute_shift_setReg hne hshift other, ?_⟩
  rintro hcounter rfl
  refine ⟨?_, Machine.adds_cycle hcounter⟩
  rintro operation hword rfl
  exact Machine.combines_cycle hcounter hword

/-- The flag register added to itself. The sum does not fit into a byte, and what is left in the
register is the carry and not the sum. -/
theorem arithmetic_is_exact_at_flag_register :
    let rom : Rom := ⟨"FLAG", [0x8F, 0xF4], by decide⟩
    let m : Machine := { Machine.boot rom {} (.cycling #[]) with
      registers := Registers.zero.set .flag 200 }
    m.counter ≤ 0xFFE ∧ m.nextWord.x = .flag ∧ m.nextWord.y = .flag ∧
      m.nextWord.Fits Arithmetic.add.pattern ∧ (m.reg .flag).toNat = 200 ∧
      m.cycle.result = .ok .none ∧ (m.cycle.machine.reg .flag).toNat = 1 := by
  intro rom m
  have hcounter : m.counter ≤ 0xFFE := by decide
  have hword : m.nextWord = 0x8FF4 :=
    (Machine.nextWord_of_image (k := 0) (m := m) rfl rfl rfl).trans (by decide)
  have hx : m.nextWord.x = .flag := by rw [hword]; rfl
  have hy : m.nextWord.y = .flag := by rw [hword]; rfl
  have hfits : m.nextWord.Fits Arithmetic.add.pattern := by rw [hword]; decide
  have hreg : (m.reg .flag).toNat = 200 := congrArg UInt8.toNat (Registers.get_set _ _ _ _)
  obtain ⟨-, -, -, hcycle⟩ := arithmetic_is_exact m .flag .flag
  obtain ⟨hresult, hcombines⟩ := (hcycle hcounter hx).1 .add hfits hy
  refine ⟨hcounter, hx, hy, hfits, hreg, hresult, ?_⟩
  rw [hcombines.flag (by decide), hreg]
  rfl

end ChipEight
