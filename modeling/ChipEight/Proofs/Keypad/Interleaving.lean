import Mathlib.Tactic
import ChipEight.Proofs.Cycle.Executed

/-!
Key presses between cycles.

* `asksForKey`: the instructions that look at the pending keys, and the words for them.
* `Action.pressed`, `Action.unpressed`: the presses of a run, and what else happens in it.
* `execute_press`, `cycle_press`, `act_press`: a press before an instruction, a cycle or an action
  that asks for no key is a press after it.
* `shift_press`: so is a press before a run whose cycles ask for none.
* `gather_presses`: all presses of a run can be left for its end.
* `presses_commute_with_cycles`: how presses are spread over a number of cycles does not matter.
-/

namespace ChipEight

/-! ### Instructions and runs -/

/-- Whether an instruction asks for a key. -/
def Instruction.asksForKey {ρ : Type} : Instruction ρ → Bool
  | .skip (.key _) _ => true
  | .awaitKey _ => true
  | _ => false

/-- The words for these instructions. -/
lemma Instruction.asksForKey_iff_fits {word : Opcode} {i : Instruction Register}
    (h : decode? word = some i) :
    i.asksForKey = true ↔ word.FitsOneOf ["EX9E", "EXA1", "FX0A"] := by
  have hunique : ∀ j : Instruction Register, j.Spelled word → i = j := fun j hj =>
    Option.some.inj (h.symm.trans (decode?_eq_some_iff.mpr hj))
  constructor
  · intro hasks
    have hspelled := decode?_eq_some_iff.mp h
    cases i with
    | skip test expected =>
        cases test with
        | key x =>
            refine Opcode.fitsOneOf_of_fits hspelled.1 ?_
            cases expected <;> simp [Test.pattern]
        | _ => cases hasks
    | awaitKey x => exact Opcode.fitsOneOf_of_fits hspelled.1 (by decide)
    | _ => cases hasks
  · rintro ⟨pattern, hmem, hfits⟩
    simp only [List.mem_cons, List.not_mem_nil, or_false] at hmem
    rcases hmem with rfl | rfl | rfl
    · rw [hunique (.skip (.key word.x) true) ⟨hfits, rfl⟩]
      rfl
    · rw [hunique (.skip (.key word.x) false) ⟨hfits, rfl⟩]
      rfl
    · rw [hunique (.awaitKey word.x) ⟨hfits, rfl⟩]
      rfl

namespace Action

/-- The code of the key that an action presses. -/
def code? : Action → Option UInt8
  | press code => some code
  | _ => none

/-- The codes of the keys that a run presses, in order. -/
def pressed (run : List Action) : List UInt8 := run.filterMap code?

/-- What happens in a run apart from presses. -/
def unpressed (run : List Action) : List Action := run.filter fun a => a.code?.isNone

/-- Whether a run consists of presses, in the given order, and of a number of cycles. -/
structure Spreads (codes : List UInt8) (n : ℕ) (run : List Action) : Prop where
  /-- The presses. -/
  pressed : pressed run = codes
  /-- The cycles. -/
  unpressed : unpressed run = List.replicate n cycle

end Action

/-- The execution by a machine on which a key was pressed. -/
def Execution.press (e : Execution) (code : UInt8) : Execution :=
  { e with machine := e.machine.press code }

/-- The cycle of a machine on which a key was pressed. -/
def Cycle.press (c : Cycle) (code : UInt8) : Cycle := { c with machine := c.machine.press code }

namespace Machine

variable {m : Machine} {a : Action}

/-! ### One step -/

/-- An instruction that asks for no key does the same whether a key was pressed or not. -/
lemma execute_press {i : Instruction Register} (h : i.asksForKey = false) (code : UInt8) :
    (m.press code).execute i = (m.execute i).map (Execution.press · code) := by
  have hreg : ∀ x, (m.press code).reg x = m.reg x := fun _ => rfl
  cases i with
  | skip test expected =>
      cases test with
      | key x => cases h
      | _ => rfl
  | awaitKey x => cases h
  | ret =>
      simp only [execute, press]
      cases m.stack.pop <;> rfl
  | call target =>
      simp only [execute, press]
      cases m.stack.push m.counter <;> rfl
  | draw x y height =>
      simp only [execute, press]
      cases m.memory.read m.index height <;> rfl
  | storeDigits x =>
      simp only [execute, hreg]
      simp only [press]
      cases m.memory.write m.index (decimalDigits (m.reg x)) <;> rfl
  | storeRegisters x =>
      simp only [execute, press]
      cases m.memory.write m.index (m.registers.upTo x) <;> rfl
  | loadRegisters x =>
      simp only [execute, press]
      cases m.memory.read m.index (x + 1) <;> rfl
  | _ => rfl

/-- Pressing a key does not decide what is executed. -/
lemma executed?_press (m : Machine) (code : UInt8) : (m.press code).executed? = m.executed? :=
  executed?_congr rfl rfl rfl rfl

/-- A cycle that asks for no key does the same whether a key was pressed or not; a crash shows
nothing of the keypad. -/
theorem cycle_press (h : ∀ i, m.executed? = some i → i.asksForKey = false) (code : UInt8) :
    (m.press code).cycle = m.cycle.press code := by
  cases hexecuted : m.executed? with
  | none =>
      exact cycle_map_of_crashed (g := (·.press code)) rfl rfl rfl (fun _ => rfl) hexecuted
  | some i =>
      obtain ⟨e, hexecute, -, -⟩ := execute_of_executed hexecuted
      have hle := counter_le_of_executed hexecuted
      have hdecode := decode_of_executed hexecuted
      have hthen : ((m.press code).fetched m.nextWord).execute i = .ok (e.press code) := by
        have hmap := execute_press (m := m.fetched m.nextWord) (h i hexecuted) code
        rw [hexecute] at hmap
        exact hmap
      have hcycle := cycle_eq_of_execute (m := m.press code) hle hdecode hthen
      rw [hcycle, cycle_eq_of_execute hle hdecode hexecute]
      rfl

/-- What an action executes, ends with and leaves behind if a key is pressed before it. -/
lemma act_press (ha : a.code? = none) (h : ∀ i, m.executedBy? a = some i → i.asksForKey = false)
    (code : UInt8) :
    (m.press code).executedBy? a = m.executedBy? a ∧ (m.press code).result? a = m.result? a ∧
      (m.press code).act a = (m.act a).press code := by
  cases a with
  | press code => cases ha
  | cycle =>
      have hcycle := cycle_press h code
      have hresult : (m.press code).cycle.result = m.cycle.result := by
        rw [hcycle]
        rfl
      exact ⟨m.executed?_press code, congrArg some hresult, congrArg Cycle.machine hcycle⟩
  | _ => exact ⟨rfl, rfl, rfl⟩

/-! ### Runs -/

/-- A press before a run without presses whose cycles ask for no key is a press after it. -/
lemma shift_press {run : List Action} (hrun : ∀ a ∈ run, a.code? = none)
    (h : ∀ i ∈ m.executed run, i.asksForKey = false) (code : UInt8) :
    (m.press code).executed run = m.executed run ∧ (m.press code).results run = m.results run ∧
      (m.press code).actAll run = (m.actAll run).press code := by
  induction run generalizing m with
  | nil => exact ⟨rfl, rfl, rfl⟩
  | cons a rest ih =>
      simp only [executed, results, collect_cons, List.mem_append, Option.mem_toList] at h ⊢
      obtain ⟨hexecuted, hresult, hact⟩ :=
        act_press (hrun a (by simp)) (fun i hi => h i (.inl hi)) code
      obtain ⟨hexecuted', hresults, hactAll⟩ :=
        ih (m := m.act a) (fun b hb => hrun b (by simp [hb])) fun i hi => h i (.inr hi)
      rw [executed, executed] at hexecuted'
      rw [results, results] at hresults
      rw [actAll_cons, actAll_cons, hexecuted, hresult, hact, hexecuted', hresults, hactAll]
      exact ⟨rfl, rfl, rfl⟩

/-- If the cycles of a run ask for no key, all its presses can be left for the end. -/
theorem gather_presses {run : List Action}
    (h : ∀ i ∈ m.executed (Action.unpressed run), i.asksForKey = false) :
    m.results run = m.results (Action.unpressed run) ∧
      m.actAll run = (m.actAll (Action.unpressed run)).pressAll (Action.pressed run) := by
  induction run generalizing m with
  | nil => exact ⟨rfl, rfl⟩
  | cons a rest ih =>
      have hsilent : ∀ b ∈ Action.unpressed rest, b.code? = none := by
        intro b hb
        simpa using (List.mem_filter.mp hb).2
      cases ha : a.code? with
      | none =>
          have hunpressed : Action.unpressed (a :: rest) = a :: Action.unpressed rest := by
            simp [Action.unpressed, ha]
          have hpressed : Action.pressed (a :: rest) = Action.pressed rest :=
            List.filterMap_cons_none ha
          rw [hunpressed] at h ⊢
          rw [executed, collect_cons] at h
          obtain ⟨hresults, hactAll⟩ :=
            ih (m := m.act a) fun i hi => h i (List.mem_append_right _ hi)
          rw [results, results] at hresults
          rw [results, results, collect_cons, collect_cons, hresults, actAll_cons, actAll_cons,
            hactAll, hpressed]
          exact ⟨rfl, rfl⟩
      | some code =>
          obtain rfl : a = .press code := by
            cases a <;> cases ha
            rfl
          have hunpressed : Action.unpressed (.press code :: rest) = Action.unpressed rest := rfl
          rw [hunpressed] at h ⊢
          -- the later presses are gathered behind the cycles first, so that this one comes to stand
          -- in front of them when it is moved past the cycles
          obtain ⟨hexecuted, hresults, hactAll⟩ := shift_press hsilent h code
          obtain ⟨hresults', hactAll'⟩ := ih (m := m.press code) (by rwa [hexecuted])
          constructor
          · exact hresults'.trans hresults
          · calc
              m.actAll (.press code :: rest) = (m.press code).actAll rest := rfl
              _ = ((m.press code).actAll (Action.unpressed rest)).pressAll
                    (Action.pressed rest) := hactAll'
              _ = ((m.actAll (Action.unpressed rest)).press code).pressAll
                    (Action.pressed rest) := by rw [hactAll]

end Machine

/-- The moment of a key press matters to instructions that ask for a key only. If the next cycles
execute none of them, it does not matter how presses are spread over the cycles, before, between
and after them: the cycles end with the same operations and crashes, and the same machine is left,
as if all keys were pressed after the last cycle. -/
theorem presses_commute_with_cycles (m : Machine) (codes : List UInt8) (n : ℕ)
    (hasks : ∀ i ∈ m.executed (List.replicate n .cycle), i.asksForKey = false)
    (run other : List Action) (hrun : Action.Spreads codes n run)
    (hother : Action.Spreads codes n other) :
    m.results run = m.results other ∧ m.actAll run = m.actAll other ∧
      m.actAll run = (m.actAll (List.replicate n .cycle)).pressAll codes := by
  have hgathered : ∀ run, Action.Spreads codes n run →
      m.results run = m.results (List.replicate n .cycle) ∧
        m.actAll run = (m.actAll (List.replicate n .cycle)).pressAll codes := by
    rintro run ⟨hpressed, hunpressed⟩
    rw [← hunpressed] at hasks ⊢
    rw [← hpressed]
    exact Machine.gather_presses hasks
  obtain ⟨hresults, hactAll⟩ := hgathered run hrun
  obtain ⟨hresults', hactAll'⟩ := hgathered other hother
  refine ⟨?_, ?_, hactAll⟩
  · calc
      m.results run = m.results (List.replicate n .cycle) := hresults
      _ = m.results other := hresults'.symm
  · calc
      m.actAll run = (m.actAll (List.replicate n .cycle)).pressAll codes := hactAll
      _ = m.actAll other := hactAll'.symm

/-- A cycle that sets a register and one that crashes, with a key that is pressed twice and one that
does not exist. -/
theorem presses_commute_with_cycles_at_crash :
    let rom : Rom := ⟨"STOP", [0x60, 0x01, 0x00, 0xEE], by decide⟩
    let m := Machine.boot rom {} (.cycling #[])
    let run : List Action := [.press 9, .press 4, .cycle, .press 9, .press 77, .cycle]
    let other : List Action := [.cycle, .press 9, .cycle, .press 4, .press 9, .press 77]
    m.executed (List.replicate 2 .cycle) = [.setRegister .first 1] ∧
      (∀ i ∈ m.executed (List.replicate 2 .cycle), i.asksForKey = false) ∧
      Action.Spreads [9, 4, 9, 77] 2 run ∧ Action.Spreads [9, 4, 9, 77] 2 other ∧
      m.results run = m.results other ∧ m.actAll run = m.actAll other := by
  intro rom m run other
  have hexecuted : m.executed (List.replicate 2 .cycle) = [.setRegister .first 1] := by
    have hprogram : m.HoldsProgram rom := Machine.holdsProgram_of_image rfl
    subst m rom
    exact (Machine.executed_of_readRun hprogram rfl).trans rfl
  have hasks : ∀ i ∈ m.executed (List.replicate 2 .cycle), i.asksForKey = false := by
    rw [hexecuted]
    decide
  have hrun : Action.Spreads [9, 4, 9, 77] 2 run := ⟨rfl, rfl⟩
  have hother : Action.Spreads [9, 4, 9, 77] 2 other := ⟨rfl, rfl⟩
  obtain ⟨hresults, hactAll, -⟩ :=
    presses_commute_with_cycles m [9, 4, 9, 77] 2 hasks run other hrun hother
  exact ⟨hexecuted, hasks, hrun, hother, hresults, hactAll⟩

end ChipEight
