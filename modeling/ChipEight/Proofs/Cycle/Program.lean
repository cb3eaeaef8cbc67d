import Mathlib.Tactic
import ChipEight.Proofs.Cycle.Actions
import ChipEight.Proofs.Cycle.Step

/-!
What a run executes, and how the text of a program tells.

What a cycle comes to can be computed as long as its word is known. A word is looked up in the text
of the program and not in the memory, which still holds the program if nothing was stored over it.

* `executed?`, `executed`: the instruction that the next cycle executes, if it does not crash, and
  all those that a run executes.
* `Rom.word?`, `nextWord_of_word`: the word of a program at an address, and that a machine which
  holds the program fetches it.
* `Memory.bounds_of_overlay_ne`, `HoldsProgram.of_spares`: bytes change only where something is
  stored, so a program outlasts the stores in front of it.
* `readCycle?`, `readRun?`: what a cycle and a run come to, from the text of the program.
* `readCycle_sound`, `readRun_sound`: that is what they come to, and the program still stands.
* `actAll_of_readRun`, `collect_of_readRun`: the machine after a run, and what the run shows of the
  instructions it executes. `nextWord_of_readRun`, `executed?_of_readRun`: the next cycle.
-/

namespace ChipEight

/-! ### What is executed -/

namespace Machine

/-- The instruction that the next cycle executes; there is none if the cycle crashes. -/
def executed? (m : Machine) : Option (Instruction Register) :=
  match m.cycle.result with
  | .ok _ => Instruction.decode? m.nextWord
  | .error _ => none

/-- The instruction that an action executes, if it is a cycle that does not crash. -/
def executedBy? (m : Machine) : Action → Option (Instruction Register)
  | .cycle => m.executed?
  | _ => none

/-- The instructions that a run executes, in order. -/
def executed (m : Machine) (run : List Action) : List (Instruction Register) :=
  m.collect executedBy? run

theorem executed_concat (m : Machine) (run : List Action) (a : Action) :
    m.executed (run ++ [a]) = m.executed run ++ ((m.actAll run).executedBy? a).toList :=
  m.collect_concat executedBy? run a

end Machine

/-! ### Words of a program -/

/-- The word of a program at an address. -/
def Rom.word? (rom : Rom) (address : ℕ) : Option Opcode :=
  if 0x200 ≤ address then
    match rom.data.drop (address - 0x200) with
    | high :: low :: _ => some (Opcode.ofBytes high low)
    | _ => none
  else none

/-- Writing over a part of the memory changes that part only. -/
lemma Memory.bounds_of_overlay_ne {m : Memory} {address a : ℕ} {bytes : List UInt8}
    (h : (m.overlay address bytes).byteAt a ≠ m.byteAt a) :
    address ≤ a ∧ a < address + bytes.length := by
  by_cases ha : a < 4096
  · rw [byteAt_overlay _ _ _ ha] at h
    split at h
    · next hle =>
        refine ⟨hle, ?_⟩
        by_contra hout
        rw [List.getElem?_eq_none (by omega)] at h
        exact h rfl
    · exact absurd rfl h
  · rw [byteAt_of_le (by omega), byteAt_of_le (by omega)] at h
    exact absurd rfl h

namespace Machine

variable {m k : Machine} {rom : Rom} {word : Opcode} {i : Instruction Register}

lemma nextWord_of_word (hprogram : m.HoldsProgram rom) (h : rom.word? m.counter = some word) :
    m.counter ≤ 0xFFE ∧ m.nextWord = word := by
  obtain ⟨hstart, h⟩ := Option.ite_none_right_eq_some.mp h
  split at h
  · next high low rest hdata =>
      cases h
      have hcounter : m.counter = 0x200 + (m.counter - 0x200) := by omega
      exact ⟨counter_le_of_program hcounter hdata, nextWord_of_program hprogram hcounter hdata⟩
  · cases h

/-- Whether an instruction stores nothing from the start of the program on. -/
def spares (m : Machine) : Instruction Register → Bool
  | .storeDigits _ => decide (m.index + 3 ≤ 0x200)
  | .storeRegisters x => decide (m.index + (x + 1) ≤ 0x200)
  | _ => true

lemma HoldsProgram.of_overlay {address : ℕ} {bytes : List UInt8} (hprogram : m.HoldsProgram rom)
    (hmemory : k.memory = m.memory.overlay address bytes)
    (hbefore : address + bytes.length ≤ 0x200) : k.HoldsProgram rom := by
  intro a ha
  rw [← hprogram a ha, hmemory]
  by_contra hne
  have hbounds := Memory.bounds_of_overlay_ne hne
  omega

/-- A program outlasts every instruction that stores nothing over it. -/
lemma HoldsProgram.of_spares {e : Execution} (hprogram : m.HoldsProgram rom)
    (h : (m.fetched word).execute i = .ok e) (hspares : m.spares i = true) :
    (settle e).HoldsProgram rom := by
  obtain ⟨stack, -, hafter, -⟩ := execute_ok h
  have hmemory : (settle e).memory = (m.fetched word).memoryAfter i := by
    show e.machine.memory = _
    rw [hafter]
    rfl
  cases i with
  | storeDigits x => exact hprogram.of_overlay hmemory (of_decide_eq_true hspares)
  | storeRegisters x =>
      refine hprogram.of_overlay hmemory ?_
      rw [Registers.length_upTo]
      exact of_decide_eq_true hspares
  | _ =>
      intro a ha
      rw [hmemory]
      exact hprogram a ha

/-! ### Reading a program -/

/-- What a cycle comes to by the text of the program: the instruction that it executes, unless it
crashes, and the machine afterwards. There is no answer where the program has no word, nor for an
instruction that could store over it. -/
def readCycle? (m : Machine) (rom : Rom) : Option (Option (Instruction Register) × Machine) :=
  (rom.word? m.counter).bind fun word =>
    match Instruction.decode? word with
    | none => some (none, m.fetched word)
    | some i =>
      match (m.fetched word).execute i with
      | .error _ => some (none, m.fetched word)
      | .ok e => if m.spares i then some (some i, settle e) else none

/-- What a run comes to by the text of the program: the instructions that it executes, each with
the machine before it, and the machine in the end. -/
def readRun? (m : Machine) (rom : Rom) :
    List Action → Option (List (Machine × Instruction Register) × Machine)
  | [] => some ([], m)
  | .cycle :: rest =>
    (m.readCycle? rom).bind fun read =>
      (read.2.readRun? rom rest).map fun later =>
        ((read.1.map (m, ·)).toList ++ later.1, later.2)
  | a :: rest => (m.act a).readRun? rom rest

theorem readCycle_sound {read : Option (Instruction Register) × Machine}
    (hprogram : m.HoldsProgram rom) (h : m.readCycle? rom = some read) :
    m.executed? = read.1 ∧ m.cycle.machine = read.2 ∧ read.2.HoldsProgram rom := by
  obtain ⟨word, hword, h⟩ := Option.bind_eq_some_iff.mp h
  obtain ⟨hcounter, rfl⟩ := nextWord_of_word hprogram hword
  have hfetch := fetch_eq_ok_iff.mpr ⟨hcounter, rfl⟩
  split at h
  · next hdecode =>
      cases h
      simp only [executed?, cycle, crash, hfetch, hdecode]
      exact ⟨trivial, trivial, hprogram⟩
  · next i hdecode =>
      split at h
      · next fault hexecute =>
          cases h
          simp only [executed?, cycle, crash, hfetch, hdecode, hexecute]
          exact ⟨trivial, trivial, hprogram⟩
      · next e hexecute =>
          obtain ⟨hspares, ⟨⟩⟩ := Option.ite_none_right_eq_some.mp h
          simp only [executed?, cycle, hfetch, hdecode, hexecute]
          exact ⟨trivial, trivial, hprogram.of_spares hexecute hspares⟩

/-- The instruction that an action executes, with the machine before it. -/
def executedFrom? (m : Machine) (a : Action) : Option (Machine × Instruction Register) :=
  (m.executedBy? a).map (m, ·)

theorem readRun_sound {run : List Action} {trail : List (Machine × Instruction Register)}
    (hprogram : m.HoldsProgram rom) (h : m.readRun? rom run = some (trail, k)) :
    m.actAll run = k ∧ m.collect executedFrom? run = trail ∧ k.HoldsProgram rom := by
  induction run generalizing m trail with
  | nil => cases h; exact ⟨rfl, rfl, hprogram⟩
  | cons a rest ih =>
      cases a with
      | cycle =>
          obtain ⟨read, hread, h⟩ := Option.bind_eq_some_iff.mp h
          obtain ⟨later, hlater, h⟩ := Option.map_eq_some_iff.mp h
          obtain ⟨hexecuted, hmachine, hstands⟩ := readCycle_sound hprogram hread
          cases h
          obtain ⟨hlast, htrail, hholds⟩ := ih hstands hlater
          rw [actAll_cons, collect_cons, act, executedFrom?, executedBy?, hexecuted, hmachine]
          exact ⟨hlast, congrArg _ htrail, hholds⟩
      | _ => exact ih hprogram h

/-! ### What a run shows of its instructions -/

/-- What can be told from an instruction and the machine before it can be told from all that a run
executes. -/
lemma collect_eq_filterMap {α : Type} {observe : Machine → Action → Option α}
    (f : Machine → Instruction Register → Option α)
    (hobserve : ∀ k a, observe k a = (k.executedBy? a).bind (f k)) (m : Machine)
    (run : List Action) :
    m.collect observe run =
      (m.collect executedFrom? run).filterMap fun step => f step.1 step.2 := by
  induction run generalizing m with
  | nil => rfl
  | cons a rest ih =>
      rw [collect_cons, collect_cons, List.filterMap_append, ← ih, hobserve, executedFrom?]
      congr 1
      cases m.executedBy? a with
      | none => rfl
      | some i => cases h : f m i <;> simp [h]

section Reading

variable {front rest : List Action} {before trail : List (Machine × Instruction Register)}

lemma actAll_of_readRun (hprogram : m.HoldsProgram rom)
    (h : m.readRun? rom front = some (before, k)) : m.actAll front = k :=
  (readRun_sound hprogram h).1

/-- What a run shows of the instructions that it executes. -/
lemma collect_of_readRun {α : Type} {observe : Machine → Action → Option α}
    (f : Machine → Instruction Register → Option α)
    (hobserve : ∀ k a, observe k a = (k.executedBy? a).bind (f k)) (hprogram : m.HoldsProgram rom)
    (h : m.readRun? rom front = some (before, k)) :
    m.collect observe front = before.filterMap fun step => f step.1 step.2 := by
  obtain ⟨-, rfl, -⟩ := readRun_sound hprogram h
  exact collect_eq_filterMap f hobserve m front

/-- The instructions themselves. -/
lemma executed_of_readRun (hprogram : m.HoldsProgram rom)
    (h : m.readRun? rom front = some (before, k)) :
    m.executed front = before.filterMap fun step => some step.2 :=
  collect_of_readRun (fun _ => some) (fun _ _ => (Option.bind_fun_some _).symm) hprogram h

/-- The word that the cycle after a run fetches. -/
lemma nextWord_of_readRun (hprogram : m.HoldsProgram rom)
    (hfront : m.readRun? rom front = some (before, k)) (hword : rom.word? k.counter = some word) :
    (m.actAll front).counter ≤ 0xFFE ∧ (m.actAll front).nextWord = word := by
  obtain ⟨rfl, -, hstands⟩ := readRun_sound hprogram hfront
  exact nextWord_of_word hstands hword

/-- The instruction that it executes. -/
lemma executed?_of_readRun {executes : Option (Instruction Register)} {next : Machine}
    (hprogram : m.HoldsProgram rom) (hfront : m.readRun? rom front = some (before, k))
    (hread : k.readCycle? rom = some (executes, next)) : (m.actAll front).executed? = executes := by
  obtain ⟨rfl, -, hstands⟩ := readRun_sound hprogram hfront
  exact (readCycle_sound hstands hread).1

/-- The instructions that another run after it executes. -/
lemma executed_after_readRun {last : Machine} (hprogram : m.HoldsProgram rom)
    (hfront : m.readRun? rom front = some (before, k))
    (hrest : k.readRun? rom rest = some (trail, last)) :
    (m.actAll front).executed rest = trail.filterMap fun step => some step.2 := by
  obtain ⟨rfl, -, hstands⟩ := readRun_sound hprogram hfront
  exact executed_of_readRun hstands hrest

end Reading

end Machine

end ChipEight
