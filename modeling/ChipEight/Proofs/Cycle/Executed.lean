import Mathlib.Tactic
import ChipEight.Proofs.Cycle.Crash
import ChipEight.Proofs.Decode.Words

/-!
What an executed instruction does.

* `Outcome`, `outcome`: a cycle crashes and stops after the fetch, or it executes an instruction.
  Everything a cycle does to a part of the machine is read off these two cases.
* `executed?_eq_some`, `executed?_of_extent`: when a cycle executes an instruction.
  `cycle_eq_of_execute`, `cycle_of_spelled`: what it comes to then.
* `result_of_executed`, `machine_of_executed`: the result of a cycle and the machine after it, from
  the instruction it executes; `counter_of_executed`, `memory_of_executed` and the others are its
  parts.
* `cycle_of_crashed`, `cycle_map_of_crashed`: a cycle that crashes, from one of another machine with
  the same processor and memory.
* `opcode_cycle`, `fixed_cycle`: what holds of every cycle, whether it crashes or not.
* `results`: what the cycles of a run end with, in order.
-/

namespace ChipEight

namespace Machine

/-- The ways in which a cycle can end. -/
inductive Outcome (m : Machine) : Prop where
  | crashed (crash : Crash) (hexecuted : m.executed? = none)
      (hresult : m.cycle.result = .error crash) (hmachine : m.cycle.machine = m.afterFetch)
  | executed (i : Instruction Register) (e : Execution) (hexecuted : m.executed? = some i)
      (hcounter : m.counter ≤ 0xFFE) (hdecode : Instruction.decode? m.nextWord = some i)
      (hexecute : (m.fetched m.nextWord).execute i = .ok e)
      (hresult : m.cycle.result = .ok e.operation) (hmachine : m.cycle.machine = settle e)

/-- Every cycle ends in one of these ways. -/
theorem outcome (m : Machine) : Outcome m := by
  have hcrash : ∀ crash, m.cycle.result = .error crash → Outcome m := by
    intro crash hresult
    obtain ⟨fault, log, hcycle⟩ := cycle_of_error hresult
    refine .crashed crash ?_ hresult (by rw [hcycle]; rfl)
    rw [executed?, hresult]
  cases m.cycleCases with
  | unfetched cause hfetch hcycle => exact hcrash _ (by rw [hcycle]; rfl)
  | undecoded word hfetch hdecode hcycle => exact hcrash _ (by rw [hcycle]; rfl)
  | refused word i fault hfetch hdecode hexecute hcycle => exact hcrash _ (by rw [hcycle]; rfl)
  | executed word i e hfetch hdecode hexecute hcycle =>
      obtain ⟨hcounter, rfl⟩ := fetch_eq_ok_iff.mp hfetch
      refine .executed i e ?_ hcounter hdecode hexecute (by rw [hcycle]) (by rw [hcycle])
      rw [executed?, hcycle]
      exact hdecode

variable {m : Machine} {i : Instruction Register}

/-- A cycle executes an instruction if the word at its counter stands for it and the machine does
not refuse it. -/
theorem executed?_eq_some (hcounter : m.counter ≤ 0xFFE)
    (hdecode : Instruction.decode? m.nextWord = some i) (hrefuses : ∀ fault, ¬ m.Refuses i fault) :
    m.executed? = some i := by
  obtain ⟨operation, hresult⟩ :=
    ok_iff_not_fails.mpr fun fault h => hrefuses fault (refuses_of_fails hcounter hdecode h)
  rw [executed?, hresult]
  exact hdecode

/-- An instruction that needs some bytes at the index register is executed if they lie in the
memory. -/
theorem executed?_of_extent {length : ℕ} (hcounter : m.counter ≤ 0xFFE)
    (hdecode : Instruction.decode? m.nextWord = some i) (hextent : i.extent? = some length)
    (hfits : m.index + length ≤ 4096) : m.executed? = some i := by
  refine executed?_eq_some hcounter hdecode ?_
  rintro _ (_ | _ | ⟨_, other, hother, hout⟩)
  · cases hextent
  · cases hextent
  · cases hextent.symm.trans hother
    omega

/-- The cycle of an instruction that goes through. -/
theorem cycle_eq_of_execute {e : Execution} (hcounter : m.counter ≤ 0xFFE)
    (hdecode : Instruction.decode? m.nextWord = some i)
    (hexecute : (m.fetched m.nextWord).execute i = .ok e) :
    m.cycle =
      { machine := settle e
        result := .ok e.operation
        delivered := m.deliveries ⟨m.counter, m.nextWord, i⟩
        log := [.fetched m.nextWord m.counter] ++ e.log } := by
  have hfetch := fetch_eq_ok_iff.mpr ⟨hcounter, rfl⟩
  simp only [cycle, hfetch, hdecode, hexecute]

/-- What it ends with, and the machine afterwards. -/
lemma cycle_of_execute {e : Execution} (hcounter : m.counter ≤ 0xFFE)
    (hdecode : Instruction.decode? m.nextWord = some i)
    (hexecute : (m.fetched m.nextWord).execute i = .ok e) :
    m.cycle.result = .ok e.operation ∧ m.cycle.machine = settle e := by
  rw [cycle_eq_of_execute hcounter hdecode hexecute]
  exact ⟨rfl, rfl⟩

/-- The same for a word that is written for the instruction. -/
theorem cycle_of_spelled {e : Execution} (hcounter : m.counter ≤ 0xFFE)
    (hspelled : i.Spelled m.nextWord) (hexecute : (m.fetched m.nextWord).execute i = .ok e) :
    m.cycle.result = .ok e.operation ∧ m.cycle.machine = settle e :=
  cycle_of_execute hcounter (Instruction.decode?_eq_some_iff.mpr hspelled) hexecute

/-- A cycle executes an instruction that goes through. -/
theorem executed?_of_execute {e : Execution} (hcounter : m.counter ≤ 0xFFE)
    (hdecode : Instruction.decode? m.nextWord = some i)
    (hexecute : (m.fetched m.nextWord).execute i = .ok e) :
    m.executed? = some i := by
  rw [executed?, (cycle_of_execute hcounter hdecode hexecute).1]
  exact hdecode

/-- The fetch changes nothing but the counter, the word and the flag for drawing. -/
lemma afterFetch_eq (m : Machine) :
    ∃ word counter, m.afterFetch =
      { m with dirty := false, opcode := word, counter := counter } := by
  unfold afterFetch
  split
  · exact ⟨m.opcode, m.counter, rfl⟩
  · exact ⟨_, _, rfl⟩

/-! ### What an executed instruction leaves behind -/

/-- An instruction that a cycle executes was fetched and decoded, and went through. -/
lemma execute_of_executed (h : m.executed? = some i) :
    ∃ e, (m.fetched m.nextWord).execute i = .ok e ∧ m.cycle.result = .ok e.operation ∧
      m.cycle.machine = settle e := by
  cases m.outcome with
  | crashed crash hexecuted hresult hmachine =>
      rw [h] at hexecuted
      cases hexecuted
  | executed j e hexecuted hcounter hdecode hexecute hresult hmachine =>
      cases h.symm.trans hexecuted
      exact ⟨e, hexecute, hresult, hmachine⟩

lemma decode_of_executed (h : m.executed? = some i) :
    Instruction.decode? m.nextWord = some i := by
  rw [executed?] at h
  split at h
  · exact h
  · cases h

lemma counter_le_of_executed (h : m.executed? = some i) : m.counter ≤ 0xFFE := by
  cases m.outcome with
  | crashed crash hexecuted hresult hmachine =>
      rw [h] at hexecuted
      cases hexecuted
  | executed j e hexecuted hcounter hdecode hexecute hresult hmachine => exact hcounter

lemma result_of_executed (h : m.executed? = some i) :
    m.cycle.result = .ok ((m.fetched m.nextWord).operationOf i) := by
  obtain ⟨e, hexecute, hresult, -⟩ := execute_of_executed h
  rw [hresult, operation_of_execute hexecute]

/-- The machine after a cycle that executes an instruction, part by part. -/
theorem machine_of_executed (h : m.executed? = some i) :
    ∃ stack, stack.frames = (m.fetched m.nextWord).framesAfter i ∧
      m.cycle.machine =
        { (m.fetched m.nextWord).after i stack with
          counter := ((m.fetched m.nextWord).moveOf i).apply (m.counter + 2)
          dirty := (m.fetched m.nextWord).operationOf i == .draw
          delay := ((m.fetched m.nextWord).delayAfter i).tick
          sound := ((m.fetched m.nextWord).soundAfter i).tick } := by
  obtain ⟨e, hexecute, -, hmachine⟩ := execute_of_executed h
  obtain ⟨stack, hframes, hafter, hmove, hoperation⟩ := execute_ok hexecute
  refine ⟨stack, hframes, ?_⟩
  rw [hmachine, settle, hafter, hmove, hoperation]
  rfl

lemma counter_of_executed (h : m.executed? = some i) :
    m.cycle.machine.counter = ((m.fetched m.nextWord).moveOf i).apply (m.counter + 2) := by
  obtain ⟨stack, -, hmachine⟩ := machine_of_executed h
  rw [hmachine]

lemma dirty_of_executed (h : m.executed? = some i) :
    m.cycle.machine.dirty = ((m.fetched m.nextWord).operationOf i == .draw) := by
  obtain ⟨stack, -, hmachine⟩ := machine_of_executed h
  rw [hmachine]

lemma frames_of_executed (h : m.executed? = some i) :
    m.cycle.machine.stack.frames = (m.fetched m.nextWord).framesAfter i := by
  obtain ⟨stack, hframes, hmachine⟩ := machine_of_executed h
  rw [hmachine]
  exact hframes

lemma memory_of_executed (h : m.executed? = some i) :
    m.cycle.machine.memory = (m.fetched m.nextWord).memoryAfter i := by
  obtain ⟨stack, -, hmachine⟩ := machine_of_executed h
  rw [hmachine]
  rfl

lemma registers_of_executed (h : m.executed? = some i) :
    m.cycle.machine.registers = (m.fetched m.nextWord).registersAfter i := by
  obtain ⟨stack, -, hmachine⟩ := machine_of_executed h
  rw [hmachine]
  rfl

lemma index_of_executed (h : m.executed? = some i) :
    m.cycle.machine.index = (m.fetched m.nextWord).indexAfter i := by
  obtain ⟨stack, -, hmachine⟩ := machine_of_executed h
  rw [hmachine]
  rfl

lemma delay_of_executed (h : m.executed? = some i) :
    m.cycle.machine.delay = ((m.fetched m.nextWord).delayAfter i).tick := by
  obtain ⟨stack, -, hmachine⟩ := machine_of_executed h
  rw [hmachine]

lemma sound_of_executed (h : m.executed? = some i) :
    m.cycle.machine.sound = ((m.fetched m.nextWord).soundAfter i).tick := by
  obtain ⟨stack, -, hmachine⟩ := machine_of_executed h
  rw [hmachine]

lemma screen_of_executed (h : m.executed? = some i) :
    m.cycle.machine.screen = (m.fetched m.nextWord).screenAfter i := by
  obtain ⟨stack, -, hmachine⟩ := machine_of_executed h
  rw [hmachine]
  rfl

lemma keypad_of_executed (h : m.executed? = some i) :
    m.cycle.machine.keypad = (m.fetched m.nextWord).keypadAfter i := by
  obtain ⟨stack, -, hmachine⟩ := machine_of_executed h
  rw [hmachine]
  rfl

lemma random_of_executed (h : m.executed? = some i) :
    m.cycle.machine.random = (m.fetched m.nextWord).randomAfter i := by
  obtain ⟨stack, -, hmachine⟩ := machine_of_executed h
  rw [hmachine]
  rfl

lemma result_of_crashed (h : m.executed? = none) : ∃ crash, m.cycle.result = .error crash := by
  cases m.outcome with
  | crashed crash hexecuted hresult hmachine => exact ⟨crash, hresult⟩
  | executed i e hexecuted hcounter hdecode hexecute hresult hmachine =>
      rw [h] at hexecuted
      cases hexecuted

/-- A cycle executes no instruction exactly if its machine fails. -/
lemma executed?_eq_none_iff : m.executed? = none ↔ ∃ fault, m.Fails fault := by
  constructor
  · intro h
    obtain ⟨crash, hresult⟩ := result_of_crashed h
    exact ⟨crash.fault, error_iff_fails.mp ⟨crash, hresult, rfl⟩⟩
  · rintro ⟨fault, hfails⟩
    obtain ⟨crash, hresult, -⟩ := error_iff_fails.mpr hfails
    rw [executed?, hresult]

/-- Which instruction is executed is up to the counter, the memory, the stack and the index
register. -/
lemma executed?_congr {k : Machine} (hcounter : k.counter = m.counter)
    (hmemory : k.memory = m.memory) (hstack : k.stack = m.stack) (hindex : k.index = m.index) :
    k.executed? = m.executed? := by
  have hword : k.nextWord = m.nextWord := by rw [nextWord, hmemory, hcounter, ← nextWord]
  cases hexecuted : m.executed? with
  | none =>
      obtain ⟨fault, hfails⟩ := executed?_eq_none_iff.mp hexecuted
      exact executed?_eq_none_iff.mpr ⟨fault, hfails.congr hcounter hmemory hstack hindex⟩
  | some i =>
      cases hother : k.executed? with
      | none =>
          obtain ⟨fault, hfails⟩ := executed?_eq_none_iff.mp hother
          have hnone := executed?_eq_none_iff.mpr
            ⟨fault, hfails.congr hcounter.symm hmemory.symm hstack.symm hindex.symm⟩
          rw [hnone] at hexecuted
          cases hexecuted
      | some j =>
          rw [← decode_of_executed hexecuted, ← decode_of_executed hother, hword]

/-- A cycle that crashes has done no more than the fetch. -/
lemma afterFetch_of_crashed (h : m.executed? = none) : m.cycle.machine = m.afterFetch := by
  cases m.outcome with
  | crashed crash hexecuted hresult hmachine => exact hmachine
  | executed i e hexecuted hcounter hdecode hexecute hresult hmachine =>
      rw [h] at hexecuted
      cases hexecuted

lemma machine_of_crashed (h : m.executed? = none) :
    ∃ word counter, m.cycle.machine =
      { m with dirty := false, opcode := word, counter := counter } := by
  rw [afterFetch_of_crashed h]
  exact m.afterFetch_eq

/-- A crash shows nothing of a machine but its processor. -/
lemma crash_congr {k : Machine} (hsnapshot : k.snapshot = m.snapshot) {fault : Fault}
    {address other : ℕ} (haddress : address = other) (log : ℕ → List Log.Entry) :
    k.crash fault address (log address) =
      { m.crash fault other (log other) with machine := k } := by
  have hopcode : k.opcode = m.opcode := congrArg Snapshot.opcode hsnapshot
  simp only [crash, hsnapshot, hopcode, haddress]

/-- Machines that agree in their processors and memories crash alike. -/
theorem cycle_of_crashed {k : Machine} (hsnapshot : k.snapshot = m.snapshot)
    (hmemory : k.memory = m.memory) (h : m.executed? = none) :
    k.cycle = { m.cycle with machine := k.afterFetch } := by
  have hcounter : k.counter = m.counter := congrArg Snapshot.counter hsnapshot
  have hfetched : ∀ word, (k.fetched word).snapshot = (m.fetched word).snapshot := fun word =>
    congrArg (fun s : Snapshot => { s with opcode := word, counter := s.counter + 2 }) hsnapshot
  cases m.cycleCases with
  | unfetched cause hfetch hcycle =>
      rw [hcycle]
      rw [← hmemory, ← hcounter] at hfetch
      simp only [cycle, afterFetch_of_error hfetch, hfetch]
      exact crash_congr (m := { m with dirty := false }) (k := { k with dirty := false }) hsnapshot
        hcounter fun _ => []
  | undecoded word hfetch hdecode hcycle =>
      rw [hcycle]
      rw [← hmemory, ← hcounter] at hfetch
      simp only [cycle, afterFetch_of_ok hfetch, hfetch, hdecode]
      exact crash_congr (hfetched word) hcounter fun a => [.fetched word a]
  | refused word i fault hfetch hdecode hexecute hcycle =>
      have hrefused : (k.fetched word).execute i = .error fault := by
        rw [execute_eq_error_iff] at hexecute ⊢
        exact hexecute.congr (congrArg Snapshot.stack hsnapshot) (congrArg Snapshot.index hsnapshot)
      rw [hcycle]
      rw [← hmemory, ← hcounter] at hfetch
      simp only [cycle, afterFetch_of_ok hfetch, hfetch, hdecode, hrefused]
      exact crash_congr (hfetched word) hcounter fun a => [.fetched word a]
  | executed word i e hfetch hdecode hexecute hcycle =>
      obtain ⟨hle, rfl⟩ := fetch_eq_ok_iff.mp hfetch
      rw [executed?_of_execute hle hdecode hexecute] at h
      cases h

/-- A change that is none to the processor and the memory can be made before or after a cycle that
crashes. -/
lemma cycle_map_of_crashed {g : Machine → Machine} (hsnapshot : (g m).snapshot = m.snapshot)
    (hmemory : (g m).memory = m.memory)
    (hdirty : { g m with dirty := false } = g { m with dirty := false })
    (hfetched : ∀ word, (g m).fetched word = g (m.fetched word)) (h : m.executed? = none) :
    (g m).cycle = { m.cycle with machine := g m.cycle.machine } := by
  have hcounter : (g m).counter = m.counter := congrArg Snapshot.counter hsnapshot
  rw [cycle_of_crashed hsnapshot hmemory h, afterFetch_map hmemory hcounter hdirty hfetched,
    afterFetch_of_crashed h]

/-! ### Every cycle -/

/-- A cycle whose counter lies inside the memory fetches the word there, and no instruction
touches it afterwards. -/
lemma opcode_cycle (h : m.counter ≤ 0xFFE) : m.cycle.machine.opcode = m.nextWord := by
  cases m.outcome with
  | crashed crash hexecuted hresult hmachine =>
      rw [hmachine, afterFetch_of_ok (fetch_eq_ok_iff.mpr ⟨h, rfl⟩)]
      rfl
  | executed i e hexecuted hcounter hdecode hexecute hresult hmachine =>
      rw [hmachine]
      exact (fixed_of_execute hexecute).2.1

/-- A cycle leaves the name, the settings and the observers alone. -/
lemma fixed_cycle (m : Machine) :
    m.cycle.machine.name = m.name ∧ m.cycle.machine.config = m.config ∧
      m.cycle.machine.observers = m.observers := by
  cases hexecuted : m.executed? with
  | none =>
      obtain ⟨word, counter, hmachine⟩ := machine_of_crashed hexecuted
      rw [hmachine]
      exact ⟨rfl, rfl, rfl⟩
  | some i =>
      obtain ⟨e, hexecute, -, hmachine⟩ := execute_of_executed hexecuted
      obtain ⟨hname, -, -, -, hconfig, hobservers⟩ := fixed_of_execute hexecute
      rw [hmachine]
      exact ⟨hname, hconfig, hobservers⟩

/-! ### Runs -/

/-- What an action ends with, if it is a cycle. -/
def result? (m : Machine) : Action → Option (Except Crash Operation)
  | .cycle => some m.cycle.result
  | _ => none

/-- What the cycles of a run end with, in order. -/
def results (m : Machine) (run : List Action) : List (Except Crash Operation) :=
  m.collect result? run

end Machine

end ChipEight
