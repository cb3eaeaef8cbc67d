import Mathlib.Tactic
import ChipEight.Proofs.Cycle.Bounds
import ChipEight.Proofs.Cycle.Faults

/-!
Crashes: what they leave behind, and when they come.

* `cycle_of_outside`, `actAll_of_outside`: a counter outside of the memory stays there, and every
  cycle crashes in the same way.
* `not_overflows_of_error`, `cycle_of_error`: a cycle that fails has no sum that could trap a
  host, and stops at the machine after the fetch.
* `crash_is_atomic`: a crash leaves the machine as the fetch left it, also on a host that changes
  it in place.
* `cycle_fails_iff`: the faults of a cycle are exactly the five listed in `Machine.Fails`, and a
  host finds the same ones with its sums of 64 bits.
-/

namespace ChipEight

namespace Machine

variable {m : Machine}

/-! ### Counters outside of the memory -/

lemma cycle_of_outside (h : 0xFFE < m.counter) :
    m.cycle =
      crash { m with dirty := false } (.opcode (.outside m.counter 4096)) m.counter [] := by
  have hfetch : m.memory.fetch m.counter = .error (.outside m.counter 4096) :=
    fetch_eq_error_iff.mpr ⟨h, rfl⟩
  rw [cycle, hfetch]

/-- Nothing that happens to a machine whose counter is outside of the memory shows in its
processor. -/
lemma snapshot_act_of_outside (h : 0xFFE < m.counter) (a : Action) :
    (m.act a).snapshot = m.snapshot := by
  cases a with
  | cycle =>
      rw [act, cycle_of_outside h]
      rfl
  | _ => rfl

lemma actAll_of_outside (h : 0xFFE < m.counter) (actions : List Action) :
    (m.actAll actions).snapshot = m.snapshot := by
  have hstep : ∀ (n : Nat) (k : Machine) (a : Action), k.snapshot = m.snapshot →
      (k.act a).snapshot = m.snapshot := by
    intro n k a hk
    have hcounter : k.counter = m.counter := congrArg Snapshot.counter hk
    rw [snapshot_act_of_outside (hcounter ▸ h) a, hk]
  exact actAll_induction (P := fun _ k => k.snapshot = m.snapshot) hstep (n := 0) rfl actions

/-- Machines outside of the memory that agree in their processors crash alike. -/
lemma result_of_snapshot_eq {k : Machine} (h : 0xFFE < m.counter)
    (hsnapshot : k.snapshot = m.snapshot) : k.cycle.result = m.cycle.result := by
  have hcounter : k.counter = m.counter := congrArg Snapshot.counter hsnapshot
  have hopcode : k.opcode = m.opcode := congrArg Snapshot.opcode hsnapshot
  rw [cycle_of_outside h, cycle_of_outside (hcounter ▸ h)]
  show Except.error (Crash.mk _ k.opcode _ k.snapshot) =
    Except.error (Crash.mk _ m.opcode _ m.snapshot)
  rw [hcounter, hopcode, hsnapshot]

/-! ### Cycles that fail -/

/-- The instruction whose sum can be too large is never refused. -/
lemma not_overflows_of_error {crash : Crash} (h : m.cycle.result = .error crash) :
    ¬ m.Overflows := by
  rintro ⟨hcounter, x, hdecode, -⟩
  have hfails := error_iff_fails.mp ⟨crash, h, rfl⟩
  generalize crash.fault = fault at hfails
  cases hfails with
  | fetch hout => omega
  | decode _ hnone => simp [hdecode] at hnone
  | call _ target hcall => simp [hdecode] at hcall
  | ret _ hret => simp [hdecode] at hret
  | access _ i length hi hextent hout =>
      cases hdecode.symm.trans hi
      cases hextent

/-- The machine after the fetch, whether there was a word or not. -/
def afterFetch (m : Machine) : Machine :=
  match m.memory.fetch m.counter with
  | .error _ => { m with dirty := false }
  | .ok word => m.fetched word

lemma afterFetch_of_error {cause : OpcodeFault} (hfetch : m.memory.fetch m.counter = .error cause) :
    m.afterFetch = { m with dirty := false } := by
  rw [afterFetch, hfetch]

lemma afterFetch_of_ok {word : Opcode} (hfetch : m.memory.fetch m.counter = .ok word) :
    m.afterFetch = m.fetched word := by
  rw [afterFetch, hfetch]

/-- A change that is none to the counter and the memory can be made before or after the fetch. -/
lemma afterFetch_map {g : Machine → Machine} (hmemory : (g m).memory = m.memory)
    (hcounter : (g m).counter = m.counter)
    (hdirty : { g m with dirty := false } = g { m with dirty := false })
    (hfetched : ∀ word, (g m).fetched word = g (m.fetched word)) :
    (g m).afterFetch = g m.afterFetch := by
  cases hfetch : m.memory.fetch m.counter with
  | error cause =>
      rw [afterFetch_of_error hfetch, ← hdirty]
      exact afterFetch_of_error (by rw [hmemory, hcounter, hfetch])
  | ok word =>
      rw [afterFetch_of_ok hfetch, ← hfetched]
      exact afterFetch_of_ok (by rw [hmemory, hcounter, hfetch])

/-- Wherever a cycle fails, it stops at the machine after the fetch. -/
lemma cycle_of_error {crash : Crash} (h : m.cycle.result = .error crash) :
    ∃ fault log, m.cycle = m.afterFetch.crash fault m.counter log := by
  cases m.cycleCases with
  | unfetched cause hfetch hcycle =>
      exact ⟨_, _, by rw [hcycle, afterFetch_of_error hfetch]⟩
  | undecoded word hfetch hdecode hcycle =>
      exact ⟨_, _, by rw [hcycle, afterFetch_of_ok hfetch]⟩
  | refused word i fault hfetch hdecode hexecute hcycle =>
      exact ⟨_, _, by rw [hcycle, afterFetch_of_ok hfetch]⟩
  | executed word i e hfetch hdecode hexecute hcycle =>
      rw [hcycle] at h
      cases h

/-- After a fetch that failed, every further cycle crashes as the first one did. -/
lemma result_actAll_of_unfetched {cause : OpcodeFault}
    (hfetch : m.memory.fetch m.counter = .error cause) (actions : List Action) :
    (m.cycle.machine.actAll actions).cycle.result = m.cycle.result := by
  have hout : 0xFFE < m.counter := (fetch_eq_error_iff.mp hfetch).1
  have hmachine : m.cycle.machine = { m with dirty := false } := by
    rw [cycle_of_outside hout]
    rfl
  have hsnapshot : m.cycle.machine.snapshot = m.snapshot := by
    rw [hmachine]
    rfl
  have hcounter : m.cycle.machine.counter = m.counter := by rw [hmachine]
  have hrun := actAll_of_outside (hcounter.symm ▸ hout) actions
  exact result_of_snapshot_eq hout (hrun.trans hsnapshot)

end Machine

/-! ### What a crash leaves behind -/

/-- A crash leaves the machine as the fetch left it and tells no observer; it names the address
of the cycle, the word fetched last and the processor as it is then. Where the fetch itself
failed nothing but the flag for drawing is touched, and whatever happens to the machine after
that, each further cycle crashes in the same way. A host that changes its machine in place has
changed no more of it. -/
theorem crash_is_atomic (m : Machine) (crash : Crash) (h : m.cycle.result = .error crash) :
    (match m.memory.fetch m.counter with
      | .error _ =>
        m.cycle.machine = { m with dirty := false } ∧
          ∀ actions, (m.cycle.machine.actAll actions).cycle.result = .error crash
      | .ok word =>
        m.cycle.machine =
          { m with dirty := false, opcode := word, counter := m.counter + 2 }) ∧
      m.cycle.delivered = [] ∧
      crash.address = m.counter ∧
      crash.opcode = m.cycle.machine.opcode ∧
      crash.snapshot = m.cycle.machine.snapshot ∧
      InPlace.cycle m = .done (.error crash) m.cycle.machine := by
  have hinPlace := InPlace.cycle_of_not_overflows (Machine.not_overflows_of_error h)
  rw [h] at hinPlace
  obtain ⟨fault, log, hcycle⟩ := Machine.cycle_of_error h
  have hmachine : m.cycle.machine = m.afterFetch := by
    rw [hcycle]
    rfl
  have hdelivered : m.cycle.delivered = [] := by
    rw [hcycle]
    rfl
  have hcrash : crash = ⟨fault, m.afterFetch.opcode, m.counter, m.afterFetch.snapshot⟩ := by
    rw [hcycle] at h
    cases h
    rfl
  refine ⟨?_, hdelivered, ?_, ?_, ?_, hinPlace⟩
  · cases hfetch : m.memory.fetch m.counter with
    | error cause =>
        refine ⟨by rw [hmachine, Machine.afterFetch, hfetch], fun actions => ?_⟩
        rw [Machine.result_actAll_of_unfetched hfetch actions, h]
    | ok word =>
        rw [hmachine, Machine.afterFetch, hfetch]
        rfl
  · rw [hcrash]
  · rw [hmachine, hcrash]
  · rw [hmachine, hcrash]

/-- Returning from the main program is a crash, and the machine is left behind the return. -/
theorem crash_is_atomic_at_first_return :
    let rom : Rom := ⟨"RETURN", [0x00, 0xEE], by decide⟩
    let m := Machine.boot rom {} (.cycling #[])
    let crash : Crash := ⟨.stack .empty, 0x00EE, 0x200, (m.fetched 0x00EE).snapshot⟩
    m.cycle.result = .error crash ∧
      m.cycle.machine = { m with dirty := false, opcode := 0x00EE, counter := m.counter + 2 } ∧
      InPlace.cycle m = .done (.error crash) m.cycle.machine := by
  intro rom m crash
  have hword : m.nextWord = Opcode.ofBytes 0x00 0xEE := Machine.nextWord_boot rfl _ _
  have hfetch : m.memory.fetch m.counter = .ok 0x00EE :=
    Machine.fetch_eq_ok_iff.mpr ⟨by decide, hword.trans (by decide)⟩
  have hresult : m.cycle.result = .error crash := by
    rw [Machine.cycle, hfetch]
    rfl
  have hatomic := crash_is_atomic m crash hresult
  rw [hfetch] at hatomic
  exact ⟨hresult, hatomic.1, hatomic.2.2.2.2.2⟩

/-! ### When a cycle fails -/

/-- A cycle fails exactly for the reasons of `Machine.Fails`, and succeeds if there is none. On a
host with sums of 64 bits it ends in the same way, unless it adds a register to the index register
and the sum does not fit; no run comes to that in fewer than `2 ^ 54` cycles. -/
theorem cycle_fails_iff (m : Machine) :
    (∀ fault, (∃ crash, m.cycle.result = .error crash ∧ crash.fault = fault) ↔ m.Fails fault) ∧
      ((∃ operation, m.cycle.result = .ok operation) ↔ ∀ fault, ¬ m.Fails fault) ∧
      (¬ m.Overflows → InPlace.cycle m = .done m.cycle.result m.cycle.machine) ∧
      (m.Overflows → InPlace.cycle m = .trap ∧ ∀ rom config random actions,
        Action.cycles actions < 2 ^ 54 →
          m ≠ (Machine.boot rom config random).actAll actions) := by
  refine ⟨fun _ => Machine.error_iff_fails, Machine.ok_iff_not_fails,
    InPlace.cycle_of_not_overflows, fun h => ⟨InPlace.cycle_of_overflows h, ?_⟩⟩
  rintro rom config random actions hcycles rfl
  have hb := (Machine.bounded_boot rom config random).actAll actions
  rw [Nat.zero_add] at hb
  exact Machine.not_overflows_of_bounded hb hcycles h

/-- The last index of 64 bits has no successor; a machine is not there one cycle after booting. -/
theorem cycle_fails_iff_at_last_index :
    let rom : Rom := ⟨"ADD", [0xF0, 0x1E], by decide⟩
    let booted := Machine.boot rom {} (.cycling #[])
    let m : Machine := { booted.setReg .first 1 with index := Movement.span - 1 }
    m.Overflows ∧ InPlace.cycle m = .trap ∧ m ≠ booted.actAll [.cycle] ∧
      ¬ booted.Overflows ∧
      InPlace.cycle booted = .done booted.cycle.result booted.cycle.machine := by
  intro rom booted m
  have hword : booted.nextWord = Opcode.ofBytes 0xF0 0x1E := Machine.nextWord_boot rfl _ _
  have hover : m.Overflows := by
    refine ⟨by decide, .first, ?_, by decide⟩
    show Instruction.decode? booted.nextWord = _
    rw [hword]
    rfl
  have hnot : ¬ booted.Overflows := by
    rintro ⟨-, x, -, hspan⟩
    have hx := (booted.reg x).toNat_lt
    have hindex : booted.index = 0 := rfl
    rw [Movement.span] at hspan
    omega
  obtain ⟨htrap, hreach⟩ := (cycle_fails_iff m).2.2.2 hover
  refine ⟨hover, htrap, hreach rom {} (.cycling #[]) [.cycle] (by decide), hnot, ?_⟩
  exact (cycle_fails_iff booted).2.2.1 hnot

end ChipEight
