import Mathlib.Tactic
import ChipEight.Proofs.Cycle.Executed

/-!
Where randomness enters.

A machine takes one byte from its source for every random instruction it executes, and sees of it
what the mask of the instruction lets through. Nothing else depends on the source.

* `RandomSource.upcoming`, `RandomSource.skip`: the bytes that are still to come, by their
  distance, and the source without the first of them.
* `RandomSource.AgreesOn`: two sources that show the same through some masks, one after another.
* `masks`, `random_actAll`: the masks of the random instructions that a run executes; the run has
  taken a byte for each of them and no other. `masks_of_readRun` computes them from the text.
* `execute_reseed`, `cycle_reseed`, `act_reseed`: with another source that shows the same through
  the mask, an instruction, a cycle and an action do the same.
* `actAll_reseed`: so does a run, with the masks it meets on its way.
* `randomness_enters_by_masked_bytes`: all of it, for a run without masks that let something
  through as well.
-/

namespace ChipEight

/-! ### Sources -/

namespace RandomSource

/-- The byte that is handed out after a number of others. -/
def upcoming (s : RandomSource) (k : ℕ) : UInt8 := s.stream (s.position + k)

/-- The source without its next bytes. -/
def skip (s : RandomSource) (n : ℕ) : RandomSource := { s with position := s.position + n }

lemma skip_skip (s : RandomSource) (n k : ℕ) : (s.skip n).skip k = s.skip (n + k) := by
  simp [skip, Nat.add_assoc]

lemma upcoming_skip (s : RandomSource) (n k : ℕ) : (s.skip n).upcoming k = s.upcoming (n + k) := by
  simp [skip, upcoming, Nat.add_assoc]

/-- Two sources show the same through some masks, the first of which is for the next byte of each
source, the second for the one after it, and so on. -/
def AgreesOn (r s : RandomSource) (masks : List UInt8) : Prop :=
  ∀ k mask, masks[k]? = some mask → r.upcoming k &&& mask = s.upcoming k &&& mask

variable {r s : RandomSource} {front rest : List UInt8}

lemma AgreesOn.of_append (h : r.AgreesOn s (front ++ rest)) :
    r.AgreesOn s front ∧ (r.skip front.length).AgreesOn (s.skip front.length) rest := by
  constructor
  · intro k mask hmask
    refine h k mask ?_
    rw [List.getElem?_append_left (List.getElem?_eq_some_iff.mp hmask).1, hmask]
  · intro k mask hmask
    rw [upcoming_skip, upcoming_skip]
    refine h _ mask ?_
    rw [List.getElem?_append_right (Nat.le_add_right _ k), Nat.add_sub_cancel_left, hmask]

/-- No source shows anything through masks that are zero. -/
lemma agreesOn_of_zero {masks : List UInt8} (h : ∀ mask ∈ masks, mask = 0) :
    r.AgreesOn s masks := by
  intro k mask hmask
  obtain rfl := h mask (List.mem_of_getElem? hmask)
  rw [UInt8.and_zero, UInt8.and_zero]

end RandomSource

/-- The mask of a random instruction. -/
def Instruction.mask? {ρ : Type} : Instruction ρ → Option UInt8
  | .random _ mask => some mask
  | _ => none

/-- Whether an action replaces the source of random bytes. -/
def Action.isReseeding : Action → Bool
  | .reseed _ => true
  | _ => false

/-- The execution by a machine with another source. -/
def Execution.reseed (e : Execution) (r : RandomSource) : Execution :=
  { e with machine := e.machine.reseed r }

/-- The cycle of a machine with another source. -/
def Cycle.reseed (c : Cycle) (r : RandomSource) : Cycle := { c with machine := c.machine.reseed r }

namespace Machine

variable {m : Machine} {r : RandomSource} {a : Action} {run : List Action}

/-! ### Bytes taken -/

/-- The mask under which an action takes a byte, if it is a cycle that executes a random
instruction. -/
def mask? (m : Machine) (a : Action) : Option UInt8 := (m.executedBy? a).bind Instruction.mask?

/-- The masks of the random instructions that a run executes, in order. -/
def masks (m : Machine) (run : List Action) : List UInt8 := m.collect mask? run

/-- The masks of a run, from the text of the program. -/
lemma masks_of_readRun {rom : Rom} {run : List Action} {k : Machine}
    {trail : List (Machine × Instruction Register)} (hprogram : m.HoldsProgram rom)
    (hrun : m.readRun? rom run = some (trail, k)) :
    m.masks run = trail.filterMap fun step => step.2.mask? :=
  collect_of_readRun (fun _ => Instruction.mask?) (fun _ _ => rfl) hprogram hrun

lemma randomAfter_eq (m : Machine) (i : Instruction Register) :
    m.randomAfter i = m.random.skip i.mask?.toList.length := by
  cases i <;> rfl

/-- An action takes a byte if there is a mask for it, and otherwise none. -/
lemma random_act (h : a.isReseeding = false) :
    (m.act a).random = m.random.skip (m.mask? a).toList.length := by
  cases a with
  | cycle =>
      show m.cycle.machine.random = m.random.skip (m.executed?.bind _).toList.length
      cases hexecuted : m.executed? with
      | none =>
          obtain ⟨word, counter, hmachine⟩ := machine_of_crashed hexecuted
          rw [hmachine]
          rfl
      | some i =>
          rw [random_of_executed hexecuted, randomAfter_eq]
          rfl
  | reseed r => cases h
  | _ => rfl

/-- A run takes a byte for each of its masks. -/
theorem random_actAll (h : ∀ a ∈ run, a.isReseeding = false) :
    (m.actAll run).random = m.random.skip (m.masks run).length := by
  induction run using List.reverseRecOn with
  | nil => rfl
  | append_singleton run a ih =>
      rw [actAll_concat, random_act (h a (by simp)), ih fun b hb => h b (by simp [hb]),
        RandomSource.skip_skip, masks, masks, collect_concat, List.length_append]

/-- A random instruction leaves the masked byte in its register, and the others alone. -/
lemma registers_of_random {x : Register} {mask : UInt8} (h : m.executed? = some (.random x mask)) :
    m.cycle.machine.registers = m.registers.set x (m.random.upcoming 0 &&& mask) := by
  obtain ⟨e, hexecute, -, hmachine⟩ := execute_of_executed h
  cases hexecute
  rw [hmachine]
  rfl

/-! ### One step with another source -/

/-- An instruction looks at the source through its mask only. -/
lemma execute_reseed (i : Instruction Register) (h : r.AgreesOn m.random i.mask?.toList) :
    (m.reseed r).execute i =
      (m.execute i).map (Execution.reseed · (r.skip i.mask?.toList.length)) := by
  have hmask : ∀ x mask, i = .random x mask → r.next.1 &&& mask = m.random.next.1 &&& mask := by
    rintro x mask rfl
    exact h 0 mask rfl
  have hrefit : (m.reseed r).execute i = _ :=
    m.execute_refit i (c := m.config) (o := m.observers) hmask
  rw [hrefit, randomAfter_eq]
  cases hexecute : m.execute i with
  | error fault => rfl
  | ok e =>
      obtain ⟨-, -, -, -, hconfig, hobservers⟩ := fixed_of_execute hexecute
      simp only [Except.map, ← hconfig, ← hobservers]
      rfl

/-- A cycle looks at the source through its mask only, and a crash shows nothing of it. -/
theorem cycle_reseed (h : r.AgreesOn m.random (m.mask? .cycle).toList) :
    (m.reseed r).cycle = m.cycle.reseed (r.skip (m.mask? .cycle).toList.length) := by
  have hmask : m.mask? .cycle = m.executed?.bind Instruction.mask? := rfl
  cases hexecuted : m.executed? with
  | none =>
      rw [hmask, hexecuted]
      exact cycle_map_of_crashed (g := (·.reseed r)) rfl rfl rfl (fun _ => rfl) hexecuted
  | some i =>
      obtain ⟨e, hexecute, -, -⟩ := execute_of_executed hexecuted
      have hle := counter_le_of_executed hexecuted
      have hdecode := decode_of_executed hexecuted
      rw [hmask, hexecuted] at h ⊢
      have hthen : ((m.reseed r).fetched m.nextWord).execute i =
          .ok (e.reseed (r.skip i.mask?.toList.length)) := by
        have hmap := execute_reseed (m := m.fetched m.nextWord) i h
        rw [hexecute] at hmap
        exact hmap
      have hcycle := cycle_eq_of_execute (m := m.reseed r) hle hdecode hthen
      rw [hcycle, cycle_eq_of_execute hle hdecode hexecute]
      rfl

/-- An action looks at the source through its mask only. -/
lemma act_reseed (ha : a.isReseeding = false) (h : r.AgreesOn m.random (m.mask? a).toList) :
    (m.reseed r).act a = (m.act a).reseed (r.skip (m.mask? a).toList.length) := by
  cases a with
  | cycle => exact congrArg Cycle.machine (cycle_reseed h)
  | reseed r => cases ha
  | _ => rfl

lemma result?_reseed (h : r.AgreesOn m.random (m.mask? a).toList) :
    (m.reseed r).result? a = m.result? a := by
  cases a with
  | cycle => exact congrArg (some ·.result) (cycle_reseed h)
  | _ => rfl

/-! ### Runs with another source -/

/-- A run looks at the source through the masks that it meets. -/
theorem actAll_reseed (hrun : ∀ a ∈ run, a.isReseeding = false)
    (h : r.AgreesOn m.random (m.masks run)) :
    (m.reseed r).results run = m.results run ∧
      (m.reseed r).actAll run = (m.actAll run).reseed (r.skip (m.masks run).length) := by
  induction run using List.reverseRecOn with
  | nil => exact ⟨rfl, rfl⟩
  | append_singleton run a ih =>
      have hfront : ∀ b ∈ run, b.isReseeding = false := fun b hb => hrun b (by simp [hb])
      rw [masks, collect_concat, ← masks] at h
      obtain ⟨hagrees, hlast⟩ := h.of_append
      rw [← random_actAll hfront] at hlast
      obtain ⟨hresults, hmachine⟩ := ih hfront hagrees
      constructor
      · rw [results, results, collect_concat, collect_concat, ← results, ← results, hresults,
          hmachine, result?_reseed hlast]
      · rw [actAll_concat, actAll_concat, hmachine, act_reseed (hrun a (by simp)) hlast,
          RandomSource.skip_skip, masks, masks, collect_concat, List.length_append]

end Machine

/-- Randomness enters by masked bytes only. In a run that does not replace the source, every random
instruction that is executed takes the next byte, masks it and leaves it in its register, and
nothing else takes bytes. So with any other source that shows the same through the masks that the
run meets, all cycles end in the same way, and the machines agree in everything but the source. If
the masks are all zero, this goes for every source. -/
theorem randomness_enters_by_masked_bytes (m : Machine) (run : List Action)
    (hrun : ∀ a ∈ run, a.isReseeding = false) :
    (m.actAll run).random = m.random.skip (m.masks run).length ∧
    (∀ x mask, (m.actAll run).executed? = some (.random x mask) →
      (m.actAll run).cycle.machine.registers =
        (m.actAll run).registers.set x (m.random.upcoming (m.masks run).length &&& mask)) ∧
    (∀ r : RandomSource,
      (∀ k mask, (m.masks run)[k]? = some mask →
        r.upcoming k &&& mask = m.random.upcoming k &&& mask) →
      (m.reseed r).results run = m.results run ∧
        (m.reseed r).actAll run = (m.actAll run).reseed (r.skip (m.masks run).length)) ∧
    ((∀ mask ∈ m.masks run, mask = 0) → ∀ r : RandomSource,
      (m.reseed r).results run = m.results run ∧
        (m.reseed r).actAll run = (m.actAll run).reseed (r.skip (m.masks run).length)) := by
  have hrandom : (m.actAll run).random = m.random.skip (m.masks run).length :=
    Machine.random_actAll hrun
  refine ⟨hrandom, fun x mask h => ?_, fun r h => Machine.actAll_reseed hrun h, fun h r => ?_⟩
  · rw [Machine.registers_of_random h, hrandom, RandomSource.upcoming_skip, Nat.add_zero]
  · exact Machine.actAll_reseed hrun (RandomSource.agreesOn_of_zero h)

/-- Two sources whose bytes end in the same digit, seen through a mask that lets this digit through
and one that lets nothing through. -/
theorem randomness_enters_by_masked_bytes_at_equal_digits :
    let rom : Rom := ⟨"DICE", [0xC0, 0x0F, 0xC1, 0x00], by decide⟩
    let m := Machine.boot rom {} (.cycling #[0x13, 0x50])
    let r : RandomSource := .cycling #[0x23, 0x61]
    let run : List Action := [.cycle, .press 5, .cycle]
    (∀ a ∈ run, a.isReseeding = false) ∧ m.masks run = [0x0F, 0x00] ∧
      (∀ k mask, (m.masks run)[k]? = some mask →
        r.upcoming k &&& mask = m.random.upcoming k &&& mask) ∧
      (m.reseed r).results run = m.results run ∧
      (m.reseed r).actAll run = (m.actAll run).reseed (r.skip 2) := by
  intro rom m r run
  have hrun : ∀ a ∈ run, a.isReseeding = false := by decide
  have hmasks : m.masks run = [0x0F, 0x00] := by
    have hprogram : m.HoldsProgram rom := Machine.holdsProgram_of_image rfl
    subst m rom run
    exact (Machine.masks_of_readRun hprogram rfl).trans rfl
  have hagrees : ∀ k mask, (m.masks run)[k]? = some mask →
      r.upcoming k &&& mask = m.random.upcoming k &&& mask := by
    rw [hmasks]
    rintro (_ | _ | k) mask hmask
    · cases hmask
      decide
    · cases hmask
      decide
    · cases hmask
  obtain ⟨hresults, hthen⟩ :=
    (randomness_enters_by_masked_bytes m run hrun).2.2.1 r hagrees
  rw [hmasks] at hthen
  exact ⟨hrun, hmasks, hagrees, hresults, hthen⟩

end ChipEight
