import ChipEight.Proofs.Cycle.Step

/-!
Which cycles fail, and why.

* `Instruction.extent?`: how many bytes at the index register an instruction needs.
* `Machine.Refuses`, `execute_eq_error_iff`: an instruction is refused for want of a frame or of
  memory, and for no other reason.
* `Machine.Fails`, `error_iff_fails`: the same for a whole cycle, which may also lack a word or
  an instruction.
-/

namespace ChipEight

/-! ### Refused instructions -/

/-- The number of bytes at the index register that an instruction needs. -/
def Instruction.extent? : Instruction Register → Option Nat
  | .draw _ _ height => some height
  | .storeDigits _ => some 3
  | .storeRegisters x => some (x + 1)
  | .loadRegisters x => some (x + 1)
  | _ => none

namespace Machine

/-- Why a machine refuses an instruction. -/
inductive Refuses (m : Machine) : Instruction Register → Fault → Prop where
  /-- All frames of the stack are in use. -/
  | call (target : Nat) (hfull : m.stack.depth = 16) : Refuses m (.call target) (.stack .full)
  /-- There is no frame to return to. -/
  | ret (hempty : m.stack.depth = 0) : Refuses m .ret (.stack .empty)
  /-- The bytes at the index register do not all lie in the memory. -/
  | access (i : Instruction Register) (length : Nat) (hextent : i.extent? = some length)
      (hout : 4096 < m.index + length) : Refuses m i (.memory ⟨m.index, length⟩)

variable {m : Machine} {i : Instruction Register} {fault : Fault}

lemma refuses_of_execute (h : m.execute i = .error fault) : m.Refuses i fault := by
  cases i with
  | ret =>
      simp only [execute] at h
      split at h
      · next cause hpop =>
          obtain ⟨hempty, rfl⟩ := CallStack.pop_eq_error_iff.mp hpop
          cases h
          exact .ret hempty
      · cases h
  | call target =>
      simp only [execute] at h
      split at h
      · next cause hpush =>
          obtain ⟨hfull, rfl⟩ := CallStack.push_eq_error_iff.mp hpush
          cases h
          exact .call target hfull
      · cases h
  | draw x y height =>
      simp only [execute] at h
      split at h
      · next cause hread =>
          obtain ⟨hout, rfl⟩ := Memory.read_eq_error_iff.mp hread
          cases h
          exact .access _ height rfl hout
      · cases h
  | awaitKey x =>
      simp only [execute] at h
      split at h <;> cases h
  | storeDigits x =>
      simp only [execute] at h
      split at h
      · next cause hwrite =>
          obtain ⟨hout, rfl⟩ := Memory.write_eq_error_iff.mp hwrite
          cases h
          exact .access _ 3 rfl hout
      · cases h
  | storeRegisters x =>
      simp only [execute] at h
      split at h
      · next cause hwrite =>
          obtain ⟨hout, rfl⟩ := Memory.write_eq_error_iff.mp hwrite
          cases h
          rw [Registers.length_upTo] at hout ⊢
          exact .access _ (x + 1) rfl hout
      · cases h
  | loadRegisters x =>
      simp only [execute] at h
      split at h
      · next cause hread =>
          obtain ⟨hout, rfl⟩ := Memory.read_eq_error_iff.mp hread
          cases h
          exact .access _ (x + 1) rfl hout
      · cases h
  | _ => cases h

lemma execute_of_refuses (h : m.Refuses i fault) : m.execute i = .error fault := by
  cases h with
  | call target hfull => simp [execute, CallStack.push_eq_error_iff.mpr ⟨hfull, rfl⟩]
  | ret hempty => simp [execute, CallStack.pop_eq_error_iff.mpr ⟨hempty, rfl⟩]
  | access _ length hextent hout =>
      cases i with
      | draw x y height =>
          cases hextent
          have hread : m.memory.read m.index length = .error ⟨m.index, length⟩ :=
            Memory.read_eq_error_iff.mpr ⟨hout, rfl⟩
          simp [execute, hread]
      | storeDigits x =>
          cases hextent
          have hwrite : m.memory.write m.index (decimalDigits (m.reg x)) = .error ⟨m.index, 3⟩ :=
            Memory.write_eq_error_iff.mpr ⟨hout, rfl⟩
          simp [execute, hwrite]
      | storeRegisters x =>
          cases hextent
          have hwrite : m.memory.write m.index (m.registers.upTo x) =
              .error ⟨m.index, x + 1⟩ := by
            rw [Memory.write_eq_error_iff, Registers.length_upTo]
            exact ⟨hout, rfl⟩
          simp [execute, hwrite]
      | loadRegisters x =>
          cases hextent
          have hread : m.memory.read m.index (x + 1) = .error ⟨m.index, x + 1⟩ :=
            Memory.read_eq_error_iff.mpr ⟨hout, rfl⟩
          simp [execute, hread]
      | _ => cases hextent

/-- An instruction fails exactly when and why the machine refuses it. -/
theorem execute_eq_error_iff : m.execute i = .error fault ↔ m.Refuses i fault :=
  ⟨refuses_of_execute, execute_of_refuses⟩

/-- Refusing is up to the stack and the index register. -/
lemma Refuses.congr {k : Machine} (h : m.Refuses i fault) (hstack : k.stack = m.stack)
    (hindex : k.index = m.index) : k.Refuses i fault := by
  cases h with
  | call target hfull => exact .call target (hstack ▸ hfull)
  | ret hempty => exact .ret (hstack ▸ hempty)
  | access _ length hextent hout =>
      rw [← hindex] at hout ⊢
      exact .access i length hextent hout

lemma refuses_fetched_iff {word : Opcode} : (m.fetched word).Refuses i fault ↔ m.Refuses i fault :=
  ⟨fun h => h.congr rfl rfl, fun h => h.congr rfl rfl⟩

/-! ### Failing cycles -/

/-- Why a cycle of a machine fails. -/
inductive Fails (m : Machine) : Fault → Prop where
  /-- There are not two bytes at the counter. -/
  | fetch (hcounter : 0xFFE < m.counter) : Fails m (.opcode (.outside m.counter 4096))
  /-- The word at the counter stands for no instruction. -/
  | decode (hcounter : m.counter ≤ 0xFFE) (hdecode : Instruction.decode? m.nextWord = none) :
      Fails m (.opcode (.unsupported m.nextWord))
  /-- The word calls, and all frames of the stack are in use. -/
  | call (hcounter : m.counter ≤ 0xFFE) (target : Nat)
      (hdecode : Instruction.decode? m.nextWord = some (.call target))
      (hfull : m.stack.depth = 16) : Fails m (.stack .full)
  /-- The word returns, and there is no frame to return to. -/
  | ret (hcounter : m.counter ≤ 0xFFE)
      (hdecode : Instruction.decode? m.nextWord = some .ret)
      (hempty : m.stack.depth = 0) : Fails m (.stack .empty)
  /-- The word needs bytes at the index register that do not all lie in the memory. -/
  | access (hcounter : m.counter ≤ 0xFFE) (i : Instruction Register) (length : Nat)
      (hdecode : Instruction.decode? m.nextWord = some i)
      (hextent : i.extent? = some length) (hout : 4096 < m.index + length) :
      Fails m (.memory ⟨m.index, length⟩)

/-- Failing is up to the counter, the memory, the stack and the index register. -/
lemma Fails.congr {k : Machine} (h : m.Fails fault) (hcounter : k.counter = m.counter)
    (hmemory : k.memory = m.memory) (hstack : k.stack = m.stack) (hindex : k.index = m.index) :
    k.Fails fault := by
  have hword : k.nextWord = m.nextWord := by rw [nextWord, hmemory, hcounter, ← nextWord]
  cases h with
  | fetch h =>
      rw [← hcounter] at h ⊢
      exact .fetch h
  | decode h hdecode =>
      rw [← hword] at hdecode ⊢
      exact .decode (hcounter ▸ h) hdecode
  | call h target hdecode hfull =>
      exact .call (hcounter ▸ h) target (hword ▸ hdecode) (hstack ▸ hfull)
  | ret h hdecode hempty => exact .ret (hcounter ▸ h) (hword ▸ hdecode) (hstack ▸ hempty)
  | access h i length hdecode hextent hout =>
      rw [← hindex] at hout ⊢
      exact .access (hcounter ▸ h) i length (hword ▸ hdecode) hextent hout

lemma fails_of_refuses (hcounter : m.counter ≤ 0xFFE)
    (hdecode : Instruction.decode? m.nextWord = some i) (h : m.Refuses i fault) :
    m.Fails fault := by
  cases h with
  | call target hfull => exact .call hcounter target hdecode hfull
  | ret hempty => exact .ret hcounter hdecode hempty
  | access _ length hextent hout => exact .access hcounter i length hdecode hextent hout

lemma refuses_of_fails (hcounter : m.counter ≤ 0xFFE)
    (hdecode : Instruction.decode? m.nextWord = some i) (h : m.Fails fault) :
    m.Refuses i fault := by
  cases h with
  | fetch h => omega
  | decode _ hnone => simp [hdecode] at hnone
  | call _ target hcall hfull =>
      cases hdecode.symm.trans hcall
      exact .call target hfull
  | ret _ hret hempty =>
      cases hdecode.symm.trans hret
      exact .ret hempty
  | access _ j length hj hextent hout =>
      cases hdecode.symm.trans hj
      exact .access i length hextent hout

/-- A cycle fails exactly when and why its machine fails. -/
theorem error_iff_fails :
    (∃ crash, m.cycle.result = .error crash ∧ crash.fault = fault) ↔ m.Fails fault := by
  cases m.cycleCases with
  | unfetched cause hfetch hcycle =>
      obtain ⟨hcounter, rfl⟩ := fetch_eq_error_iff.mp hfetch
      simp only [hcycle, crash, Except.error.injEq, exists_eq_left']
      constructor
      · rintro rfl
        exact .fetch hcounter
      · intro h
        cases h <;> first | rfl | omega
  | undecoded word hfetch hdecode hcycle =>
      obtain ⟨hcounter, rfl⟩ := fetch_eq_ok_iff.mp hfetch
      simp only [hcycle, crash, Except.error.injEq, exists_eq_left']
      constructor
      · rintro rfl
        exact .decode hcounter hdecode
      · intro h
        cases h <;> first | rfl | omega | simp_all
  | refused word i cause hfetch hdecode hexecute hcycle =>
      obtain ⟨hcounter, rfl⟩ := fetch_eq_ok_iff.mp hfetch
      simp only [hcycle, crash, Except.error.injEq, exists_eq_left']
      constructor
      · rintro rfl
        exact fails_of_refuses hcounter hdecode
          (refuses_fetched_iff.mp (execute_eq_error_iff.mp hexecute))
      · intro h
        have hrefuses := refuses_of_fails hcounter hdecode h
        rw [execute_eq_error_iff.mpr (refuses_fetched_iff.mpr hrefuses)] at hexecute
        cases hexecute
        rfl
  | executed word i e hfetch hdecode hexecute hcycle =>
      obtain ⟨hcounter, rfl⟩ := fetch_eq_ok_iff.mp hfetch
      have hnot : ¬ m.Fails fault := by
        intro h
        have hrefuses := refuses_of_fails hcounter hdecode h
        rw [execute_eq_error_iff.mpr (refuses_fetched_iff.mpr hrefuses)] at hexecute
        cases hexecute
      simp [hcycle, hnot]

/-- A cycle succeeds exactly if its machine does not fail. -/
theorem ok_iff_not_fails :
    (∃ operation, m.cycle.result = .ok operation) ↔ ∀ fault, ¬ m.Fails fault := by
  constructor
  · rintro ⟨operation, hok⟩ fault hfails
    obtain ⟨crash, herror, -⟩ := error_iff_fails.mpr hfails
    rw [hok] at herror
    cases herror
  · intro hnot
    cases hresult : m.cycle.result with
    | ok operation => exact ⟨operation, rfl⟩
    | error crash => exact absurd (error_iff_fails.mp ⟨crash, hresult, rfl⟩) (hnot crash.fault)

end Machine

end ChipEight
