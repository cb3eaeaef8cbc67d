import Mathlib.Tactic
import ChipEight.Proofs.Cycle.Executed

/-!
Calls and returns nest.

* `StackStep`, `stackStep`: a cycle puts the address behind its call on top of the stack, or
  takes the address it goes back to from there, or leaves the stack alone.
* `depth_actAll`: the depth grows with the calls of a run and shrinks with its returns.
* `take_actAll`: the frames that the depth never falls below are the same after the run.
* `calls_nest`: a run that comes back to the depth before a call for the first time does so by a
  return, and is then behind the call with the stack from before it.
-/

namespace ChipEight

/-- Whether an instruction is a call. -/
def Instruction.isCall {ρ : Type} : Instruction ρ → Bool
  | .call _ => true
  | _ => false

/-- A stack with one more address on top is deeper by one. -/
lemma CallStack.depth_of_toList {s t : CallStack} {address : Nat}
    (h : t.toList = s.toList ++ [address]) : t.depth = s.depth + 1 := by
  rw [← t.length_toList, ← s.length_toList, h, List.length_append, List.length_singleton]

namespace Machine

variable {m : Machine}

/-! ### One cycle -/

/-- What a cycle can do to the stack. -/
inductive StackStep (m : Machine) : Prop where
  | called (target : Nat) (hexecuted : m.executed? = some (.call target))
      (hstack : m.cycle.machine.stack.toList = m.stack.toList ++ [m.counter + 2])
  | returned (hexecuted : m.executed? = some .ret)
      (hstack : m.stack.toList = m.cycle.machine.stack.toList ++ [m.cycle.machine.counter])
  | kept (hexecuted : ∀ i, m.executed? = some i → i.isCall = false ∧ i ≠ .ret)
      (hstack : m.cycle.machine.stack = m.stack)

lemma stackStep (m : Machine) : StackStep m := by
  cases hexecuted : m.executed? with
  | none =>
      obtain ⟨word, counter, hmachine⟩ := machine_of_crashed hexecuted
      exact .kept (by simp [hexecuted]) (by rw [hmachine])
  | some i =>
      obtain ⟨e, hexecute, -, hmachine⟩ := execute_of_executed hexecuted
      have hkept : i.isCall = false → i ≠ .ret →
          e.machine.stack.frames = m.stack.frames → StackStep m := by
        intro hcall hret hframes
        refine .kept ?_ ?_
        · rw [hexecuted]
          rintro _ ⟨⟩
          exact ⟨hcall, hret⟩
        · rw [hmachine]
          exact CallStack.ext_toList (congrArg List.reverse hframes)
      cases i with
      | ret =>
          obtain ⟨address, stack, hpop, rfl⟩ := execute_ret_ok hexecute
          refine .returned hexecuted ?_
          rw [hmachine]
          exact CallStack.pop_eq_ok_iff.mp hpop
      | call target =>
          obtain ⟨stack, hpush, rfl⟩ := execute_call_ok hexecute
          refine .called target hexecuted ?_
          rw [hmachine]
          exact (CallStack.push_eq_ok_iff.mp hpush).2
      | _ => exact hkept rfl (by simp) (frames_of_execute hexecute)

lemma depth_act (m : Machine) (a : Action) :
    (m.act a).stack.depth + (m.executedBy? a).toList.count .ret =
      m.stack.depth + (m.executedBy? a).toList.countP Instruction.isCall := by
  cases a with
  | cycle =>
      show m.cycle.machine.stack.depth + m.executed?.toList.count .ret =
        m.stack.depth + m.executed?.toList.countP Instruction.isCall
      cases m.stackStep with
      | called target hexecuted hstack =>
          simp [hexecuted, Instruction.isCall, CallStack.depth_of_toList hstack]
      | returned hexecuted hstack =>
          simp [hexecuted, Instruction.isCall, CallStack.depth_of_toList hstack]
      | kept hexecuted hstack =>
          rw [hstack]
          cases hi : m.executed? with
          | none => simp
          | some i => simp [hexecuted i hi]
  | _ => rfl

/-- Frames below the top are out of reach of an action. -/
lemma take_act {level : Nat} {a : Action} (hbefore : level ≤ m.stack.depth)
    (hafter : level ≤ (m.act a).stack.depth) :
    (m.act a).stack.toList.take level = m.stack.toList.take level := by
  rw [← CallStack.length_toList] at hbefore hafter
  cases a with
  | cycle =>
      change level ≤ m.cycle.machine.stack.toList.length at hafter
      show m.cycle.machine.stack.toList.take level = _
      cases m.stackStep with
      | called target hexecuted hstack => rw [hstack, List.take_append_of_le_length hbefore]
      | returned hexecuted hstack => rw [hstack, List.take_append_of_le_length hafter]
      | kept hexecuted hstack => rw [hstack]
  | _ => rfl

/-! ### Runs -/

/-- The depth counts the calls that were not returned from. -/
theorem depth_actAll (m : Machine) (run : List Action) :
    (m.actAll run).stack.depth + (m.executed run).count .ret =
      m.stack.depth + (m.executed run).countP Instruction.isCall := by
  induction run using List.reverseRecOn with
  | nil => rfl
  | append_singleton run a ih =>
      have hstep := (m.actAll run).depth_act a
      rw [executed_concat, actAll_concat, List.count_append, List.countP_append]
      omega

/-- The frames that the depth never falls below stay as they are. -/
theorem take_actAll {level : Nat} {run : List Action}
    (h : ∀ front, front <+: run → level ≤ (m.actAll front).stack.depth) :
    (m.actAll run).stack.toList.take level = m.stack.toList.take level := by
  induction run using List.reverseRecOn with
  | nil => rfl
  | append_singleton run a ih =>
      have hbefore := h run (List.prefix_append run [a])
      have hafter := h (run ++ [a]) (List.prefix_refl _)
      have hrun := ih fun front hfront => h front (hfront.trans (List.prefix_append run [a]))
      rw [actAll_concat] at hafter ⊢
      rw [take_act hbefore hafter, hrun]

/-- The call that comes next is executed, also if keys are pressed before. -/
lemma executed?_of_call {run : List Action} {target : Nat} (hcounter : m.counter ≤ 0xFFE)
    (hdecode : Instruction.decode? m.nextWord = some (.call target)) (hdepth : m.stack.depth < 16)
    (hrun : Action.cycles run = 0) : (m.actAll run).executed? = some (.call target) := by
  obtain ⟨keypad, random, observers, hstill⟩ := m.actAll_of_no_cycle hrun
  rw [hstill]
  refine executed?_eq_some hcounter hdecode fun fault h => ?_
  cases h with
  | call _ hfull => exact absurd hfull hdepth.ne
  | access _ length hextent hout => cases hextent

/-- The cycle of that call puts the address behind it on top of the stack. -/
lemma toList_after_call {run : List Action} {target : Nat} (hcounter : m.counter ≤ 0xFFE)
    (hdecode : Instruction.decode? m.nextWord = some (.call target)) (hdepth : m.stack.depth < 16)
    (hrun : Action.cycles run = 0) :
    (m.actAll (run ++ [.cycle])).stack.toList = m.stack.toList ++ [m.counter + 2] := by
  have hcall := executed?_of_call hcounter hdecode hdepth hrun
  obtain ⟨keypad, random, observers, hstill⟩ := m.actAll_of_no_cycle hrun
  have hcounters : (m.actAll run).counter = m.counter := by rw [hstill]
  have hstack : (m.actAll run).stack = m.stack := by rw [hstill]
  rw [actAll_concat, act, ← hcounters, ← hstack]
  cases (m.actAll run).stackStep with
  | called target hexecuted hpushed => exact hpushed
  | returned hexecuted hpopped =>
      rw [hcall] at hexecuted
      cases hexecuted
  | kept hexecuted hkept => cases (hexecuted _ hcall).1

/-- As long as the depth stays above that from before the call, the frame of the call is in its
place and no frame below it has changed. -/
lemma take_after_call {front rest : List Action} {target : Nat} (hcounter : m.counter ≤ 0xFFE)
    (hdecode : Instruction.decode? m.nextWord = some (.call target)) (hdepth : m.stack.depth < 16)
    (hfront : Action.cycles front = 0)
    (habove : ∀ part, part <+: rest →
      m.stack.depth < (m.actAll (front ++ .cycle :: part)).stack.depth) :
    (m.actAll (front ++ .cycle :: rest)).stack.toList.take (m.stack.depth + 1) =
      m.stack.toList ++ [m.counter + 2] := by
  have hpushed := toList_after_call hcounter hdecode hdepth hfront
  have hsplit : ∀ part, m.actAll (front ++ .cycle :: part) =
      (m.actAll (front ++ [.cycle])).actAll part := by
    intro part
    rw [← actAll_append, List.append_assoc, List.singleton_append]
  have hlength : (m.stack.toList ++ [m.counter + 2]).length = m.stack.depth + 1 := by simp
  calc
    (m.actAll (front ++ .cycle :: rest)).stack.toList.take (m.stack.depth + 1)
    _ = (m.actAll (front ++ [.cycle])).stack.toList.take (m.stack.depth + 1) := by
      rw [hsplit, take_actAll fun part hpart => hsplit part ▸ habove part hpart]
    _ = (m.stack.toList ++ [m.counter + 2]).take (m.stack.depth + 1) := by rw [hpushed]
    _ = m.stack.toList ++ [m.counter + 2] := by rw [← hlength, List.take_length]

end Machine

/-- A call and the return that ends it belong together: if the next instruction of a machine is a
call for which there is room, and a run stays above the depth from before until its last cycle
comes back to it, then that cycle returns, to the address behind the call and with the stack from
before it. In every run the depth counts calls and returns, and frames are left alone as long as
the depth does not fall below them. Nothing is asked of the cycles in between: those that crash
do not touch the stack. -/
theorem calls_nest (m : Machine) :
    (∀ target run, m.counter ≤ 0xFFE → Instruction.decode? m.nextWord = some (.call target) →
      m.stack.depth < 16 →
      (∀ front, front <+: run → 0 < Action.cycles front →
        m.stack.depth < (m.actAll front).stack.depth) →
      (m.actAll (run ++ [.cycle])).stack.depth = m.stack.depth →
        (m.actAll run).executed? = some .ret ∧
          (m.actAll (run ++ [.cycle])).counter = m.counter + 2 ∧
          (m.actAll (run ++ [.cycle])).stack = m.stack) ∧
    ∀ run,
      (m.actAll run).stack.depth + (m.executed run).count .ret =
          m.stack.depth + (m.executed run).countP Instruction.isCall ∧
        ∀ level, (∀ front, front <+: run → level ≤ (m.actAll front).stack.depth) →
          (m.actAll run).stack.toList.take level = m.stack.toList.take level := by
  refine ⟨?_, fun run => ⟨m.depth_actAll run, fun level h => Machine.take_actAll h⟩⟩
  intro target run hcounter hdecode hdepth habove hback
  -- a run without a cycle would come back to the depth by the call itself
  have hcycles : 0 < Action.cycles run := by
    by_contra hnone
    have hpushed :=
      Machine.toList_after_call hcounter hdecode hdepth (Nat.eq_zero_of_not_pos hnone)
    have hdeeper := CallStack.depth_of_toList hpushed
    omega
  obtain ⟨front, rest, rfl, hfront⟩ := Action.exists_first_cycle hcycles
  have hrest : ∀ part, part <+: rest →
      m.stack.depth < (m.actAll (front ++ .cycle :: part)).stack.depth := by
    intro part hpart
    have hprefix : front ++ .cycle :: part <+: front ++ .cycle :: rest :=
      (List.prefix_append_right_inj front).mpr (List.cons_prefix_cons.mpr ⟨rfl, hpart⟩)
    exact habove _ hprefix (by simp [Action.weight])
  have hframes := Machine.take_after_call hcounter hdecode hdepth hfront hrest
  have hlast := habove _ (List.prefix_refl _) hcycles
  rw [Machine.actAll_concat, Machine.act] at hback ⊢
  generalize m.actAll (front ++ .cycle :: rest) = k at hframes hlast hback ⊢
  cases k.stackStep with
  | called target hexecuted hstack =>
      have hdeeper := CallStack.depth_of_toList hstack
      omega
  | kept hexecuted hstack =>
      rw [hstack] at hback
      omega
  | returned hexecuted hstack =>
      have hdeeper := CallStack.depth_of_toList hstack
      rw [List.take_of_length_le (by rw [CallStack.length_toList]; omega), hstack] at hframes
      obtain ⟨htoList, hcounter⟩ := List.append_inj' hframes rfl
      exact ⟨hexecuted, List.singleton_inj.mp hcounter, CallStack.ext_toList htoList⟩

/-- A machine whose program calls the subroutine behind it, which returns at once, with a key
pressed before: the cycle after the call returns. -/
theorem calls_nest_at_empty_subroutine :
    let rom : Rom := ⟨"CALL", [0x22, 0x04, 0x12, 0x02, 0x00, 0xEE], by decide⟩
    let m := Machine.boot rom {} (.cycling #[])
    let run : List Action := [.press 5, .cycle]
    Instruction.decode? m.nextWord = some (.call 0x204) ∧
      (m.actAll (run ++ [.cycle])).stack.depth = m.stack.depth ∧
      (m.actAll run).executed? = some .ret ∧
      (m.actAll (run ++ [.cycle])).counter = 0x202 ∧
      (m.actAll (run ++ [.cycle])).stack = m.stack ∧
      ((m.actAll run).actAll [.press 7]).stack.toList.take 1 =
        (m.actAll run).stack.toList.take 1 := by
  intro rom m run
  -- the call, the return, and the stack after each, as the text of the program tells
  obtain ⟨hcall, hret, hstack, hback⟩ :
      m.executed? = some (.call 0x204) ∧ (m.actAll run).executed? = some .ret ∧
        (m.actAll run).stack.frames = [0x202] ∧
        (m.actAll (run ++ [.cycle])).stack.depth = m.stack.depth := by
    have hprogram : m.HoldsProgram rom := Machine.holdsProgram_of_image rfl
    subst m run rom
    refine ⟨(Machine.readCycle_sound hprogram rfl).1, Machine.executed?_of_readRun hprogram rfl rfl,
      ?_, ?_⟩
    · rw [Machine.actAll_of_readRun hprogram rfl]
      rfl
    · rw [Machine.actAll_of_readRun hprogram rfl]
      rfl
  have hdecode : Instruction.decode? m.nextWord = some (.call 0x204) :=
    Machine.decode_of_executed hcall
  have hdepth : (m.actAll run).stack.depth = 1 := congrArg List.length hstack
  have habove : ∀ front, front <+: run → 0 < Action.cycles front →
      m.stack.depth < (m.actAll front).stack.depth := by
    intro front hfront hcycles
    rcases List.prefix_cons_iff.mp hfront with rfl | ⟨rest, rfl, hrest⟩
    · cases hcycles
    · rcases List.prefix_cons_iff.mp hrest with rfl | ⟨last, rfl, hlast⟩
      · cases hcycles
      · obtain rfl := List.prefix_nil.mp hlast
        show 0 < (m.actAll run).stack.depth
        omega
  have hlevel : ∀ k : Machine, k.stack.depth = 1 → ∀ front, front <+: [.press 7] →
      1 ≤ (k.actAll front).stack.depth := by
    intro k hk front hfront
    rcases List.prefix_cons_iff.mp hfront with rfl | ⟨rest, rfl, hrest⟩
    · exact hk.ge
    · obtain rfl := List.prefix_nil.mp hrest
      exact hk.ge
  obtain ⟨hreturns, hbehind, hsame⟩ :=
    (calls_nest m).1 0x204 run (by decide) hdecode (by decide) habove hback
  exact ⟨hdecode, hback, hreturns, hbehind, hsame,
    ((calls_nest (m.actAll run)).2 [.press 7]).2 1 (hlevel _ hdepth)⟩

end ChipEight
