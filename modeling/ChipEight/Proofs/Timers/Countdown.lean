import Mathlib.Tactic
import ChipEight.Proofs.Cycle.Executed

/-!
The timers count successful cycles.

A timer is set by an instruction of its own and counts down at the end of every cycle that does
not crash, so an instruction that sets it loses one count at once, and a crash costs none.

* `Clock`, `clock`, `setter`: the two timers, which differ in the instruction that sets them.
* `value_act`, `value_actAll`: as long as it is not set, a timer loses one for each instruction
  that is executed, down to zero.
* `exists_last_set`: a run either does not set a timer, or sets it for the last time somewhere.
* `wind`, `executed?_wind`, `actAll_wind`: a timer that shows another value makes no difference
  to anything else, unless the delay timer is read.
* `timers_count_successful_cycles`: all of it, for both timers.
-/

namespace ChipEight

/-- The timers of a machine. -/
inductive Clock where
  /-- The delay timer. -/
  | delay
  /-- The sound timer. -/
  | sound
deriving DecidableEq

namespace Clock

/-- The instruction that sets a timer to the byte in a register. -/
def setter (c : Clock) (x : Register) : Instruction Register :=
  match c with
  | delay => .setDelay x
  | sound => .setSound x

/-- Whether an instruction looks at a timer. -/
def isReadBy (c : Clock) (i : Instruction Register) : Bool :=
  match c, i with
  | delay, .getDelay _ => true
  | _, _ => false

end Clock

namespace Machine

/-- A timer of a machine. -/
def clock (m : Machine) : Clock → Timer
  | .delay => m.delay
  | .sound => m.sound

/-- The machine with another timer in the place of one of its own. -/
def wind (m : Machine) (c : Clock) (t : Timer) : Machine :=
  match c with
  | .delay => { m with delay := t }
  | .sound => { m with sound := t }

variable {m : Machine} {i : Instruction Register} {c : Clock}

/-! ### One cycle -/

/-- An instruction that sets a timer loses one count at once. -/
lemma clock_of_setter {x : Register} (h : m.executed? = some (c.setter x)) :
    m.cycle.machine.clock c = Timer.tick ⟨m.reg x⟩ := by
  cases c with
  | delay => exact delay_of_executed h
  | sound => exact sound_of_executed h

/-- Every other instruction lets the timer count down from where it is. -/
lemma clock_of_executed (h : m.executed? = some i) (hunset : ∀ x, i ≠ c.setter x) :
    m.cycle.machine.clock c = (m.clock c).tick := by
  cases c with
  | delay =>
      refine (delay_of_executed h).trans (congrArg Timer.tick ?_)
      cases i with
      | setDelay x => exact absurd rfl (hunset x)
      | _ => rfl
  | sound =>
      refine (sound_of_executed h).trans (congrArg Timer.tick ?_)
      cases i with
      | setSound x => exact absurd rfl (hunset x)
      | _ => rfl

lemma clock_of_crashed (h : m.executed? = none) : m.cycle.machine.clock c = m.clock c := by
  obtain ⟨word, counter, hmachine⟩ := machine_of_crashed h
  rw [hmachine]
  cases c <;> rfl

/-- An action that does not set a timer takes one from it if it is a cycle that succeeds. -/
lemma value_act (m : Machine) (a : Action)
    (hunset : ∀ x, c.setter x ∉ (m.executedBy? a).toList) :
    ((m.act a).clock c).value.toNat =
      (m.clock c).value.toNat - (m.executedBy? a).toList.length := by
  cases a with
  | cycle =>
      change ∀ x, c.setter x ∉ m.executed?.toList at hunset
      show (m.cycle.machine.clock c).value.toNat = _ - m.executed?.toList.length
      cases hexecuted : m.executed? with
      | none => rw [clock_of_crashed hexecuted]; rfl
      | some i =>
          rw [hexecuted] at hunset
          have hne : ∀ x, i ≠ c.setter x := fun x hx => hunset x (by simp [hx])
          rw [clock_of_executed hexecuted hne, Timer.toNat_tick]
          rfl
  | _ => cases c <;> rfl

/-! ### Runs -/

/-- A timer that is not set loses one for each instruction, down to zero. -/
theorem value_actAll {run : List Action} (hunset : ∀ x, c.setter x ∉ m.executed run) :
    ((m.actAll run).clock c).value.toNat =
      (m.clock c).value.toNat - (m.executed run).length := by
  induction run using List.reverseRecOn with
  | nil => rfl
  | append_singleton run a ih =>
      rw [executed_concat] at hunset ⊢
      have hfront : ∀ x, c.setter x ∉ m.executed run :=
        fun x hx => hunset x (List.mem_append_left _ hx)
      have hlast : ∀ x, c.setter x ∉ ((m.actAll run).executedBy? a).toList :=
        fun x hx => hunset x (List.mem_append_right _ hx)
      rw [actAll_concat, value_act _ _ hlast, ih hfront, List.length_append, Nat.sub_sub]

/-- A timer that is set and then left alone has lost one for each instruction since, the one that
sets it included. -/
lemma value_of_last_set {x : Register} {rest : List Action} (h : m.executed? = some (c.setter x))
    (hunset : ∀ y, c.setter y ∉ m.cycle.machine.executed rest) :
    ((m.cycle.machine.actAll rest).clock c).value.toNat =
      (m.reg x).toNat - (m.executed (.cycle :: rest)).length := by
  have hlength : (m.executed (.cycle :: rest)).length =
      1 + (m.cycle.machine.executed rest).length := by
    show (m.executed?.toList ++ m.cycle.machine.executed rest).length = _
    rw [h, List.length_append]
    rfl
  rw [value_actAll hunset, clock_of_setter h, Timer.toNat_tick, hlength, Nat.sub_sub]

/-- A run does not set a timer, or there is a cycle in it that sets it last. -/
lemma exists_last_set (m : Machine) (c : Clock) (run : List Action) :
    (∀ x, c.setter x ∉ m.executed run) ∨
      ∃ front x rest, run = front ++ .cycle :: rest ∧
        (m.actAll front).executed? = some (c.setter x) ∧
        ∀ y, c.setter y ∉ (m.actAll front).cycle.machine.executed rest := by
  induction run using List.reverseRecOn with
  | nil => exact .inl fun x hx => by cases hx
  | append_singleton run a ih =>
      by_cases hlast : ∃ x, (m.actAll run).executedBy? a = some (c.setter x)
      · obtain ⟨x, hx⟩ := hlast
        cases a with
        | cycle => exact .inr ⟨run, x, [], rfl, hx, fun y hy => by cases hy⟩
        | _ => cases hx
      · push Not at hlast
        rcases ih with hnone | ⟨front, x, rest, rfl, hx, hrest⟩
        · refine .inl fun y hy => ?_
          rw [executed_concat, List.mem_append, Option.mem_toList] at hy
          exact hy.elim (hnone y) (hlast y)
        · refine .inr ⟨front, x, rest ++ [a], by simp, hx, fun y hy => ?_⟩
          rw [actAll_append, actAll_cons, act] at hlast
          rw [executed_concat, List.mem_append, Option.mem_toList] at hy
          exact hy.elim (hrest y) (hlast y)

/-! ### Other values on a timer -/

section Wind

variable {t : Timer}

lemma clock_wind_of_ne {d : Clock} (h : d ≠ c) : (m.wind d t).clock c = m.clock c := by
  cases c <;> cases d <;> first | rfl | exact absurd rfl h

lemma reg_wind (m : Machine) (c : Clock) (t : Timer) (x : Register) :
    (m.wind c t).reg x = m.reg x := by
  cases c <;> rfl

/-- No timer decides which instruction is executed, nor whether the cycle crashes. -/
lemma executed?_wind (m : Machine) (c : Clock) (t : Timer) :
    (m.wind c t).executed? = m.executed? := by
  cases c <;> exact executed?_congr rfl rfl rfl rfl

/-- In a cycle neither timer looks at the other. -/
lemma clock_cycle_wind {d : Clock} (h : d ≠ c) :
    (m.wind d t).cycle.machine.clock c = m.cycle.machine.clock c := by
  have hsame := m.executed?_wind d t
  cases hexecuted : m.executed? with
  | none =>
      rw [clock_of_crashed (hsame.trans hexecuted), clock_of_crashed hexecuted,
        clock_wind_of_ne h]
  | some i =>
      by_cases hset : ∃ x, i = c.setter x
      · obtain ⟨x, rfl⟩ := hset
        rw [clock_of_setter (hsame.trans hexecuted), clock_of_setter hexecuted, reg_wind]
      · push Not at hset
        rw [clock_of_executed (hsame.trans hexecuted) hset, clock_of_executed hexecuted hset,
          clock_wind_of_ne h]

/-- An instruction that does not read a timer does the same whatever it shows. -/
lemma after_wind (stack : CallStack) (hread : c.isReadBy i = false) :
    ∃ u, (m.wind c t).after i stack = (m.after i stack).wind c u := by
  cases c <;> cases i <;> first | exact ⟨_, rfl⟩ | cases hread

lemma moveOf_wind (m : Machine) (c : Clock) (t : Timer) (i : Instruction Register) :
    (m.wind c t).moveOf i = m.moveOf i := by
  cases c <;> cases i with
  | skip test expected => cases test <;> rfl
  | _ => rfl

lemma operationOf_wind (m : Machine) (c : Clock) (t : Timer) (i : Instruction Register) :
    (m.wind c t).operationOf i = m.operationOf i := by
  cases c <;> cases i <;> rfl

/-- An instruction that does not read a timer goes the same way whatever it shows. -/
lemma execute_wind {e f : Execution} (he : m.execute i = .ok e)
    (hf : (m.wind c t).execute i = .ok f) (hread : c.isReadBy i = false) :
    ∃ u, f.machine = e.machine.wind c u ∧ f.move = e.move ∧ f.operation = e.operation := by
  obtain ⟨stack, hframes, hmachine, hmove, hoperation⟩ := execute_ok he
  obtain ⟨other, hothers, hwound, hmoved, hasked⟩ := execute_ok hf
  have hstack : other = stack := by
    refine CallStack.ext_toList (congrArg List.reverse ?_)
    rw [hothers, hframes]
    cases c <;> cases i <;> rfl
  obtain ⟨u, hafter⟩ := after_wind (m := m) (t := t) stack hread
  refine ⟨u, ?_, ?_, ?_⟩
  · rw [hwound, hstack, hafter, hmachine]
  · rw [hmoved, hmove, moveOf_wind]
  · rw [hasked, hoperation, operationOf_wind]

/-- A cycle that does not read a timer goes the same way whatever it shows. -/
lemma cycle_wind (hread : ∀ i, m.executed? = some i → c.isReadBy i = false) :
    ∃ u, (m.wind c t).cycle.machine = m.cycle.machine.wind c u := by
  have hsame := m.executed?_wind c t
  cases hexecuted : m.executed? with
  | none =>
      refine ⟨t, ?_⟩
      rw [afterFetch_of_crashed (hsame.trans hexecuted), afterFetch_of_crashed hexecuted]
      cases c with
      | delay => exact afterFetch_map (g := (·.wind .delay t)) rfl rfl rfl fun _ => rfl
      | sound => exact afterFetch_map (g := (·.wind .sound t)) rfl rfl rfl fun _ => rfl
  | some i =>
      obtain ⟨e, he, -, hmachine⟩ := execute_of_executed hexecuted
      obtain ⟨f, hf, -, hwound⟩ := execute_of_executed (hsame.trans hexecuted)
      have hfetched : (m.wind c t).fetched (m.wind c t).nextWord =
          (m.fetched m.nextWord).wind c t := by
        cases c <;> rfl
      rw [hfetched] at hf
      obtain ⟨u, hu, hmove, hoperation⟩ := execute_wind he hf (hread i hexecuted)
      refine ⟨u.tick, ?_⟩
      rw [hwound, hmachine, settle, settle, hu, hmove, hoperation]
      cases c <;> rfl

/-- In a run that does not read a timer everything else is the same whatever it shows at first. -/
theorem actAll_wind {run : List Action} (hread : ∀ i ∈ m.executed run, c.isReadBy i = false) :
    ∃ u, (m.wind c t).actAll run = (m.actAll run).wind c u := by
  induction run using List.reverseRecOn with
  | nil => exact ⟨t, rfl⟩
  | append_singleton run a ih =>
      rw [executed_concat] at hread
      obtain ⟨u, hu⟩ := ih fun i hi => hread i (List.mem_append_left _ hi)
      rw [actAll_concat, actAll_concat, hu]
      cases a with
      | cycle =>
          refine cycle_wind fun i hi => hread i (List.mem_append_right _ ?_)
          exact Option.mem_toList.mpr hi
      | _ => cases c <;> exact ⟨u, rfl⟩

end Wind

/-! ### What the program sees of a timer -/

/-- Reading the delay timer puts what it shows before it counts down into the register. -/
lemma registers_of_getDelay {x : Register} (h : m.executed? = some (.getDelay x)) :
    m.cycle.machine.registers = m.registers.set x m.delay.value :=
  registers_of_executed h

end Machine

lemma Timer.isActive_iff (t : Timer) : t.isActive = true ↔ 0 < t.value.toNat := by
  rw [isActive, decide_eq_true_iff, UInt8.lt_iff_toNat_lt]
  rfl

/-- A timer counts successful cycles exactly, whatever else the machine does in them, also if it
only waits for a key, and cycles that crash do not count. If a run does not set the timer, the
timer has lost one for each instruction that was executed. Otherwise it has lost one for each
instruction since it was set last, the one that set it included, from the byte that the register
held then. It does not fall below zero, and it is active exactly while it is above. A program
that reads the delay timer gets the value from before the tick of that cycle. Neither timer has
an effect on the other: not in any cycle, and, unless a program reads the delay timer and passes
it on, not in any run. -/
theorem timers_count_successful_cycles (m : Machine) (run : List Action) (c : Clock) :
    let k := m.actAll run
    ((∀ x, c.setter x ∉ m.executed run) →
      (k.clock c).value.toNat = (m.clock c).value.toNat - (m.executed run).length) ∧
    (∀ front x rest, run = front ++ .cycle :: rest →
      let s := m.actAll front
      s.executed? = some (c.setter x) → (∀ y, c.setter y ∉ s.cycle.machine.executed rest) →
        (k.clock c).value.toNat = (s.reg x).toNat - (s.executed (.cycle :: rest)).length) ∧
    ((∀ x, c.setter x ∉ m.executed run) ∨
      ∃ front x rest, run = front ++ .cycle :: rest ∧
        (m.actAll front).executed? = some (c.setter x) ∧
        ∀ y, c.setter y ∉ (m.actAll front).cycle.machine.executed rest) ∧
    ((k.clock c).isActive = true ↔ 0 < (k.clock c).value.toNat) ∧
    (∀ x, k.executed? = some (.getDelay x) →
      k.cycle.machine.registers = k.registers.set x k.delay.value) ∧
    (∀ d t, d ≠ c →
      (k.wind d t).cycle.machine.clock c = k.cycle.machine.clock c ∧
        ((∀ i ∈ m.executed run, d.isReadBy i = false) →
          ((m.wind d t).actAll run).clock c = k.clock c)) := by
  intro k
  refine ⟨Machine.value_actAll, ?_, m.exists_last_set c run, (k.clock c).isActive_iff,
    fun x => Machine.registers_of_getDelay, fun d t hne => ⟨Machine.clock_cycle_wind hne, ?_⟩⟩
  · rintro front x rest rfl s hset hunset
    have hk : k = s.cycle.machine.actAll rest := m.actAll_append front (.cycle :: rest)
    rw [hk]
    exact Machine.value_of_last_set hset hunset
  · intro hread
    obtain ⟨u, hu⟩ := Machine.actAll_wind (t := t) hread
    rw [hu, Machine.clock_wind_of_ne hne]

/-- A program that sets the delay timer to five and reads it in the next cycle, with a key pressed
in between, and then returns from nowhere: it reads four, and the crash leaves three. -/
theorem timers_count_successful_cycles_at_reading :
    let rom : Rom := ⟨"TIMER", [0x60, 0x05, 0xF0, 0x15, 0xF1, 0x07, 0x00, 0xEE], by decide⟩
    let m := Machine.boot rom {} (.cycling #[])
    let front : List Action := [.cycle]
    let rest : List Action := [.press 3, .cycle, .cycle]
    let s := m.actAll front
    s.executed? = some (Clock.delay.setter .first) ∧
      (∀ y, Clock.delay.setter y ∉ s.cycle.machine.executed rest) ∧
      ((m.actAll (front ++ .cycle :: rest)).clock .delay).value.toNat = 5 - 2 ∧
      (m.actAll [.cycle, .cycle, .press 3]).executed? = some (.getDelay 1) ∧
      (m.actAll [.cycle, .cycle, .press 3]).cycle.machine.reg 1 = 4 ∧
      ((m.wind .sound ⟨9⟩).actAll (front ++ .cycle :: rest)).clock .delay =
        (m.actAll (front ++ .cycle :: rest)).clock .delay := by
  intro rom m front rest s
  -- what the machine executes, and two of its bytes, as the text of the program tells
  obtain ⟨hset, hexecuted, hafter, hread, hreg, hdelay⟩ :
      s.executed? = some (Clock.delay.setter .first) ∧
        s.executed (.cycle :: rest) = [.setDelay .first, .getDelay 1] ∧
        (m.actAll [.cycle, .cycle]).executed rest = [.getDelay 1] ∧
        (m.actAll [.cycle, .cycle, .press 3]).executed? = some (.getDelay 1) ∧
        s.reg .first = 5 ∧ (m.actAll [.cycle, .cycle, .press 3]).delay.value = 4 := by
    have hprogram : m.HoldsProgram rom := Machine.holdsProgram_of_image rfl
    subst s front rest m rom
    refine ⟨Machine.executed?_of_readRun hprogram rfl rfl,
      (Machine.executed_after_readRun hprogram rfl rfl).trans rfl,
      (Machine.executed_after_readRun hprogram rfl rfl).trans rfl,
      Machine.executed?_of_readRun hprogram rfl rfl, ?_, ?_⟩
    · rw [Machine.actAll_of_readRun hprogram rfl]
      rfl
    · rw [Machine.actAll_of_readRun hprogram rfl]
      rfl
  have hunset : ∀ y, Clock.delay.setter y ∉ s.cycle.machine.executed rest := by
    show ∀ y, _ ∉ (m.actAll [.cycle, .cycle]).executed rest
    rw [hafter]
    simp [Clock.setter]
  obtain ⟨-, hvalue, -, -, -, hapart⟩ :=
    timers_count_successful_cycles m (front ++ .cycle :: rest) .delay
  obtain ⟨-, -, -, -, hregisters, -⟩ :=
    timers_count_successful_cycles m [.cycle, .cycle, .press 3] .delay
  refine ⟨hset, hunset, ?_, hread, ?_, (hapart .sound ⟨9⟩ (by decide)).2 fun i _ => rfl⟩
  · rw [hvalue front .first rest rfl hset hunset, hexecuted, hreg]
    rfl
  · rw [Machine.reg, hregisters 1 hread, Registers.get_set, if_pos rfl, hdelay]

end ChipEight
