import Mathlib.Tactic
import ChipEight.Proofs.Cycle.Executed

/-!
Tracing has no effect on the machine.

Whether a machine traces, how fast its host is to run it and who observes it is all that `bare`
takes away. What is left decides everything else.

* `execute_bare`, `cycle_bare`, `act_bare`: an instruction, a cycle and an action do to the bare
  machine what they do to the machine, and end in the same way.
* `actAll_bare`, `seen_bare`: so does a run, from which the comings and goings of observers can
  be left out.
* `tracing_is_a_side_channel`: two runs that differ in nothing else show the same results and
  the same machines after every step.
-/

namespace ChipEight

/-- Whether an action is about observers only. -/
def Action.isObserving : Action → Bool
  | .observe => true
  | .unobserve _ => true
  | _ => false

/-- A run without the actions that are about observers only. -/
def Action.unobserved (run : List Action) : List Action := run.filter fun a => !a.isObserving

namespace Machine

/-- The machine with default settings and without observers. -/
def bare (m : Machine) : Machine := { m with config := {}, observers := .empty }

/-- What a step shows to someone who knows nothing of settings and observers: the machine after
it, and how it ended if it was a cycle. -/
def sight? (m : Machine) (a : Action) : Option (Machine × Option (Except Crash Operation)) :=
  match a with
  | .cycle => some (m.cycle.machine.bare, some m.cycle.result)
  | .observe => none
  | .unobserve _ => none
  | _ => some ((m.act a).bare, none)

/-- What a run shows, step by step. -/
def seen (m : Machine) (run : List Action) : List (Machine × Option (Except Crash Operation)) :=
  m.collect sight? run

end Machine

/-- The execution by the bare machine. -/
def Execution.bare (e : Execution) : Execution := { e with machine := e.machine.bare }

/-- The cycle of the bare machine, which tells no observer. -/
def Cycle.bare (c : Cycle) : Cycle := { c with machine := c.machine.bare, delivered := [] }

namespace Machine

/-! ### One step -/

/-- No instruction looks at the settings or the observers. -/
lemma execute_bare (m : Machine) (i : Instruction Register) :
    m.bare.execute i = (m.execute i).map Execution.bare := by
  have hrefit : m.bare.execute i = _ :=
    m.execute_refit i (r := m.random) (c := {}) (o := .empty) fun _ _ _ => rfl
  rw [hrefit]
  cases hexecute : m.execute i with
  | error fault => rfl
  | ok e =>
      have hrandom : (m.refit m.random {} .empty).randomAfter i = e.machine.random :=
        (random_of_execute hexecute).symm
      simp only [Except.map, hrandom]
      rfl

/-- The settings decide what a cycle delivers, and nothing else. -/
theorem cycle_bare (m : Machine) : m.bare.cycle = m.cycle.bare := by
  cases hexecuted : m.executed? with
  | none =>
      obtain ⟨crash, hresult⟩ := result_of_crashed hexecuted
      obtain ⟨fault, log, hcycle⟩ := cycle_of_error hresult
      have hbare : m.bare.cycle = { m.cycle with machine := m.cycle.machine.bare } :=
        cycle_map_of_crashed rfl rfl rfl (fun _ => rfl) hexecuted
      rw [hbare, hcycle]
      rfl
  | some i =>
      obtain ⟨e, hexecute, -, -⟩ := execute_of_executed hexecuted
      have hle := counter_le_of_executed hexecuted
      have hdecode := decode_of_executed hexecuted
      have hthen : (m.bare.fetched m.nextWord).execute i = .ok e.bare := by
        have hmap := (m.fetched m.nextWord).execute_bare i
        rw [hexecute] at hmap
        exact hmap
      have hcycle := cycle_eq_of_execute (m := m.bare) hle hdecode hthen
      rw [hcycle, cycle_eq_of_execute hle hdecode hexecute]
      rfl

lemma act_bare (m : Machine) (a : Action) (h : a.isObserving = false) :
    (m.act a).bare = m.bare.act a := by
  cases a with
  | cycle =>
      rw [act, act, cycle_bare]
      rfl
  | observe => cases h
  | unobserve id => cases h
  | _ => rfl

lemma act_bare_of_observing (m : Machine) (a : Action) (h : a.isObserving = true) :
    (m.act a).bare = m.bare := by
  cases a with
  | observe => rfl
  | unobserve id => rfl
  | _ => cases h

lemma sight?_bare (m : Machine) (a : Action) : m.bare.sight? a = m.sight? a := by
  cases a with
  | cycle =>
      simp only [sight?, cycle_bare]
      rfl
  | _ => rfl

lemma sight?_of_observing (m : Machine) (a : Action) (h : a.isObserving = true) :
    m.sight? a = none := by
  cases a with
  | observe => rfl
  | unobserve id => rfl
  | _ => cases h

/-! ### Runs -/

theorem actAll_bare (m : Machine) (run : List Action) :
    (m.actAll run).bare = m.bare.actAll (Action.unobserved run) := by
  induction run generalizing m with
  | nil => rfl
  | cons a rest ih =>
      rw [actAll_cons, ih]
      cases h : a.isObserving with
      | true => simp [Action.unobserved, h, m.act_bare_of_observing a h]
      | false => simp [Action.unobserved, h, m.act_bare a h]

theorem seen_bare (m : Machine) (run : List Action) :
    m.seen run = m.bare.seen (Action.unobserved run) := by
  induction run generalizing m with
  | nil => rfl
  | cons a rest ih =>
      rw [seen, collect_cons, ← seen, ih]
      cases h : a.isObserving with
      | true =>
          simp [Action.unobserved, h, m.act_bare_of_observing a h, m.sight?_of_observing a h]
      | false =>
          simp [Action.unobserved, seen, h, m.act_bare a h, sight?_bare]

end Machine

/-- Machines that differ in their settings and observers only cannot be told apart: run through
the same presses and cycles, with observers coming and going on either side as they like, they
end every cycle with the same operation or an equal crash, and agree after every step in
everything but settings and observers. -/
theorem tracing_is_a_side_channel (m k : Machine) (run other : List Action)
    (hmachine : m.bare = k.bare) (hrun : Action.unobserved run = Action.unobserved other) :
    m.seen run = k.seen other ∧ (m.actAll run).bare = (k.actAll other).bare := by
  constructor
  · calc
      m.seen run = m.bare.seen (Action.unobserved run) := m.seen_bare run
      _ = k.bare.seen (Action.unobserved other) := by rw [hmachine, hrun]
      _ = k.seen other := (k.seen_bare other).symm
  · calc
      (m.actAll run).bare = m.bare.actAll (Action.unobserved run) := m.actAll_bare run
      _ = k.bare.actAll (Action.unobserved other) := by rw [hmachine, hrun]
      _ = (k.actAll other).bare := (k.actAll_bare other).symm

/-- A traced machine with an observer that leaves again, beside one that nobody ever observes. -/
theorem tracing_is_a_side_channel_at_lone_observer :
    let rom : Rom := ⟨"KEY", [0xF0, 0x0A, 0x00, 0xEE], by decide⟩
    let m := Machine.boot rom {} (.cycling #[])
    let k := Machine.boot rom { trace := true, hertz := 1000 } (.cycling #[])
    let run : List Action := [.cycle, .press 7, .cycle, .cycle]
    let other : List Action := [.observe, .cycle, .press 7, .cycle, .unobserve 1, .cycle]
    m.bare = k.bare ∧ Action.unobserved run = Action.unobserved other ∧
      m.seen run = k.seen other ∧ (m.actAll run).bare = (k.actAll other).bare := by
  intro rom m k run other
  have hmachine : m.bare = k.bare := rfl
  have hrun : Action.unobserved run = Action.unobserved other := rfl
  exact ⟨hmachine, hrun, tracing_is_a_side_channel m k run other hmachine hrun⟩

end ChipEight
