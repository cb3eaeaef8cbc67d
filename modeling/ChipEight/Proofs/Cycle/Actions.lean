import Mathlib.Tactic
import ChipEight.Machine.Cycle

/-!
What can happen to a machine from outside, in any order.

* `Action`, `Machine.act`, `Machine.actAll`: single actions and runs of them. A cycle that
  crashes is an action like any other, and the run goes on with what it left behind.
* `Action.cycles`: how many of the actions of a run are cycles.
* `actAll_induction`: what every action preserves, a whole run preserves. The number of cycles
  so far is at hand, for bounds that grow with it.
* `actAll_of_no_cycle`: a run without cycles leaves the processor, the memory and the screen alone.
* `Machine.collect`, `collect_concat`: what the actions of a run show of the machines they happen
  to, as a list that grows with the run.
-/

namespace ChipEight

/-- Something that happens to a machine. -/
inductive Action where
  /-- The key of a code is pressed. -/
  | press (code : UInt8)
  /-- The machine runs a cycle. -/
  | cycle
  /-- The source of random bytes is replaced. -/
  | reseed (random : RandomSource)
  /-- An observer is registered. -/
  | observe
  /-- An observer is removed. -/
  | unobserve (id : Nat)

namespace Action

/-- The number of cycles an action runs. -/
def weight : Action → Nat
  | cycle => 1
  | _ => 0

/-- The number of cycles among some actions. -/
def cycles (actions : List Action) : Nat := (actions.map weight).sum

@[simp] theorem cycles_nil : cycles [] = 0 := rfl

@[simp] theorem cycles_cons (a : Action) (actions : List Action) :
    cycles (a :: actions) = a.weight + cycles actions := rfl

@[simp] theorem cycles_append (front rest : List Action) :
    cycles (front ++ rest) = cycles front + cycles rest := by
  simp [cycles]

/-- A run with a cycle has a first one. -/
theorem exists_first_cycle {actions : List Action} (h : 0 < cycles actions) :
    ∃ front rest, actions = front ++ cycle :: rest ∧ cycles front = 0 := by
  induction actions with
  | nil => simp at h
  | cons a actions ih =>
      cases a with
      | cycle => exact ⟨[], actions, rfl, rfl⟩
      | _ =>
          obtain ⟨front, rest, rfl, hfront⟩ := ih (by simpa [weight] using h)
          exact ⟨_ :: front, rest, rfl, by simpa [weight] using hfront⟩

end Action

namespace Machine

/-- The machine after an action. -/
def act (m : Machine) : Action → Machine
  | .press code => m.press code
  | .cycle => m.cycle.machine
  | .reseed random => m.reseed random
  | .observe => m.observe
  | .unobserve id => m.unobserve id

/-- The machine after some actions, one after another. -/
def actAll (m : Machine) (actions : List Action) : Machine := actions.foldl act m

@[simp] theorem actAll_nil (m : Machine) : m.actAll [] = m := rfl

@[simp] theorem actAll_cons (m : Machine) (a : Action) (actions : List Action) :
    m.actAll (a :: actions) = (m.act a).actAll actions := rfl

theorem actAll_append (m : Machine) (front rest : List Action) :
    m.actAll (front ++ rest) = (m.actAll front).actAll rest :=
  List.foldl_append

theorem actAll_concat (m : Machine) (actions : List Action) (a : Action) :
    m.actAll (actions ++ [a]) = (m.actAll actions).act a :=
  m.actAll_append actions [a]

/-- A property of machines and numbers of cycles that every action preserves holds after every
run. -/
theorem actAll_induction {P : Nat → Machine → Prop}
    (hact : ∀ n m a, P n m → P (n + a.weight) (m.act a)) {n : Nat} {m : Machine} (h : P n m)
    (actions : List Action) : P (n + Action.cycles actions) (m.actAll actions) := by
  induction actions generalizing n m with
  | nil => exact h
  | cons a rest ih =>
      rw [Action.cycles_cons, ← Nat.add_assoc, actAll_cons]
      exact ih (hact n m a h)

/-- Without a cycle nothing changes but the pending keys, the source of random bytes and the
observers. -/
theorem actAll_of_no_cycle (m : Machine) {run : List Action} (h : Action.cycles run = 0) :
    ∃ keypad random observers, m.actAll run =
      { m with keypad := keypad, random := random, observers := observers } := by
  induction run generalizing m with
  | nil => exact ⟨m.keypad, m.random, m.observers, rfl⟩
  | cons a rest ih =>
      rw [Action.cycles_cons, Nat.add_eq_zero_iff] at h
      cases a with
      | cycle => cases h.1
      | _ =>
          obtain ⟨keypad, random, observers, hrest⟩ := ih _ h.2
          exact ⟨keypad, random, observers, hrest⟩

/-! ### What a run shows -/

section Collect

variable {α : Type} (observe : Machine → Action → Option α)

/-- What the actions of a run show of the machines they happen to, one after another. -/
def collect (m : Machine) : List Action → List α
  | [] => []
  | a :: rest => (observe m a).toList ++ (m.act a).collect rest

@[simp] theorem collect_nil (m : Machine) : m.collect observe [] = [] := rfl

@[simp] theorem collect_cons (m : Machine) (a : Action) (rest : List Action) :
    m.collect observe (a :: rest) = (observe m a).toList ++ (m.act a).collect observe rest := rfl

theorem collect_concat (m : Machine) (actions : List Action) (a : Action) :
    m.collect observe (actions ++ [a]) =
      m.collect observe actions ++ (observe (m.actAll actions) a).toList := by
  induction actions generalizing m with
  | nil => simp
  | cons b rest ih => simp [ih]

end Collect

end Machine

end ChipEight
