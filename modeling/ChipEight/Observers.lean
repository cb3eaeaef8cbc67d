/-!
Registries of observers.

Every registration gets the next number, starting with one, and no number is given twice, so a
number means the same observer for as long as the registry lives.
-/

namespace ChipEight

/-- Observers of type `α` under the numbers they were registered with. -/
structure Observers (α : Type) where
  /-- The observers with their numbers, the oldest registration first. -/
  entries : List (Nat × α)
  /-- The number of registrations so far, which is also the newest number. -/
  issued : Nat
deriving DecidableEq

namespace Observers

variable {α ε : Type}

/-- No observer yet. -/
def empty : Observers α := ⟨[], 0⟩

/-- Whether there is no observer. -/
def isEmpty (o : Observers α) : Bool := o.entries.isEmpty

/-- Adds an observer under the next number, which is `issued` afterwards. -/
def register (o : Observers α) (observer : α) : Observers α :=
  ⟨o.entries ++ [(o.issued + 1, observer)], o.issued + 1⟩

/-- The observer registered under a number and not removed since. -/
def find? (o : Observers α) (id : Nat) : Option α := o.entries.lookup id

/-- The registry without the observer of a number. -/
def remove (o : Observers α) (id : Nat) : Observers α :=
  { o with entries := o.entries.filter fun entry => entry.1 != id }

/-- Whom an event goes to: each observer once, in the order of their numbers. -/
def deliver (o : Observers α) (event : ε) : List (Nat × ε) :=
  o.entries.map fun entry => (entry.1, event)

/-- How many observers there are and how many there have ever been. -/
def summary (o : Observers α) : String :=
  "EventSystem \x7b observers: " ++ toString o.entries.length ++ ", counter: " ++
    toString o.issued ++ " \x7d"

/-- Removing takes the observer of the number and leaves all others. -/
theorem find?_remove (o : Observers α) (id k : Nat) :
    (o.remove id).find? k = if k = id then none else o.find? k := by
  simp only [remove, find?]
  induction o.entries with
  | nil => simp
  | cons entry rest ih =>
    rw [List.filter_cons]
    by_cases hk : k = entry.1
    · subst hk
      by_cases hid : entry.1 = id
      · simpa [hid] using ih
      · have hne : (entry.1 != id) = true := bne_iff_ne.mpr hid
        rw [if_pos hne, if_neg hid, List.lookup_cons, List.lookup_cons]
        simp
    · have hbeq : (k == entry.1) = false := beq_eq_false_iff_ne.mpr hk
      rw [List.lookup_cons, hbeq]
      split
      · rw [List.lookup_cons, hbeq, ih]
      · exact ih

end Observers

end ChipEight
