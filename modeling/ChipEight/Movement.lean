/-!
Movements of the program counter.

The counter already points behind an instruction when the instruction is executed, so a movement
says where to go from there. Counters have 64 bits; only going back can leave that range, and
then wraps around.
-/

namespace ChipEight

/-- Where the counter goes after an instruction. -/
inductive Movement where
  /-- On to the following instruction. -/
  | stay
  /-- Over the following instruction. -/
  | skip
  /-- Back to the instruction itself. -/
  | rewind
  /-- To the given address. -/
  | jump (target : Nat)
deriving DecidableEq

namespace Movement

/-- Skips exactly if the condition holds. -/
def skipIf (condition : Bool) : Movement := if condition then skip else stay

/-- The number of different counters. -/
def span : Nat := 0x10000000000000000

/-- The counter after a movement. -/
def apply : Movement → Nat → Nat
  | stay, counter => counter
  | skip, counter => counter + 2
  | rewind, counter => if 2 ≤ counter then counter - 2 else counter + span - 2
  | jump target, _ => target

@[simp] theorem apply_stay (counter : Nat) : stay.apply counter = counter := rfl

@[simp] theorem apply_skip (counter : Nat) : skip.apply counter = counter + 2 := rfl

@[simp] theorem apply_jump (target counter : Nat) : (jump target).apply counter = target := rfl

/-- Going back undoes the advance of the fetch. -/
@[simp] theorem apply_rewind_add_two (counter : Nat) : rewind.apply (counter + 2) = counter := by
  simp [apply]

end Movement

end ChipEight
