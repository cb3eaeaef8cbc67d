/-!
Countdown timers: a byte that loses one at every tick until it is zero.
-/

namespace ChipEight

/-- A countdown timer. -/
structure Timer where
  /-- What is left to count. -/
  value : UInt8
deriving DecidableEq

namespace Timer

/-- A timer that has run out. -/
def zero : Timer := ⟨0⟩

/-- A timer is active until it has run out. -/
def isActive (t : Timer) : Bool := decide (0 < t.value)

/-- Counts down by one; a timer that has run out stays as it is. -/
def tick (t : Timer) : Timer := if t.value = 0 then t else ⟨t.value - 1⟩

/-- A tick takes one away, in the natural numbers. -/
theorem toNat_tick (t : Timer) : t.tick.value.toNat = t.value.toNat - 1 := by
  unfold tick
  split
  · next h => simp [h]
  · next h =>
    have hpos : (1 : UInt8) ≤ t.value := by
      rw [UInt8.le_iff_toNat_le]
      have : t.value.toNat ≠ 0 := fun h0 => h (UInt8.toNat_inj.mp (by simpa using h0))
      simp only [UInt8.toNat_one]
      omega
    simp [UInt8.toNat_sub_of_le _ _ hpos]

end Timer

end ChipEight
