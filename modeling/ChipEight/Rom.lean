import ChipEight.Memory

/-!
Programs: a name and bytes that fit behind the program start.
-/

namespace ChipEight

/-- A program that fits into memory. -/
structure Rom where
  /-- The name shown for the program. -/
  name : String
  /-- The bytes of the program. -/
  data : List UInt8
  /-- There is room for all of them. -/
  fits : data.length ≤ Memory.programCapacity
deriving DecidableEq

namespace Rom

/-- Makes a program of bytes, unless they are too many. -/
def ofBytes (name : String) (data : List UInt8) : Except RomFault Rom :=
  if h : data.length ≤ Memory.programCapacity then .ok ⟨name, data, h⟩
  else .error ⟨data.length, Memory.programCapacity⟩

/-- The memory of a machine that is about to run the program. -/
def image (rom : Rom) : Memory := Memory.initial.overlay Memory.programStart rom.data

/-- Loading a program never fails. -/
theorem load_eq_image (rom : Rom) : Memory.initial.load rom.data = .ok rom.image := by
  simp [Memory.load, rom.fits, image]

end Rom

end ChipEight
