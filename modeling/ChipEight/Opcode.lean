import ChipEight.Registers

/-!
Program words and their fields.

A word has four hexadecimal digits. The first is its family; the other three are read, as the
family asks, as two registers and a digit, as a register and a byte, or as an address.
-/

namespace ChipEight

/-- Two bytes of a program, read as one big-endian number. -/
abbrev Opcode := UInt16

namespace Opcode

/-- The number of bytes of a word. -/
def size : Nat := 2

/-- The first digit, which says how the rest is to be read. -/
def family (word : Opcode) : Nat := word.toNat / 0x1000

/-- The register named by the second digit. -/
def x (word : Opcode) : Register := ⟨word.toNat / 0x100 % 16, Nat.mod_lt _ (by decide)⟩

/-- The register named by the third digit. -/
def y (word : Opcode) : Register := ⟨word.toNat / 0x10 % 16, Nat.mod_lt _ (by decide)⟩

/-- The last digit. -/
def n (word : Opcode) : Nat := word.toNat % 0x10

/-- The last two digits, a byte. -/
def nn (word : Opcode) : UInt8 := word.toUInt8

/-- The last three digits, an address. -/
def nnn (word : Opcode) : Nat := word.toNat % 0x1000

/-- The word of two bytes, the high one first. -/
def ofBytes (high low : UInt8) : Opcode := UInt16.ofNat (0x100 * high.toNat + low.toNat)

theorem family_lt (word : Opcode) : word.family < 16 := by
  have := word.toNat_lt
  simp only [family]
  omega

theorem n_lt (word : Opcode) : word.n < 16 := Nat.mod_lt _ (by decide)

theorem nnn_lt (word : Opcode) : word.nnn < 0x1000 := Nat.mod_lt _ (by decide)

theorem toNat_ofBytes (high low : UInt8) :
    (ofBytes high low).toNat = 0x100 * high.toNat + low.toNat := by
  have := high.toNat_lt
  have := low.toNat_lt
  simp only [ofBytes, UInt16.toNat_ofNat']
  omega

end Opcode

end ChipEight
