import ChipEight.Fault
import ChipEight.Font

/-!
The memory: 4096 bytes, of which the font takes the first 80 and programs start at `0x200`.

The view of a memory is `byteAt`, defined for every address. Reading and writing succeed exactly
if the whole range lies inside the memory; `byteAt_overlay` says what a write leaves behind.
-/

namespace ChipEight

namespace Opcode

/-- The word at a pointer into some bytes: both of its bytes have to be there. -/
def fetch (bytes : Array UInt8) (pointer : Nat) : Except OpcodeFault Opcode :=
  if h : pointer + 1 < bytes.size then .ok (ofBytes bytes[pointer] bytes[pointer + 1])
  else .error (.outside pointer bytes.size)

end Opcode

/-- The contents of the memory. -/
structure Memory where
  /-- The bytes from address zero on. -/
  bytes : Vector UInt8 4096
deriving DecidableEq

namespace Memory

/-- Where programs start. -/
def programStart : Nat := 0x200

/-- The number of bytes there is room for from the program start on. -/
def programCapacity : Nat := 0xE00

/-- The byte at an address; zero where there is no memory. -/
def byteAt (m : Memory) (address : Nat) : UInt8 := m.bytes[address]?.getD 0

/-- The memory with one byte replaced, if there is one at the address. -/
def set (m : Memory) (address : Nat) (byte : UInt8) : Memory :=
  ⟨m.bytes.setIfInBounds address byte⟩

/-- The memory with bytes written over it from an address on; what lies behind the end is
dropped. -/
def overlay (m : Memory) (address : Nat) : List UInt8 → Memory
  | [] => m
  | byte :: rest => (m.set address byte).overlay (address + 1) rest

/-- All bytes zero. -/
def zero : Memory := ⟨Vector.replicate 4096 0⟩

/-- A memory that holds the font and is zero elsewhere. -/
def initial : Memory := zero.overlay 0 Font.glyphs

/-- Whether a range of addresses lies inside the memory. -/
def Contains (address length : Nat) : Prop := address + length ≤ 4096

instance (address length : Nat) : Decidable (Contains address length) :=
  inferInstanceAs (Decidable (address + length ≤ 4096))

/-- The bytes of a range of addresses. -/
def slice (m : Memory) (address length : Nat) : List UInt8 :=
  (List.range length).map fun i => m.byteAt (address + i)

/-- Reads a range of addresses, if it lies inside the memory. -/
def read (m : Memory) (address length : Nat) : Except AccessFault (List UInt8) :=
  if Contains address length then .ok (m.slice address length) else .error ⟨address, length⟩

/-- Writes bytes from an address on, if all of them lie inside the memory. -/
def write (m : Memory) (address : Nat) (bytes : List UInt8) : Except AccessFault Memory :=
  if Contains address bytes.length then .ok (m.overlay address bytes)
  else .error ⟨address, bytes.length⟩

/-- Writes a program to the program start, if it fits. -/
def load (m : Memory) (program : List UInt8) : Except RomFault Memory :=
  if program.length ≤ programCapacity then .ok (m.overlay programStart program)
  else .error ⟨program.length, programCapacity⟩

/-- The word at an address. -/
def fetch (m : Memory) (address : Nat) : Except OpcodeFault Opcode :=
  Opcode.fetch m.bytes.toArray address

/-- All bytes, from address zero on. -/
def toList (m : Memory) : List UInt8 := m.bytes.toList

/-! ### The view of a memory -/

@[simp] theorem byteAt_zero (a : Nat) : zero.byteAt a = 0 := by
  by_cases ha : a < 4096 <;> simp [zero, byteAt, ha]

theorem byteAt_set (m : Memory) (address : Nat) (byte : UInt8) {a : Nat} (ha : a < 4096) :
    (m.set address byte).byteAt a = if address = a then byte else m.byteAt a := by
  simp [byteAt, set, ha, Vector.getElem_setIfInBounds]

/-- Written bytes stand where they were written, and all others are untouched. -/
theorem byteAt_overlay (m : Memory) (address : Nat) (bytes : List UInt8) {a : Nat}
    (ha : a < 4096) :
    (m.overlay address bytes).byteAt a =
      if address ≤ a then bytes[a - address]?.getD (m.byteAt a) else m.byteAt a := by
  induction bytes generalizing m address with
  | nil => simp [overlay]
  | cons b rest ih =>
    rw [overlay, ih, byteAt_set m address b ha]
    rcases Nat.lt_trichotomy address a with h | h | h
    · have h1 : a - address = (a - (address + 1)) + 1 := by omega
      simp [Nat.ne_of_lt h, Nat.succ_le_of_lt h, Nat.le_of_lt h, h1]
    · subst h
      have h1 : ¬ address + 1 ≤ address := by omega
      simp [h1]
    · have h1 : ¬ address + 1 ≤ a := by omega
      have h2 : ¬ address ≤ a := by omega
      have h3 : address ≠ a := by omega
      simp [h1, h2, h3]

theorem byteAt_of_le {m : Memory} {a : Nat} (ha : 4096 ≤ a) : m.byteAt a = 0 := by
  simp [byteAt, ha]

@[ext] theorem ext_byteAt {m k : Memory} (h : ∀ a < 4096, m.byteAt a = k.byteAt a) : m = k := by
  obtain ⟨bytes⟩ := m
  obtain ⟨others⟩ := k
  refine congrArg Memory.mk (Vector.ext fun i hi => ?_)
  simpa [byteAt, hi] using h i hi

@[simp] theorem length_slice (m : Memory) (address length : Nat) :
    (m.slice address length).length = length := by
  simp [slice]

theorem getElem?_slice (m : Memory) (address length i : Nat) :
    (m.slice address length)[i]? = if i < length then some (m.byteAt (address + i)) else none := by
  by_cases h : i < length <;> simp [slice, h]

/-- What was written stands in the memory. -/
theorem slice_overlay (m : Memory) {address : Nat} {bytes : List UInt8}
    (h : Contains address bytes.length) :
    (m.overlay address bytes).slice address bytes.length = bytes := by
  rw [Contains] at h
  refine List.ext_getElem (length_slice _ _ _) fun i _ hi => ?_
  simp only [slice, List.getElem_map, List.getElem_range]
  rw [byteAt_overlay _ _ _ (by omega), if_pos (Nat.le_add_right _ _), Nat.add_sub_cancel_left,
    List.getElem?_eq_getElem hi, Option.getD_some]

/-- To write what stands in the memory anyway changes nothing. -/
theorem overlay_slice (m : Memory) (address length : Nat) :
    m.overlay address (m.slice address length) = m := by
  ext a ha
  rw [byteAt_overlay _ _ _ ha, getElem?_slice]
  split
  · next hle =>
    rw [Nat.add_sub_cancel' hle]
    split <;> rfl
  · rfl

theorem read_eq_ok_iff {m : Memory} {address length : Nat} {bytes : List UInt8} :
    m.read address length = .ok bytes ↔
      Contains address length ∧ m.slice address length = bytes := by
  unfold read
  split <;> simp_all

/-- What was written is read back. -/
theorem read_overlay (m : Memory) {address : Nat} {bytes : List UInt8}
    (h : Contains address bytes.length) :
    (m.overlay address bytes).read address bytes.length = .ok bytes :=
  read_eq_ok_iff.mpr ⟨h, m.slice_overlay h⟩

theorem read_eq_error_iff {m : Memory} {address length : Nat} {cause : AccessFault} :
    m.read address length = .error cause ↔
      4096 < address + length ∧ cause = ⟨address, length⟩ := by
  have hlt : 4096 < address + length ↔ ¬ Contains address length := Nat.not_le.symm
  rw [hlt]
  unfold read
  split <;> simp_all [eq_comm]

theorem write_eq_ok_iff {m k : Memory} {address : Nat} {bytes : List UInt8} :
    m.write address bytes = .ok k ↔
      Contains address bytes.length ∧ m.overlay address bytes = k := by
  unfold write
  split <;> simp_all

theorem write_eq_error_iff {m : Memory} {address : Nat} {bytes : List UInt8}
    {cause : AccessFault} :
    m.write address bytes = .error cause ↔
      4096 < address + bytes.length ∧ cause = ⟨address, bytes.length⟩ := by
  have hlt : 4096 < address + bytes.length ↔ ¬ Contains address bytes.length := Nat.not_le.symm
  rw [hlt]
  unfold write
  split <;> simp_all [eq_comm]

/-- A word can be fetched exactly where two bytes can be read, and is made of these. -/
theorem fetch_eq (m : Memory) (address : Nat) :
    m.fetch address =
      if Contains address 2 then .ok (Opcode.ofBytes (m.byteAt address) (m.byteAt (address + 1)))
      else .error (.outside address 4096) := by
  unfold fetch Opcode.fetch Contains
  simp only [Vector.size_toArray, Vector.getElem_toArray]
  split
  · next h =>
    have h0 : address < 4096 := by omega
    have h2 : address + 2 ≤ 4096 := by omega
    simp [byteAt, h, h0, h2]
  · next h =>
    have h2 : ¬ address + 2 ≤ 4096 := by omega
    simp [h2]

end Memory

end ChipEight
