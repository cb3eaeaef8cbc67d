/-!
The register file: sixteen byte registers `V0` to `VF`, of which `VF` doubles as the flag.

The view of a register file is `get`; `get_set`, `get_overwrite` and `ext_get` say all that the
other modules need to know about it.
-/

namespace ChipEight

/-- The number of a register. -/
abbrev Register := Fin 16

/-- `V0`, which jumps may be relative to. -/
def Register.first : Register := 0

/-- `VF`, which the arithmetic and the drawing instructions use as their flag. -/
def Register.flag : Register := 15

/-- Whatever can stand for a register in an instruction: what matters is its number. -/
class RegisterName (ρ : Type) where
  /-- The number of the register. -/
  number : ρ → Nat

instance : RegisterName Register := ⟨Fin.val⟩

instance : RegisterName Nat := ⟨id⟩

/-- The contents of the sixteen registers. -/
structure Registers where
  /-- The bytes of `V0` to `VF`. -/
  bytes : Vector UInt8 16
deriving DecidableEq

namespace Registers

/-- All registers zero. -/
def zero : Registers := ⟨Vector.replicate 16 0⟩

/-- The byte in a register. -/
def get (r : Registers) (x : Register) : UInt8 := r.bytes[x]

/-- The register file with one register replaced. -/
def set (r : Registers) (x : Register) (value : UInt8) : Registers := ⟨r.bytes.set x value⟩

/-- Sets the flag register to one or zero. -/
def setFlag (r : Registers) (flag : Bool) : Registers := r.set .flag flag.toUInt8

/-- The bytes of the registers from `V0` up to and including `Vx`. -/
def upTo (r : Registers) (x : Register) : List UInt8 := r.bytes.toList.take (x + 1)

/-- The register file with its first registers replaced by the given bytes, as far as they
reach. -/
def overwrite (r : Registers) (bytes : List UInt8) : Registers :=
  ⟨Vector.ofFn fun x => bytes[x.val]?.getD (r.get x)⟩

/-- The bytes of all registers. -/
def toList (r : Registers) : List UInt8 := r.bytes.toList

/-! ### The view of a register file -/

@[simp] theorem get_zero (x : Register) : zero.get x = 0 := by
  simp [zero, get]

@[simp] theorem get_set (r : Registers) (x y : Register) (value : UInt8) :
    (r.set x value).get y = if x = y then value else r.get y := by
  simp [set, get, Vector.getElem_set, Fin.ext_iff]

@[simp] theorem get_setFlag (r : Registers) (flag : Bool) (y : Register) :
    (r.setFlag flag).get y = if .flag = y then flag.toUInt8 else r.get y :=
  get_set r .flag y _

@[simp] theorem get_overwrite (r : Registers) (bytes : List UInt8) (x : Register) :
    (r.overwrite bytes).get x = bytes[x.val]?.getD (r.get x) := by
  simp [overwrite, get]

@[simp] theorem length_upTo (r : Registers) (x : Register) : (r.upTo x).length = x + 1 := by
  have := x.isLt
  rw [upTo, List.length_take, Vector.length_toList]
  omega

theorem getElem?_upTo (r : Registers) (x y : Register) :
    (r.upTo x)[y.val]? = if y ≤ x then some (r.get y) else none := by
  simp only [upTo, get, List.getElem?_take, Nat.lt_succ_iff, Fin.le_def]
  split <;> simp

/-- Registers overwritten with the first ones of another register file. -/
theorem get_overwrite_upTo (r s : Registers) (x y : Register) :
    (r.overwrite (s.upTo x)).get y = if y ≤ x then s.get y else r.get y := by
  rw [get_overwrite, getElem?_upTo]
  split <;> rfl

/-- Bytes that fill the registers up to a number stand there. -/
theorem upTo_overwrite (r : Registers) {x : Register} {bytes : List UInt8}
    (h : bytes.length = x + 1) : (r.overwrite bytes).upTo x = bytes := by
  refine List.ext_getElem? fun i => ?_
  by_cases hi : i < bytes.length
  · have hx : i < 16 := by omega
    have hle : (⟨i, hx⟩ : Register) ≤ x := by
      show i ≤ x.val
      omega
    rw [getElem?_upTo _ x ⟨i, hx⟩, if_pos hle, get_overwrite, List.getElem?_eq_getElem hi,
      Option.getD_some]
  · rw [List.getElem?_eq_none (by rw [length_upTo]; omega), List.getElem?_eq_none (by omega)]

@[ext] theorem ext_get {r s : Registers} (h : ∀ x, r.get x = s.get x) : r = s := by
  obtain ⟨bytes⟩ := r
  obtain ⟨others⟩ := s
  exact congrArg Registers.mk (Vector.ext fun i hi => h ⟨i, hi⟩)

end Registers

end ChipEight
