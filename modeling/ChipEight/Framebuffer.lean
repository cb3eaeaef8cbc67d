/-!
The framebuffer: 64 by 32 pixels on a torus, and sprites drawn onto it.

Coordinates are arbitrary numbers; they wrap around at 64 and 32. The view of a framebuffer is
`lit`; `lit_flip` and `lit_blank` say what the operations do to it. Drawing is the fold of
`Drawing.toggle` over the points that a sprite covers.
-/

namespace ChipEight

/-- The pixels, row by row from the top left corner. -/
structure Framebuffer where
  /-- The pixels, 64 in each of the 32 rows. -/
  pixels : Vector Bool 2048
deriving DecidableEq

namespace Framebuffer

/-- Every pixel off. -/
def blank : Framebuffer := ⟨Vector.replicate 2048 false⟩

/-- The place of the pixel with the wrapped coordinates among all pixels. -/
def index (x y : Nat) : Fin 2048 := ⟨y % 32 * 64 + x % 64, by omega⟩

theorem index_eq_iff {x y u v : Nat} :
    index x y = index u v ↔ x % 64 = u % 64 ∧ y % 32 = v % 32 := by
  rw [index, index, Fin.mk.injEq]
  omega

/-- Whether the pixel at the wrapped coordinates is on. -/
def lit (f : Framebuffer) (x y : Nat) : Bool := f.pixels[index x y]

/-- Combines the pixel at the wrapped coordinates with a bit: it changes if the bit is set. -/
def flip (f : Framebuffer) (x y : Nat) (bit : Bool) : Framebuffer :=
  ⟨f.pixels.set (index x y) (f.lit x y ^^ bit)⟩

/-- The pixels of each row, from top to bottom. -/
def rows (f : Framebuffer) : List (List Bool) :=
  (List.range 32).map fun y => (List.range 64).map fun x => f.lit x y

/-- The number of pixels that are on. -/
def count (f : Framebuffer) : Nat := f.pixels.toList.count true

/-! ### The view of a framebuffer -/

@[simp] theorem lit_blank (x y : Nat) : blank.lit x y = false := by
  simp [blank, lit]

/-- A set bit changes the pixels with the same wrapped coordinates and no others. -/
theorem lit_flip (f : Framebuffer) (x y : Nat) (bit : Bool) (u v : Nat) :
    (f.flip x y bit).lit u v =
      if x % 64 = u % 64 ∧ y % 32 = v % 32 then (f.lit u v ^^ bit) else f.lit u v := by
  have hindex : (index x y).val = (index u v).val ↔ x % 64 = u % 64 ∧ y % 32 = v % 32 := by
    rw [← Fin.ext_iff, index_eq_iff]
  simp only [flip, lit, Fin.getElem_fin, Vector.getElem_set, hindex]
  split
  · next h => simp [hindex.mpr h]
  · rfl

@[ext] theorem ext_lit {f g : Framebuffer} (h : ∀ x y, f.lit x y = g.lit x y) : f = g := by
  obtain ⟨pixels⟩ := f
  obtain ⟨others⟩ := g
  refine congrArg Framebuffer.mk (Vector.ext fun i hi => ?_)
  have hp := h (i % 64) (i / 64)
  have hindex : index (i % 64) (i / 64) = ⟨i, hi⟩ := by
    rw [index, Fin.mk.injEq]
    omega
  simpa [lit, hindex] using hp

end Framebuffer

/-! ### Sprites -/

/-- A sprite: rows of eight pixels each, the leftmost in the highest bit. -/
abbrev Sprite := List UInt8

namespace Sprite

/-- Whether a row has its pixel in the given column set. -/
def bit (row : UInt8) (column : Nat) : Bool := row.toNat.testBit (7 - column)

/-- The columns of a row whose pixels are set, from left to right. -/
def columns (row : UInt8) : List Nat := (List.range 8).filter (bit row)

/-- The points a sprite covers if its top left corner stands at the given coordinates, row by
row. Coordinates are not wrapped yet. -/
def points (x y : Nat) : Sprite → List (Nat × Nat)
  | [] => []
  | row :: rest => (columns row).map (fun column => (x + column, y)) ++ points x (y + 1) rest

end Sprite

/-- A framebuffer while a sprite is drawn. -/
structure Drawing where
  /-- The pixels so far. -/
  screen : Framebuffer
  /-- Whether any pixel was on when the sprite came to it. -/
  collided : Bool

namespace Drawing

/-- Changes the pixel at a point and notes whether it was on. -/
def toggle (d : Drawing) (point : Nat × Nat) : Drawing :=
  let hit := d.screen.lit point.1 point.2
  ⟨d.screen.flip point.1 point.2 true, d.collided || hit⟩

end Drawing

/-- Draws a sprite with its top left corner at the given coordinates. -/
def Framebuffer.draw (f : Framebuffer) (x y : Nat) (sprite : Sprite) : Drawing :=
  (sprite.points x y).foldl Drawing.toggle ⟨f, false⟩

/-! ### Text -/

namespace Framebuffer

/-- A row as text: a hash for a pixel that is on, a dot for one that is off. -/
def rowText (row : List Bool) : String :=
  String.ofList (row.map fun pixel => if pixel then '#' else '.')

/-- The rows as text, one a line. -/
def text (f : Framebuffer) : String := "\n".intercalate (f.rows.map rowText)

end Framebuffer

end ChipEight
