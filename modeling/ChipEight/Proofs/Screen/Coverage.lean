import Mathlib.Tactic
import ChipEight.Proofs.Memory.Glyphs
import ChipEight.Proofs.Screen.Drawing

/-!
Drawing as the exclusive or of the screen with the pixels that a sprite covers.

* `Pixel`, `Framebuffer.isOn`, `count_eq_card`: the screen as a set of pixels.
* `Sprite.Covers`, `Sprite.weight`: the pixels that a sprite covers, and how many of its own are
  set. `card_covers`: on a screen that is not lower than the sprite they are equally many.
* `isOn_draw`, `collided_draw_iff`, `count_draw`: a drawing, its flag and its number of pixels, in
  terms of the pixels covered. The points of the sprite stand for different pixels, so what a
  point comes to is the pixel of the screen before the drawing.
* `Framebuffer.drawCells`: the drawing that combines the screen with every bit of the sprite,
  set or not. `drawCells_eq_draw`: leaving out the bits that are not set comes to the same.
* `draw_is_exclusive_or`: all of it for the instruction that draws.
-/

namespace ChipEight

open Finset

/-! ### Pixels -/

/-- A pixel of the screen, by column and row. -/
abbrev Pixel := Fin 64 × Fin 32

namespace Framebuffer

/-- The pixel that a point with arbitrary coordinates stands for. -/
def pixelOf (point : ℕ × ℕ) : Pixel :=
  (⟨point.1 % 64, Nat.mod_lt _ (by decide)⟩, ⟨point.2 % 32, Nat.mod_lt _ (by decide)⟩)

lemma pixelOf_eq_iff {point other : ℕ × ℕ} :
    pixelOf point = pixelOf other ↔ wrap point = wrap other := by
  simp only [pixelOf, wrap, Prod.mk.injEq, Fin.mk.injEq]

lemma pixelOf_val (p : Pixel) : pixelOf (p.1, p.2) = p := by
  simp only [pixelOf, Nat.mod_eq_of_lt p.1.isLt, Nat.mod_eq_of_lt p.2.isLt]

/-- Whether a pixel is on. -/
def isOn (f : Framebuffer) (p : Pixel) : Bool := f.lit p.1 p.2

lemma isOn_pixelOf (f : Framebuffer) (point : ℕ × ℕ) :
    f.isOn (pixelOf point) = f.lit point.1 point.2 := by
  have hindex : index (point.1 % 64) (point.2 % 32) = index point.1 point.2 :=
    index_eq_iff.mpr ⟨Nat.mod_mod _ _, Nat.mod_mod _ _⟩
  simp only [isOn, pixelOf, lit, hindex]

lemma index_mod_div (i : Fin 2048) : index (i % 64) (i / 64) = i := by
  refine Fin.ext ?_
  show (i : ℕ) / 64 % 32 * 64 + i % 64 % 64 = i
  omega

lemma index_mod (p : Pixel) : (index p.1 p.2 : ℕ) % 64 = p.1 := by
  simp only [index]
  omega

lemma index_div (p : Pixel) : (index p.1 p.2 : ℕ) / 64 = p.2 := by
  simp only [index]
  omega

/-- The pixel in each place among all pixels. -/
def pixelAt : Fin 2048 ≃ Pixel where
  toFun i := (⟨i % 64, Nat.mod_lt _ (by decide)⟩, ⟨i / 64, Nat.div_lt_of_lt_mul i.isLt⟩)
  invFun p := index p.1 p.2
  left_inv := index_mod_div
  right_inv p := Prod.ext (Fin.ext (index_mod p)) (Fin.ext (index_div p))

lemma isOn_pixelAt (f : Framebuffer) (i : Fin 2048) : f.isOn (pixelAt i) = f.pixels[i] := by
  have hindex : index (pixelAt i).1 (pixelAt i).2 = i := pixelAt.symm_apply_apply i
  simp only [isOn, lit, hindex]

lemma toList_pixels (f : Framebuffer) :
    f.pixels.toList = (List.finRange 2048).map fun i => f.isOn (pixelAt i) := by
  refine List.ext_getElem (by simp) fun i hi _ => ?_
  simp [isOn_pixelAt]

/-- The pixels that are on are counted one by one. -/
theorem count_eq_card (f : Framebuffer) : f.count = #{p : Pixel | f.isOn p} := by
  calc f.count = ((List.finRange 2048).filter fun i => f.isOn (pixelAt i)).length := by
        rw [count, toList_pixels, List.count_eq_countP, List.countP_map,
          List.countP_eq_length_filter]
        simp [Function.comp_def]
    _ = #{i : Fin 2048 | f.isOn (pixelAt i)} := by
        rw [← List.toFinset_card_of_nodup ((List.nodup_finRange 2048).filter _),
          List.toFinset_filter, List.toFinset_finRange]
    _ = #{p : Pixel | f.isOn p} := by
        rw [card_filter, card_filter]
        exact pixelAt.sum_comp fun p => if f.isOn p = true then 1 else 0

end Framebuffer

/-! ### What a sprite covers -/

namespace Sprite

variable {x y : ℕ} {sprite : Sprite} {p : Pixel}

/-- Whether a sprite whose top left corner stands at the given coordinates has a set pixel over a
pixel of the screen. Columns wrap around at 64 and rows at 32. -/
def Covers (x y : ℕ) (sprite : Sprite) (p : Pixel) : Prop :=
  ∃ i < sprite.length, ∃ j < 8,
    (p.1 : ℕ) = (x + j) % 64 ∧ (p.2 : ℕ) = (y + i) % 32 ∧ bit (sprite.getD i 0) j = true

instance : Decidable (sprite.Covers x y p) :=
  inferInstanceAs (Decidable (∃ i < sprite.length, ∃ j < 8,
    (p.1 : ℕ) = (x + j) % 64 ∧ (p.2 : ℕ) = (y + i) % 32 ∧ bit (sprite.getD i 0) j = true))

/-- The number of set pixels of a sprite. -/
def weight (sprite : Sprite) : ℕ := (sprite.map fun row => (columns row).length).sum

lemma length_points : (sprite.points x y).length = sprite.weight := by
  induction sprite generalizing y with
  | nil => rfl
  | cons row rest ih =>
      rw [points, List.length_append, List.length_map, ih]
      rfl

/-- A sprite has a set pixel exactly if one of its rows is not zero. -/
lemma weight_pos_iff : 0 < sprite.weight ↔ sprite.any (· != 0) = true := by
  rw [← length_points (x := 0) (y := 0), List.length_pos_iff, Ne, points_eq_nil_iff,
    Bool.not_eq_false]

/-- The points of a sprite are its set pixels, moved to where its corner stands. -/
lemma mem_points_iff {point : ℕ × ℕ} :
    point ∈ sprite.points x y ↔
      ∃ i < sprite.length, ∃ j < 8, point = (x + j, y + i) ∧ bit (sprite.getD i 0) j = true := by
  induction sprite generalizing y with
  | nil => simp [points]
  | cons row rest ih =>
      rw [points, List.mem_append, ih, List.mem_map]
      constructor
      · rintro (⟨j, hj, rfl⟩ | ⟨i, hi, j, hj, rfl, hbit⟩)
        · obtain ⟨hlt, hbit⟩ := List.mem_filter.mp hj
          exact ⟨0, Nat.succ_pos _, j, List.mem_range.mp hlt, rfl, hbit⟩
        · exact ⟨i + 1, Nat.succ_lt_succ hi, j, hj, by rw [Nat.add_assoc, Nat.add_comm 1], hbit⟩
      · rintro ⟨i, hi, j, hj, rfl, hbit⟩
        cases i with
        | zero => exact .inl ⟨j, List.mem_filter.mpr ⟨List.mem_range.mpr hj, hbit⟩, rfl⟩
        | succ i =>
            exact .inr ⟨i, Nat.lt_of_succ_lt_succ hi, j, hj, by rw [Nat.add_assoc, Nat.add_comm 1],
              hbit⟩

/-- A sprite covers the pixels that its points stand for. -/
lemma covers_iff_mem : sprite.Covers x y p ↔ p ∈ (sprite.points x y).map Framebuffer.pixelOf := by
  simp only [Covers, List.mem_map, mem_points_iff, Framebuffer.pixelOf, Prod.ext_iff, Fin.ext_iff]
  constructor
  · rintro ⟨i, hi, j, hj, hcolumn, hrow, hbit⟩
    exact ⟨(x + j, y + i), ⟨i, hi, j, hj, ⟨rfl, rfl⟩, hbit⟩, hcolumn.symm, hrow.symm⟩
  · rintro ⟨⟨u, v⟩, ⟨i, hi, j, hj, ⟨rfl, rfl⟩, hbit⟩, hcolumn, hrow⟩
    exact ⟨i, hi, j, hj, hcolumn.symm, hrow.symm, hbit⟩

end Sprite

namespace Framebuffer

variable {sprite : Sprite}

/-- No two points of a sprite that is not taller than the screen stand for the same pixel. -/
lemma nodup_pixels (h : sprite.length ≤ 32) (x y : ℕ) :
    ((sprite.points x y).map pixelOf).Nodup := by
  have hwrap : wrap = (fun p : Pixel => ((p.1 : ℕ), (p.2 : ℕ))) ∘ pixelOf := rfl
  have hnodup := nodup_points h x y
  rw [hwrap, ← List.map_map] at hnodup
  exact hnodup.of_map _

/-- So a sprite covers as many pixels as it has set ones. -/
lemma card_covers (h : sprite.length ≤ 32) (x y : ℕ) :
    #{p : Pixel | sprite.Covers x y p} = sprite.weight := by
  have hcovered : ({p | sprite.Covers x y p} : Finset Pixel) =
      ((sprite.points x y).map pixelOf).toFinset := by
    ext p
    rw [mem_filter_univ, Sprite.covers_iff_mem, List.mem_toFinset]
  rw [hcovered, List.toFinset_card_of_nodup (nodup_pixels h x y), List.length_map,
    Sprite.length_points]

/-! ### Drawings in terms of the pixels covered -/

/-- A drawing changes the pixels that its sprite covers and no others. -/
theorem isOn_draw (f : Framebuffer) (h : sprite.length ≤ 32) (x y : ℕ) (p : Pixel) :
    (f.draw x y sprite).screen.isOn p = (f.isOn p ^^ decide (sprite.Covers x y p)) := by
  have hcount : ((sprite.points x y).map wrap).count (wrap (p.1, p.2)) =
      ((sprite.points x y).map pixelOf).count p := by
    rw [List.count_eq_countP, List.count_eq_countP, List.countP_map, List.countP_map]
    refine List.countP_congr fun point _ => ?_
    simp only [Function.comp_apply, beq_iff_eq, ← pixelOf_eq_iff, pixelOf_val]
  rw [isOn, lit_draw, hcount, (nodup_pixels h x y).count, ← isOn]
  congr 1
  by_cases hmem : p ∈ (sprite.points x y).map pixelOf
  · simp [hmem, Sprite.covers_iff_mem]
  · simp [hmem, Sprite.covers_iff_mem]

/-- A point that stands for another pixel than those toggled meets the screen as it was. -/
lemma collided_foldl_toggle (points : List (ℕ × ℕ)) (d : Drawing)
    (h : (points.map pixelOf).Nodup) :
    (points.foldl Drawing.toggle d).collided = true ↔
      d.collided = true ∨ ∃ point ∈ points, d.screen.isOn (pixelOf point) = true := by
  induction points generalizing d with
  | nil => simp
  | cons point rest ih =>
      rw [List.map_cons, List.nodup_cons] at h
      have hkept : ∀ other ∈ rest,
          (d.toggle point).screen.isOn (pixelOf other) = d.screen.isOn (pixelOf other) := by
        intro other hother
        have hne : wrap point ≠ wrap other := fun hwrap =>
          h.1 (pixelOf_eq_iff.mpr hwrap ▸ List.mem_map_of_mem hother)
        rw [isOn_pixelOf, isOn_pixelOf, lit_toggle, decide_eq_false hne, Bool.xor_false]
      have hrest : (∃ other ∈ rest, (d.toggle point).screen.isOn (pixelOf other) = true) ↔
          ∃ other ∈ rest, d.screen.isOn (pixelOf other) = true :=
        exists_congr fun other => and_congr_right fun hother => by rw [hkept other hother]
      rw [List.foldl_cons, ih _ h.2, hrest, Drawing.toggle, Bool.or_eq_true, or_assoc,
        List.exists_mem_cons_iff, isOn_pixelOf]

/-- The flag of a drawing tells whether the sprite covers a pixel that was on. -/
theorem collided_draw_iff (f : Framebuffer) (h : sprite.length ≤ 32) (x y : ℕ) :
    (f.draw x y sprite).collided = true ↔ ∃ p, f.isOn p = true ∧ sprite.Covers x y p := by
  rw [draw, collided_foldl_toggle _ _ (nodup_pixels h x y)]
  simp only [Bool.false_eq_true, false_or, Sprite.covers_iff_mem, List.mem_map]
  constructor
  · rintro ⟨point, hpoint, hon⟩
    exact ⟨_, hon, point, hpoint, rfl⟩
  · rintro ⟨_, hon, point, hpoint, rfl⟩
    exact ⟨point, hpoint, hon⟩

/-- The pixels on which two sets differ and, twice, those they share are as many as the pixels of
the one and of the other. -/
lemma card_xor (on covered : Pixel → Bool) :
    #{p | (on p ^^ covered p) = true} + 2 * #{p | on p = true ∧ covered p = true} =
      #{p | on p = true} + #{p | covered p = true} := by
  simp only [card_filter, mul_sum, ← sum_add_distrib]
  refine sum_congr rfl fun p _ => ?_
  cases on p <;> cases covered p <;> rfl

/-- A drawing adds the set pixels of its sprite, and takes away twice those that were on. -/
theorem count_draw (f : Framebuffer) (h : sprite.length ≤ 32) (x y : ℕ) :
    (f.draw x y sprite).screen.count + 2 * #{p | f.isOn p = true ∧ sprite.Covers x y p} =
      f.count + sprite.weight := by
  have hxor := card_xor f.isOn fun p => decide (sprite.Covers x y p)
  simp only [decide_eq_true_eq, card_covers h x y, ← isOn_draw f h x y] at hxor
  rw [count_eq_card, count_eq_card, hxor]

end Framebuffer

/-! ### Drawing every bit -/

/-- The pixels of a sprite, set or not, with the points they come to: row by row, and each row
from the left to the right. -/
def Sprite.cells (x y : ℕ) : Sprite → List ((ℕ × ℕ) × Bool)
  | [] => []
  | row :: rest =>
    (List.range 8).map (fun column => ((x + column, y), bit row column)) ++ cells x (y + 1) rest

/-- Combines a pixel of the screen with one of a sprite, and notes whether both were on. -/
def Drawing.combine (d : Drawing) (cell : (ℕ × ℕ) × Bool) : Drawing :=
  ⟨d.screen.flip cell.1.1 cell.1.2 cell.2,
    d.collided || (d.screen.lit cell.1.1 cell.1.2 && cell.2)⟩

/-- Draws a sprite by combining the screen with every pixel of the sprite, one after another. -/
def Framebuffer.drawCells (f : Framebuffer) (x y : ℕ) (sprite : Sprite) : Drawing :=
  (sprite.cells x y).foldl Drawing.combine ⟨f, false⟩

namespace Drawing

/-- A pixel that is not set changes nothing. -/
lemma combine_false (d : Drawing) (point : ℕ × ℕ) : d.combine (point, false) = d := by
  have hscreen : d.screen.flip point.1 point.2 false = d.screen := by
    ext u v
    rw [Framebuffer.lit_flip]
    simp
  rw [combine, hscreen, Bool.and_false, Bool.or_false]

/-- A pixel that is set is toggled. -/
lemma combine_true (d : Drawing) (point : ℕ × ℕ) : d.combine (point, true) = d.toggle point := by
  rw [combine, toggle, Bool.and_true]

lemma foldl_cells (x y : ℕ) (sprite : Sprite) (d : Drawing) :
    (sprite.cells x y).foldl combine d = (sprite.points x y).foldl toggle d := by
  induction sprite generalizing y d with
  | nil => rfl
  | cons row rest ih =>
      rw [Sprite.cells, Sprite.points, List.foldl_append, List.foldl_append, ih, List.foldl_map,
        List.foldl_map, Sprite.columns, List.foldl_filter]
      congr 2
      funext d column
      cases Sprite.bit row column with
      | true => rw [combine_true, if_pos rfl]
      | false => rw [combine_false, if_neg Bool.false_ne_true]

end Drawing

/-- Combining every bit comes to the same as toggling the points of the set ones. -/
theorem Framebuffer.drawCells_eq_draw (f : Framebuffer) (x y : ℕ) (sprite : Sprite) :
    f.drawCells x y sprite = f.draw x y sprite := Drawing.foldl_cells x y sprite _

/-! ### The instruction -/

/-- Drawing is the exclusive or with the pixels covered. Where the rows of a sprite lie inside the
memory the instruction succeeds; each pixel changes exactly if the sprite covers it, where the
corner is taken from the registers as they were before; the flag register tells whether the sprite
covers a pixel that was on, and the other registers and the index register stay as they are. The
pixels that are on grow by the set pixels of the sprite less twice those that met a pixel that was
on, and the host is asked to draw exactly if the sprite has a set pixel. All of this is what
combining the screen with every bit of the sprite, one after another, comes to. -/
theorem draw_is_exclusive_or (m : Machine) (x y : Register) {height : ℕ} (hheight : height < 16)
    (hfits : m.index + height ≤ 4096) :
    let u := (m.reg x).toNat
    let v := (m.reg y).toNat
    let sprite : Sprite := m.memory.slice m.index height
    ∃ e, m.execute (.draw x y height) = .ok e ∧
      (∀ p, e.machine.screen.isOn p = (m.screen.isOn p ^^ decide (sprite.Covers u v p))) ∧
      e.machine.reg .flag =
        (if ∃ p, m.screen.isOn p = true ∧ sprite.Covers u v p then 1 else 0) ∧
      (∀ z, z ≠ .flag → e.machine.reg z = m.reg z) ∧
      e.machine.index = m.index ∧
      e.machine.screen.count + 2 * #{p | m.screen.isOn p = true ∧ sprite.Covers u v p} =
        m.screen.count + sprite.weight ∧
      e.operation = (if 0 < sprite.weight then .draw else .none) ∧
      e.machine.screen = (m.screen.drawCells u v sprite).screen ∧
      e.machine.reg .flag = (m.screen.drawCells u v sprite).collided.toUInt8 := by
  intro u v sprite
  have hlength : sprite.length ≤ 32 := by
    rw [Memory.length_slice]
    omega
  have hread : m.memory.read m.index height = .ok sprite :=
    Memory.read_eq_ok_iff.mpr ⟨hfits, rfl⟩
  obtain ⟨d, hd⟩ : ∃ d, d = m.screen.draw u v sprite := ⟨_, rfl⟩
  have hexecute : m.execute (.draw x y height) =
      .ok { machine := { m with screen := d.screen, registers := m.registers.setFlag d.collided }
            operation := if sprite.any (· != 0) then .draw else .none } := by
    simp only [Machine.execute, hread, hd]
    rfl
  have hflag : (m.registers.setFlag d.collided).get .flag = d.collided.toUInt8 := by
    rw [Registers.get_setFlag, if_pos rfl]
  have hcollided : d.collided = decide (∃ p, m.screen.isOn p = true ∧ sprite.Covers u v p) := by
    rw [Bool.eq_iff_iff, decide_eq_true_iff, hd, m.screen.collided_draw_iff hlength u v]
  refine ⟨_, hexecute, ?_, ?_, ?_, rfl, ?_, ?_, ?_, ?_⟩
  · rw [hd]
    exact m.screen.isOn_draw hlength u v
  · refine hflag.trans ?_
    rw [hcollided]
    split_ifs with hboth
    · rw [decide_eq_true hboth]
      rfl
    · rw [decide_eq_false hboth]
      rfl
  · intro z hz
    exact (Registers.get_setFlag _ _ z).trans (if_neg (Ne.symm hz))
  · rw [hd]
    exact m.screen.count_draw hlength u v
  · simp only [Sprite.weight_pos_iff]
  · rw [Framebuffer.drawCells_eq_draw, hd]
  · rw [Framebuffer.drawCells_eq_draw, ← hd]
    exact hflag

/-- The first glyph drawn at the bottom right corner, which the flag register names twice, onto a
screen where the pixel in that corner is on. It is turned off, the glyph comes out at all four
corners of the screen, and the flag register is overwritten. -/
theorem draw_is_exclusive_or_at_corner :
    let rom : Rom := ⟨"CORNER", [], by decide⟩
    let m : Machine := { Machine.boot rom {} (.cycling #[]) with
      registers := Registers.zero.set .flag 63
      screen := Framebuffer.blank.flip 63 31 true }
    5 < 16 ∧ m.index + 5 ≤ 4096 ∧ m.reg .flag = 63 ∧ m.screen.isOn (63, 31) = true ∧
      ∃ e, m.execute (.draw .flag .flag 5) = .ok e ∧
        e.machine.screen.isOn (63, 31) = false ∧ e.machine.screen.isOn (0, 31) = true ∧
        e.machine.screen.isOn (63, 0) = true ∧ e.machine.screen.isOn (0, 0) = false ∧
        e.machine.reg .flag = 1 ∧ e.operation = .draw := by
  intro rom m
  have hreg : m.reg .flag = 63 := Registers.get_set _ _ _ _
  have hindex : m.index = Font.address 0 := rfl
  have hmemory : m.memory = rom.image := rfl
  have hrows : ∀ row < 5, m.memory.byteAt (5 * 0 + row) = Font.glyphs.getD (5 * 0 + row) 0 := by
    intro row hrow
    rw [hmemory, rom.byteAt_image_eq (by omega), if_pos (by omega)]
  have hsprite : m.memory.slice m.index 5 = Font.glyph 0 := by
    rw [hindex, Memory.slice_eq_glyph (by decide) hrows]
  have hscreen : m.screen = Framebuffer.blank.flip 63 31 true := rfl
  have hon : ∀ p : Pixel, m.screen.isOn p = decide (63 = (p.1 : ℕ) % 64 ∧ 31 = (p.2 : ℕ) % 32) := by
    intro p
    rw [Framebuffer.isOn, hscreen, Framebuffer.lit_flip, Framebuffer.lit_blank, Bool.false_xor]
    split_ifs with hcorner
    · exact (decide_eq_true hcorner).symm
    · exact (decide_eq_false hcorner).symm
  obtain ⟨e, hexecute, hpixels, hflag, -, -, -, hoperation, -⟩ :=
    draw_is_exclusive_or m .flag .flag (by decide : 5 < 16) (by decide : 0 + 5 ≤ 4096)
  rw [hreg, hsprite] at hpixels hflag
  rw [hsprite] at hoperation
  refine ⟨by decide, by decide, hreg, ?_, e, hexecute, ?_, ?_, ?_, ?_, ?_, ?_⟩
  · rw [hon]
    decide
  · rw [hpixels, hon]
    decide
  · rw [hpixels, hon]
    decide
  · rw [hpixels, hon]
    decide
  · rw [hpixels, hon]
    decide
  · rw [hflag, if_pos]
    exact ⟨(63, 31), by rw [hon]; decide, by decide⟩
  · rw [hoperation, if_pos (Sprite.weight_pos_iff.mpr (Font.any_glyph (by decide)))]

end ChipEight
