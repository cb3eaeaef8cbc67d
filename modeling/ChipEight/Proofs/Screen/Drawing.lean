import Mathlib.Tactic
import ChipEight.Framebuffer

/-!
Drawing, pixel by pixel.

* `wrap`: the pixel that a point with arbitrary coordinates stands for.
* `lit_draw`: a drawing changes the pixels that an odd number of points of its sprite wraps to.
* `nodup_points`: the points of a sprite with at most 32 rows wrap to different pixels.
* `draw_changes_iff`: so such a sprite changes some pixel exactly if one of its rows is not zero.
-/

namespace ChipEight

/-! ### Sprites -/

namespace Sprite

/-- A row has a set pixel exactly if it is not zero. -/
lemma any_bit_eq (row : UInt8) : (List.range 8).any (bit row) = (row != 0) := by
  rw [Bool.eq_iff_iff, List.any_eq_true, bne_iff_ne]
  constructor
  · rintro ⟨column, -, hbit⟩ rfl
    simp [bit] at hbit
  · intro hrow
    have hne : row.toNat ≠ 0 := fun h => hrow (UInt8.toNat_inj.mp (by simpa using h))
    obtain ⟨i, hi⟩ := Nat.exists_testBit_of_ne_zero hne
    have hlt : 2 ^ i < 2 ^ 8 := (Nat.ge_two_pow_of_testBit hi).trans_lt row.toNat_lt
    have hi8 : i < 8 := (Nat.pow_lt_pow_iff_right (by decide)).mp hlt
    refine ⟨7 - i, List.mem_range.mpr (by omega), ?_⟩
    rw [bit, show 7 - (7 - i) = i by omega]
    exact hi

lemma columns_eq_nil_iff {row : UInt8} : columns row = [] ↔ row = 0 := by
  have hany := any_bit_eq row
  rw [columns, List.filter_eq_nil_iff]
  simp only [← List.any_eq_false, hany]
  exact bne_eq_false_iff_eq

lemma points_eq_nil_iff {x y : Nat} {sprite : Sprite} :
    sprite.points x y = [] ↔ sprite.any (· != 0) = false := by
  induction sprite generalizing y with
  | nil => simp [points]
  | cons row rest ih => simp [points, ih, columns_eq_nil_iff]

/-- A point of a sprite lies in one of its rows and columns. -/
lemma bounds_of_mem_points {x y : Nat} {sprite : Sprite} {point : Nat × Nat}
    (h : point ∈ sprite.points x y) : y ≤ point.2 ∧ point.2 < y + sprite.length := by
  induction sprite generalizing y with
  | nil => cases h
  | cons row rest ih =>
      rw [List.length_cons]
      rcases List.mem_append.mp h with h | h
      · obtain ⟨column, -, rfl⟩ := List.mem_map.mp h
        show y ≤ y ∧ y < _
        omega
      · have hrest := ih h
        omega

end Sprite

/-! ### Wrapped points -/

namespace Framebuffer

/-- The pixel that a point stands for. -/
def wrap (point : Nat × Nat) : Nat × Nat := (point.1 % 64, point.2 % 32)

/-- No two points of a sprite that is not taller than the screen stand for the same pixel. -/
lemma nodup_points {sprite : Sprite} (h : sprite.length ≤ 32) (x y : Nat) :
    ((sprite.points x y).map wrap).Nodup := by
  induction sprite generalizing y with
  | nil => exact List.nodup_nil
  | cons row rest ih =>
      rw [List.length_cons] at h
      rw [Sprite.points, List.map_append, List.map_map, List.nodup_append]
      refine ⟨?_, ih (by omega) (y + 1), ?_⟩
      · refine List.Nodup.map_on ?_ (List.nodup_range.filter _)
        intro c hc d hd hwrap
        have hc8 := List.mem_range.mp (List.mem_filter.mp hc).1
        have hd8 := List.mem_range.mp (List.mem_filter.mp hd).1
        have hcolumn : (x + c) % 64 = (x + d) % 64 := congrArg Prod.fst hwrap
        omega
      · -- the other rows are less than a screen below this one
        rintro _ hhere _ hbelow rfl
        obtain ⟨column, -, hcolumn⟩ := List.mem_map.mp hhere
        obtain ⟨point, hpoint, hwrap⟩ := List.mem_map.mp hbelow
        have hbounds := Sprite.bounds_of_mem_points hpoint
        have hrow : point.2 % 32 = y % 32 := congrArg Prod.snd (hwrap.trans hcolumn.symm)
        omega

/-- Toggling a point changes the pixel it stands for. -/
lemma lit_toggle (d : Drawing) (point : Nat × Nat) (u v : Nat) :
    (d.toggle point).screen.lit u v =
      (d.screen.lit u v ^^ decide (wrap point = wrap (u, v))) := by
  have hwrap : wrap point = wrap (u, v) ↔ point.1 % 64 = u % 64 ∧ point.2 % 32 = v % 32 := by
    rw [wrap, wrap, Prod.mk.injEq]
  rw [Drawing.toggle, lit_flip]
  by_cases h : point.1 % 64 = u % 64 ∧ point.2 % 32 = v % 32
  · rw [if_pos h, decide_eq_true (hwrap.mpr h)]
  · rw [if_neg h, decide_eq_false (mt hwrap.mp h), Bool.xor_false]

/-- Toggling points changes the pixels that an odd number of them wraps to. -/
lemma lit_foldl_toggle (points : List (Nat × Nat)) (d : Drawing) (u v : Nat) :
    (points.foldl Drawing.toggle d).screen.lit u v =
      (d.screen.lit u v ^^ decide ((points.map wrap).count (wrap (u, v)) % 2 = 1)) := by
  induction points generalizing d with
  | nil => simp
  | cons point rest ih =>
      rw [List.foldl_cons, ih, lit_toggle, Bool.xor_assoc, List.map_cons, List.count_cons]
      congr 1
      by_cases h : wrap point = wrap (u, v)
      · simp only [h, beq_self_eq_true, if_true, decide_true, Bool.true_xor]
        rw [← decide_not, decide_eq_decide]
        omega
      · simp [h]

theorem lit_draw (f : Framebuffer) (x y : Nat) (sprite : Sprite) (u v : Nat) :
    (f.draw x y sprite).screen.lit u v =
      (f.lit u v ^^ decide (((sprite.points x y).map wrap).count (wrap (u, v)) % 2 = 1)) :=
  lit_foldl_toggle _ _ u v

/-- Some pixel changes exactly if some row of the sprite is not zero: its points stand for
different pixels, so none of them is changed back. -/
theorem draw_changes_iff (f : Framebuffer) (x y : Nat) {sprite : Sprite} (h : sprite.length ≤ 32) :
    (∃ u v, (f.draw x y sprite).screen.lit u v ≠ f.lit u v) ↔
      sprite.any (· != 0) = true := by
  constructor
  · rintro ⟨u, v, hchanged⟩
    by_contra hzero
    rw [Bool.not_eq_true, ← Sprite.points_eq_nil_iff (x := x) (y := y)] at hzero
    rw [draw, hzero] at hchanged
    exact hchanged rfl
  · intro hset
    obtain ⟨point, hpoint⟩ : ∃ point, point ∈ sprite.points x y := by
      refine List.exists_mem_of_ne_nil _ fun hnil => ?_
      rw [Sprite.points_eq_nil_iff] at hnil
      rw [hnil] at hset
      cases hset
    have hcount : ((sprite.points x y).map wrap).count (wrap point) = 1 :=
      List.count_eq_one_of_mem (nodup_points h x y) (List.mem_map_of_mem hpoint)
    refine ⟨point.1, point.2, ?_⟩
    rw [lit_draw, hcount]
    cases f.lit point.1 point.2 <;> decide

end Framebuffer

end ChipEight
