import Mathlib.Tactic
import ChipEight.Proofs.Screen.Coverage

/-!
Drawing several sprites one after another.

Each drawing changes the pixels that its sprite covers, so in the end the pixels have changed that
an odd number of the sprites cover. That number does not depend on the order, and sprites that
cover the same pixels count in pairs.

* `Stamp`, `Stamp.Alike`: a sprite and the coordinates it is drawn at, and when two of them are the
  same to the screen.
* `Framebuffer.stampAll`, `isOn_stampAll`: drawing several of them, and what each pixel comes to.
* `stampAll_of_perm`, `stampAll_filter`, `stampAll_append_self`: the order does not matter, stamps
  that occur an even number of times can be left out, and drawing all of them again undoes it.
* `Machine.Holds`, `Drawn`, `drawn_iff`: the same for the instruction, where anything but the screen
  may change from one drawing to the next.
* `collided_again_iff`: the flag of a drawing that undoes another one.
* `drawings_commute_and_cancel`: all of it.
-/

namespace ChipEight

open Finset

/-! ### Stamps -/

/-- A sprite and the register contents that say where it is drawn. -/
structure Stamp where
  /-- The column of the top left corner, before it wraps around. -/
  left : UInt8
  /-- The row of the top left corner, before it wraps around. -/
  top : UInt8
  /-- The rows of the sprite. -/
  rows : Sprite
  /-- The words for drawing have one digit for the number of rows. -/
  length_lt : rows.length < 16
deriving DecidableEq

namespace Stamp

variable {s t : Stamp} {p : Pixel}

/-- Whether a stamp covers a pixel. -/
def Covers (s : Stamp) (p : Pixel) : Prop := s.rows.Covers s.left.toNat s.top.toNat p

instance : Decidable (s.Covers p) :=
  inferInstanceAs (Decidable (s.rows.Covers s.left.toNat s.top.toNat p))

/-- Whether two stamps are the same sprite at coordinates that wrap around to the same place. -/
def Alike (s t : Stamp) : Prop :=
  t.rows = s.rows ∧ t.left.toNat % 64 = s.left.toNat % 64 ∧ t.top.toNat % 32 = s.top.toNat % 32

instance : Decidable (s.Alike t) :=
  inferInstanceAs (Decidable (t.rows = s.rows ∧ t.left.toNat % 64 = s.left.toNat % 64 ∧
    t.top.toNat % 32 = s.top.toNat % 32))

lemma length_le (s : Stamp) : s.rows.length ≤ 32 := by
  have hlt := s.length_lt
  omega

lemma Alike.covers_iff (h : s.Alike t) : t.Covers p ↔ s.Covers p := by
  obtain ⟨hrows, hleft, htop⟩ := h
  have hcolumn : ∀ j, (t.left.toNat + j) % 64 = (s.left.toNat + j) % 64 := fun j => by omega
  have hrow : ∀ i, (t.top.toNat + i) % 32 = (s.top.toNat + i) % 32 := fun i => by omega
  simp only [Covers, Sprite.Covers, hrows, hcolumn, hrow]

/-- A stamp covers a pixel exactly if one of its rows is not zero. -/
lemma exists_covers_iff : (∃ p, s.Covers p) ↔ ∃ row ∈ s.rows, row ≠ 0 := by
  have hcard : #{p | s.Covers p} = s.rows.weight := Framebuffer.card_covers s.length_le _ _
  calc (∃ p, s.Covers p) ↔ 0 < #{p | s.Covers p} := by
        simp only [card_pos, Finset.Nonempty, mem_filter_univ]
    _ ↔ s.rows.any (· != 0) = true := by rw [hcard, Sprite.weight_pos_iff]
    _ ↔ ∃ row ∈ s.rows, row ≠ 0 := by simp only [List.any_eq_true, bne_iff_ne]

end Stamp

/-! ### What each pixel comes to -/

namespace Framebuffer

variable {f g : Framebuffer} {s t : Stamp} {stamps : List Stamp}

lemma ext_isOn (h : ∀ p, f.isOn p = g.isOn p) : f = g := by
  ext x y
  rw [← isOn_pixelOf f (x, y), ← isOn_pixelOf g (x, y), h]

/-- The screen after a stamp is drawn. -/
def stamp (f : Framebuffer) (s : Stamp) : Framebuffer :=
  (f.draw s.left.toNat s.top.toNat s.rows).screen

/-- The screen after some stamps are drawn one after another. -/
def stampAll (f : Framebuffer) (stamps : List Stamp) : Framebuffer := stamps.foldl stamp f

lemma isOn_stamp (f : Framebuffer) (s : Stamp) (p : Pixel) :
    (f.stamp s).isOn p = (f.isOn p ^^ decide (s.Covers p)) :=
  f.isOn_draw s.length_le _ _ p

/-- The pixels change that an odd number of stamps cover. -/
theorem isOn_stampAll (f : Framebuffer) (stamps : List Stamp) (p : Pixel) :
    (f.stampAll stamps).isOn p =
      (f.isOn p ^^ decide (Odd (stamps.countP fun s => s.Covers p))) := by
  induction stamps generalizing f with
  | nil => simp [stampAll]
  | cons s rest ih =>
      have hfirst : (f.stampAll (s :: rest)).isOn p =
          (f.isOn p ^^ (decide (s.Covers p) ^^
            decide (Odd (rest.countP fun s => s.Covers p)))) := by
        rw [← Bool.xor_assoc, ← isOn_stamp, ← ih]
        rfl
      rw [hfirst, List.countP_cons]
      congr 1
      by_cases hcovers : s.Covers p
      · simp only [hcovers, decide_true, Bool.true_xor, if_true, Nat.odd_add_one, decide_not]
      · simp [hcovers]

/-- The order of the stamps does not matter. -/
theorem stampAll_of_perm {others : List Stamp} (h : others.Perm stamps) :
    f.stampAll others = f.stampAll stamps :=
  ext_isOn fun p => by rw [isOn_stampAll, isOn_stampAll, h.countP_eq]

/-- Stamps that are alike cover a pixel all together or not at all. -/
lemma even_countP_of_alike (h : Even (stamps.countP fun t => s.Alike t)) (p : Pixel) :
    Even ((stamps.filter fun t => s.Alike t).countP fun t => t.Covers p) := by
  have hsame : (stamps.filter fun t => s.Alike t).countP (fun t => t.Covers p) =
      (stamps.filter fun t => s.Alike t).countP fun _ => s.Covers p := by
    refine List.countP_congr fun t ht => ?_
    have halike : s.Alike t := of_decide_eq_true (List.mem_filter.mp ht).2
    simp only [decide_eq_true_eq, halike.covers_iff]
  rw [hsame]
  -- so all of them count, or none
  by_cases hcovers : s.Covers p
  · rw [decide_eq_true hcovers, List.countP_true, ← List.countP_eq_length_filter]
    exact h
  · rw [decide_eq_false hcovers, List.countP_false]
    exact Even.zero

/-- Stamps that are drawn an even number of times can be left out. -/
theorem stampAll_filter (h : Even (stamps.countP fun t => s.Alike t)) :
    f.stampAll (stamps.filter fun t => ¬ s.Alike t) = f.stampAll stamps := by
  refine ext_isOn fun p => ?_
  have hsplit := List.countP_eq_countP_filter_add stamps (fun t => decide (t.Covers p))
    fun t => decide (s.Alike t)
  have hparity : Odd (stamps.countP fun t => t.Covers p) ↔
      Odd ((stamps.filter fun t => ¬ s.Alike t).countP fun t => t.Covers p) := by
    simp only [hsplit, Nat.odd_add', even_countP_of_alike h p, iff_true, decide_not]
  rw [isOn_stampAll, isOn_stampAll, decide_eq_decide.mpr hparity]

/-- Drawing everything again undoes it. -/
theorem stampAll_append_self (f : Framebuffer) (stamps : List Stamp) :
    f.stampAll (stamps ++ stamps) = f := by
  refine ext_isOn fun p => ?_
  have heven : ¬ Odd ((stamps ++ stamps).countP fun s => s.Covers p) := by
    rw [List.countP_append, Nat.not_odd_iff_even]
    exact ⟨_, rfl⟩
  rw [isOn_stampAll, decide_eq_false heven, Bool.xor_false]

/-- A stamp that covers the same pixels again meets those that were off before. -/
theorem collided_again_iff (h : s.Alike t) :
    ((f.stamp s).draw t.left.toNat t.top.toNat t.rows).collided = true ↔
      ∃ p, s.Covers p ∧ f.isOn p = false := by
  rw [collided_draw_iff _ t.length_le]
  refine exists_congr fun p => ?_
  have hcovers : t.rows.Covers t.left.toNat t.top.toNat p ↔ s.Covers p := h.covers_iff
  rw [hcovers, and_comm, isOn_stamp]
  refine and_congr_right fun hp => ?_
  rw [decide_eq_true hp, Bool.xor_true, Bool.not_eq_true']

/-- Drawing a stamp after one that is alike undoes it. -/
theorem stamp_stamp (h : s.Alike t) : (f.stamp s).stamp t = f := by
  refine ext_isOn fun p => ?_
  rw [isOn_stamp, isOn_stamp, decide_eq_decide.mpr h.covers_iff, Bool.xor_assoc, Bool.xor_self,
    Bool.xor_false]

end Framebuffer

/-! ### The instruction -/

namespace Machine

variable {m : Machine} {s : Stamp} {x y : Register}

/-- Whether the instruction that draws will draw a stamp: its coordinates are in the registers, and
its rows are what the index register points to. -/
structure Holds (m : Machine) (s : Stamp) (x y : Register) : Prop where
  /-- The column is in the one register. -/
  left : m.reg x = s.left
  /-- The row is in the other one. -/
  top : m.reg y = s.top
  /-- The rows lie inside the memory. -/
  rows : m.memory.read m.index s.rows.length = .ok s.rows

/-- A machine that holds a stamp draws it, and notes in the flag register what it met. -/
lemma execute_draw_of_holds (h : m.Holds s x y) :
    ∃ e, m.execute (.draw x y s.rows.length) = .ok e ∧ e.machine.screen = m.screen.stamp s ∧
      e.machine.reg .flag =
        (m.screen.draw s.left.toNat s.top.toNat s.rows).collided.toUInt8 := by
  refine ⟨_, by simp only [execute, h.rows]; rfl, ?_, ?_⟩
  · rw [h.left, h.top]
    rfl
  · rw [h.left, h.top]
    exact (Registers.get_setFlag _ _ _).trans (if_pos rfl)

/-- Any stamp can be drawn on any screen. -/
lemma exists_holds (f : Framebuffer) (s : Stamp) :
    ∃ (m : Machine) (x y : Register), m.screen = f ∧ m.Holds s x y := by
  let boot := boot ⟨"", [], by decide⟩ {} (.cycling #[])
  let m : Machine := { boot with
    screen := f
    registers := (Registers.zero.set 0 s.left).set 1 s.top
    memory := boot.memory.overlay 0 s.rows }
  have hfits : 0 + s.rows.length ≤ 4096 := by
    have hlength := s.length_le
    omega
  exact ⟨m, 0, 1, rfl, by simp [m, reg], by simp [m, reg], boot.memory.read_overlay hfits⟩

end Machine

/-- What can come of a screen when stamps are drawn on it in turn. Each of them is drawn by the
instruction on some machine that shows the screen so far, whatever else has changed in between. -/
inductive Drawn : Framebuffer → List Stamp → Framebuffer → Prop where
  | nil (f : Framebuffer) : Drawn f [] f
  | cons {m : Machine} {s : Stamp} {x y : Register} {e : Execution} {rest : List Stamp}
      {g : Framebuffer} (hholds : m.Holds s x y)
      (hexecute : m.execute (.draw x y s.rows.length) = .ok e)
      (hrest : Drawn e.machine.screen rest g) : Drawn m.screen (s :: rest) g

/-- The machines do not matter, and there always are some. -/
theorem drawn_iff {f g : Framebuffer} {stamps : List Stamp} :
    Drawn f stamps g ↔ g = f.stampAll stamps := by
  constructor
  · intro h
    induction h with
    | nil f => rfl
    | cons hholds hexecute hrest ih =>
        obtain ⟨e, hdrawn, hscreen, -⟩ := Machine.execute_draw_of_holds hholds
        cases hexecute.symm.trans hdrawn
        rw [ih, hscreen]
        rfl
  · rintro rfl
    induction stamps generalizing f with
    | nil => exact .nil f
    | cons s rest ih =>
        -- any machine will do that shows the screen and holds the stamp
        obtain ⟨m, x, y, rfl, hholds⟩ := Machine.exists_holds f s
        obtain ⟨e, hexecute, hscreen, -⟩ := Machine.execute_draw_of_holds hholds
        refine .cons hholds hexecute ?_
        rw [hscreen]
        exact ih

/-! ### The law -/

/-- Drawings commute and are undone by themselves. However the instruction draws stamps one after
another, the screen it ends with is the same for every order of the stamps. Of the stamps that are
the same sprite at coordinates that wrap around to the same place, an even number can be left out,
and drawing all stamps twice changes nothing. In particular a second drawing of the same sprite at
the same place restores the screen. Its flag tells whether the sprite covers a pixel that was off
before the first one, and on a blank screen whether the sprite has a set pixel. -/
theorem drawings_commute_and_cancel (f : Framebuffer) (stamps : List Stamp) :
    (∃ g, Drawn f stamps g ∧ ∀ others : List Stamp, others.Perm stamps →
        ∀ h, Drawn f others h ↔ h = g) ∧
      (∀ s : Stamp, Even (stamps.countP fun t => s.Alike t) →
        ∀ g, Drawn f stamps g ↔ Drawn f (stamps.filter fun t => ¬ s.Alike t) g) ∧
      (∀ g, Drawn f (stamps ++ stamps) g ↔ g = f) ∧
      ∀ (m : Machine) (s : Stamp) (x y : Register), m.Holds s x y →
        ∃ e, m.execute (.draw x y s.rows.length) = .ok e ∧
          ∀ (k : Machine) (t : Stamp) (u v : Register), k.Holds t u v → s.Alike t →
            k.screen = e.machine.screen →
              ∃ again, k.execute (.draw u v t.rows.length) = .ok again ∧
                again.machine.screen = m.screen ∧
                again.machine.reg .flag =
                  (if ∃ p, s.Covers p ∧ m.screen.isOn p = false then 1 else 0) ∧
                (m.screen = .blank →
                  again.machine.reg .flag = if ∃ row ∈ s.rows, row ≠ 0 then 1 else 0) := by
  refine ⟨⟨f.stampAll stamps, drawn_iff.mpr rfl, fun others hperm h => ?_⟩,
    fun s heven g => ?_, fun g => ?_, fun m s x y hholds => ?_⟩
  · rw [drawn_iff, Framebuffer.stampAll_of_perm hperm]
  · rw [drawn_iff, drawn_iff, Framebuffer.stampAll_filter heven]
  · rw [drawn_iff, Framebuffer.stampAll_append_self]
  · obtain ⟨e, hexecute, hscreen, -⟩ := Machine.execute_draw_of_holds hholds
    refine ⟨e, hexecute, fun k t u v hagain halike hshown => ?_⟩
    obtain ⟨again, hexecute, hrestored, hflag⟩ := Machine.execute_draw_of_holds hagain
    rw [hshown, hscreen] at hrestored hflag
    have hcollided : again.machine.reg .flag =
        if ∃ p, s.Covers p ∧ m.screen.isOn p = false then 1 else 0 := by
      rw [hflag, Bool.toUInt8]
      exact if_congr (Framebuffer.collided_again_iff halike) rfl rfl
    refine ⟨again, hexecute, hrestored.trans (Framebuffer.stamp_stamp halike), hcollided, ?_⟩
    intro hblank
    have hoff : (∃ p, s.Covers p ∧ m.screen.isOn p = false) ↔ ∃ row ∈ s.rows, row ≠ 0 := by
      rw [← Stamp.exists_covers_iff, hblank]
      exact exists_congr fun p => and_iff_left (Framebuffer.lit_blank _ _)
    rw [hcollided, if_congr hoff rfl rfl]

/-- The first glyph drawn in the top left corner, and again at coordinates one screen further on,
with a sprite that wraps around the corner in between. The two glyphs can be left out, and if only
they are drawn the screen is blank again and the flag register is set. -/
theorem drawings_commute_and_cancel_at_next_screen :
    let s : Stamp := ⟨0, 0, Font.glyph 0, by decide⟩
    let t : Stamp := ⟨64, 32, Font.glyph 0, by decide⟩
    let u : Stamp := ⟨63, 31, [0xFF, 0xFF], by decide⟩
    let m := Machine.boot ⟨"GLYPH", [], by decide⟩ {} (.cycling #[])
    Even ([s, u, t].countP fun other => s.Alike other) ∧
      (∀ g, Drawn .blank [s, u, t] g ↔ Drawn .blank [u] g) ∧
      m.Holds s 1 2 ∧ ∃ e, m.execute (.draw 1 2 5) = .ok e ∧
        let k := { m with
          screen := e.machine.screen
          registers := (Registers.zero.set 1 64).set 2 32 }
        k.Holds t 1 2 ∧ ∃ again, k.execute (.draw 1 2 5) = .ok again ∧
          again.machine.screen = .blank ∧ again.machine.reg .flag = 1 := by
  intro s t u m
  have halike : s.Alike t := by decide
  have heven : Even ([s, u, t].countP fun other => s.Alike other) := by decide
  have hrows : ∀ row < 5, m.memory.byteAt (5 * 0 + row) = Font.glyphs.getD (5 * 0 + row) 0 := by
    intro row hrow
    have hmemory : m.memory = Rom.image ⟨"GLYPH", [], by decide⟩ := rfl
    rw [hmemory, Rom.byteAt_image_eq _ (by omega), if_pos (by omega)]
  have hindex : m.index = Font.address 0 := rfl
  have hread : m.memory.read m.index 5 = .ok (Font.glyph 0) := by
    rw [hindex]
    exact Memory.read_eq_ok_iff.mpr ⟨by decide, Memory.slice_eq_glyph (Nat.zero_le _) hrows⟩
  have hholds : m.Holds s 1 2 := ⟨Registers.get_zero _, Registers.get_zero _, hread⟩
  obtain ⟨-, hfilter, -, htwice⟩ := drawings_commute_and_cancel .blank [s, u, t]
  obtain ⟨e, hexecute, hagain⟩ := htwice m s 1 2 hholds
  have hleft : [s, u, t].filter (fun other => ¬ s.Alike other) = [u] := by decide
  refine ⟨heven, fun g => ?_, hholds, e, hexecute, ?_⟩
  · rw [hfilter s heven, hleft]
  intro k
  have hheld : k.Holds t 1 2 := ⟨by simp [k, Machine.reg, t], by simp [k, Machine.reg, t], hread⟩
  obtain ⟨again, hexecuted, hscreen, -, hblank⟩ := hagain k t 1 2 hheld halike rfl
  refine ⟨hheld, again, hexecuted, hscreen, (hblank rfl).trans (if_pos ?_)⟩
  exact ⟨0xF0, by decide, by decide⟩

end ChipEight
