import Mathlib.Tactic
import ChipEight.Proofs.Host.Display
import ChipEight.Proofs.Memory.Glyphs

/-!
What the flag for drawing tells.

The flag is set from what a cycle asks of the host, not from the pixels. A cycle asks to draw
exactly if it has drawn a sprite with a set pixel, and then some pixel has changed. A cycle that
clears the screen asks for something else, so its changes do not show in the flag.

* `dirty_iff_present`: the flag is set exactly if a display would be handed the screen.
* `ChangesScreen`, `changesScreen_of_clear`: whether a cycle changes the screen, and when one that
  clears it does.
* `dirty_iff_changesScreen`: the flag is set by every change of the screen but that of a clear.
* `dirty_misses_clears`: so it tells of every change exactly if no lit screen is cleared.
* `dirty_misses_clear_of_glyph`: a program that clears one.
-/

namespace ChipEight

/-- A display is handed pixels exactly if a cycle asks to draw, and then it is handed the screen. -/
lemma DisplayCall.of?_eq_present_iff {result : Except Crash Operation}
    {screen pixels : Framebuffer} :
    DisplayCall.of? result screen = some (.present pixels) ↔
      result = .ok .draw ∧ pixels = screen := by
  cases result with
  | error crash => simp [of?]
  | ok operation => cases operation <;> simp [of?, eq_comm]

namespace Machine

variable {m : Machine}

/-- The flag is set after a cycle that asks to draw and after no other, crashes included. -/
lemma dirty_iff_result : m.cycle.machine.dirty = true ↔ m.cycle.result = .ok .draw := by
  cases hexecuted : m.executed? with
  | none =>
      obtain ⟨crash, hresult⟩ := result_of_crashed hexecuted
      obtain ⟨word, counter, hmachine⟩ := machine_of_crashed hexecuted
      rw [hmachine, hresult]
      simp only [Bool.false_eq_true, reduceCtorEq]
  | some i =>
      rw [dirty_of_executed hexecuted, result_of_executed hexecuted, beq_iff_eq, Except.ok.injEq]

/-- The flag is set exactly if a display would be handed the screen. -/
lemma dirty_iff_present :
    m.cycle.machine.dirty = true ↔
      DisplayCall.of? m.cycle.result m.cycle.machine.screen =
        some (.present m.cycle.machine.screen) := by
  calc m.cycle.machine.dirty = true ↔ m.cycle.result = .ok .draw := dirty_iff_result
    _ ↔ m.cycle.result = .ok .draw ∧ m.cycle.machine.screen = m.cycle.machine.screen :=
      (and_iff_left rfl).symm
    _ ↔ _ := DisplayCall.of?_eq_present_iff.symm

/-- Whether the next cycle changes some pixel. -/
def ChangesScreen (m : Machine) : Prop :=
  ∃ u v, m.cycle.machine.screen.lit u v ≠ m.screen.lit u v

/-- A clear changes the pixels that are lit. -/
lemma changesScreen_of_clear (h : m.executed? = some .clear) :
    m.ChangesScreen ↔ ∃ u v, m.screen.lit u v = true := by
  have hblank : m.cycle.machine.screen = .blank := screen_of_executed h
  simp only [ChangesScreen, hblank, Framebuffer.lit_blank, ne_eq, Bool.false_eq, Bool.not_eq_false]

/-- The flag is set by every change of the screen but that of a clear. -/
lemma dirty_iff_changesScreen :
    m.cycle.machine.dirty = true ↔ m.ChangesScreen ∧ m.executed? ≠ some .clear := by
  rw [dirty_iff_present]
  cases m.screenStep with
  | cleared hexecuted hcall hscreen =>
      rw [hcall, hexecuted]
      simp
  | drawn x y height hexecuted hcall hchanged =>
      rw [hcall, hexecuted]
      simp only [true_iff]
      exact ⟨hchanged, by simp⟩
  | kept hexecuted hcall hscreen =>
      rw [hcall, ChangesScreen, hscreen]
      simp

end Machine

/-- The flag misses the changes of a clear and nothing else. After every cycle it is set exactly if
some pixel has changed and the cycle has not cleared the screen; so it tells whether some pixel has
changed, unless the cycle has cleared a screen with a lit pixel. -/
theorem dirty_misses_clears (m : Machine) :
    (m.cycle.machine.dirty = true ↔ m.ChangesScreen ∧ m.executed? ≠ some .clear) ∧
      ((m.cycle.machine.dirty = true ↔ m.ChangesScreen) ↔
        ¬ (m.executed? = some .clear ∧ ∃ u v, m.screen.lit u v = true)) := by
  refine ⟨Machine.dirty_iff_changesScreen, ?_⟩
  rw [Machine.dirty_iff_changesScreen]
  by_cases hclear : m.executed? = some .clear
  · rw [Machine.changesScreen_of_clear hclear]
    simp [hclear]
  · simp [hclear]

/-- A program that draws the first glyph and clears the screen. The second cycle turns off the
pixel in the corner, and the flag is not set. -/
theorem dirty_misses_clear_of_glyph :
    let rom : Rom := ⟨"CLEAR", [0xD0, 0x05, 0x00, 0xE0], by decide⟩
    let m := (Machine.boot rom {} (.cycling #[])).actAll [.cycle]
    m.screen.lit 0 0 = true ∧ m.cycle.machine.screen.lit 0 0 = false ∧
      m.cycle.machine.dirty = false ∧ ¬ (m.cycle.machine.dirty = true ↔ m.ChangesScreen) := by
  intro rom m
  -- the machine as it booted
  obtain ⟨start, hstart⟩ : ∃ start, start = Machine.boot rom {} (.cycling #[]) := ⟨_, rfl⟩
  have hm : m = start.cycle.machine := by rw [hstart]; rfl
  obtain ⟨hdraws, hclears⟩ :
      start.executed? = some (.draw .first .first 5) ∧ m.executed? = some .clear := by
    have hprogram : start.HoldsProgram rom := Machine.holdsProgram_of_image (by rw [hstart]; rfl)
    clear hm
    subst hstart m rom
    exact ⟨(Machine.readCycle_sound hprogram rfl).1, Machine.executed?_of_readRun hprogram rfl rfl⟩
  have hlit : m.screen.lit 0 0 = true := by
    rw [hm, (Machine.draws_first_glyph (by rw [hstart]; rfl) (by rw [hstart]; rfl)
      (by rw [hstart]; rfl) (by rw [hstart]; rfl) hdraws).2]
    exact Framebuffer.lit_first_glyph
  have hdirty : m.cycle.machine.dirty = false := Machine.dirty_of_executed hclears
  have hchanges : m.ChangesScreen := (Machine.changesScreen_of_clear hclears).mpr ⟨0, 0, hlit⟩
  refine ⟨hlit, ?_, hdirty, fun htells => ?_⟩
  · rw [Machine.screen_of_executed hclears]
    exact Framebuffer.lit_blank 0 0
  · rw [htells.mpr hchanges] at hdirty
    cases hdirty

end ChipEight
