import Mathlib.Tactic
import ChipEight.Host.Runner
import ChipEight.Proofs.Memory.Glyphs
import ChipEight.Proofs.Screen.Drawing

/-!
The display is up to date, and is told no more than it has to be.

* `Runner.after`, `Runner.calls`: a runner after a number of ticks, and what its display was
  told in them. `DisplayCall.shownAfter` is what a display makes of it.
* `Keyboard.actions`, `Runner.after_eq`: ticks are runs of the machine, made of the presses that
  the keyboard answers and of cycles.
* `ScreenStep`, `screenStep`: a cycle clears the screen, or draws a sprite that changes it, or
  leaves it as it is; what it asks of the host tells which.
* `shown_of_tick`, `present_iff`, `clear_iff`: what a tick tells the display, and why.
* `display_is_current`: all of it, after every number of ticks from the boot on.
-/

namespace ChipEight

/-- What a display shows after some calls; before the first one it is blank. -/
def DisplayCall.shownAfter (calls : List DisplayCall) : Framebuffer :=
  calls.foldl (fun _ call => call.shown) .blank

namespace Runner

/-- The runner after a number of ticks, whether they crash or not. -/
def after (r : Runner) : Nat → Runner
  | 0 => r
  | n + 1 => (r.after n).tick.runner

/-- What the display is told in a number of ticks, in order. -/
def calls (r : Runner) : Nat → List DisplayCall
  | 0 => []
  | n + 1 => r.calls n ++ (r.after n).tick.call.toList

/-- The machine of a runner with the keys of the next tick pressed, about to run its cycle. -/
def polled (r : Runner) : Machine := r.machine.pressAll r.keyboard.poll.1

end Runner

/-! ### Ticks as runs of a machine -/

namespace Keyboard

/-- A keyboard after a number of polls. -/
def after (k : Keyboard) : Nat → Keyboard
  | 0 => k
  | n + 1 => (k.after n).poll.2

/-- The presses of the keys that the next poll answers. -/
def presses (k : Keyboard) : List Action := k.poll.1.map .press

/-- What a number of ticks does to the machine that is fed from a keyboard. -/
def actions (k : Keyboard) : Nat → List Action
  | 0 => []
  | n + 1 => k.actions n ++ (k.after n).presses ++ [.cycle]

end Keyboard

namespace Runner

lemma polled_eq (r : Runner) : r.polled = r.machine.actAll r.keyboard.presses := by
  rw [polled, Machine.pressAll, Keyboard.presses, Machine.actAll, List.foldl_map]
  rfl

/-- Ticks are runs of the machine, with what the keyboard answers and a cycle for each of them. -/
theorem after_eq (r : Runner) (n : Nat) :
    r.after n = ⟨r.machine.actAll (r.keyboard.actions n), r.keyboard.after n⟩ := by
  induction n with
  | zero => rfl
  | succ n ih =>
      have hpolled := (r.after n).polled_eq
      show (⟨(r.after n).polled.cycle.machine, (r.after n).keyboard.poll.2⟩ : Runner) = _
      rw [hpolled, ih, Keyboard.actions, Machine.actAll_concat, Machine.actAll_append]
      rfl

lemma polled_after (r : Runner) (n : Nat) :
    (r.after n).polled =
      r.machine.actAll (r.keyboard.actions n ++ (r.keyboard.after n).presses) := by
  rw [polled_eq, after_eq, Machine.actAll_append]

end Runner

/-! ### One cycle -/

namespace Machine

/-- What a cycle can do to the screen, and what the display is told about it. -/
inductive ScreenStep (m : Machine) : Prop where
  | cleared (hexecuted : m.executed? = some .clear)
      (hcall : DisplayCall.of? m.cycle.result m.cycle.machine.screen = some .clear)
      (hscreen : m.cycle.machine.screen = .blank)
  | drawn (x y : Register) (height : Nat) (hexecuted : m.executed? = some (.draw x y height))
      (hcall : DisplayCall.of? m.cycle.result m.cycle.machine.screen =
        some (.present m.cycle.machine.screen))
      (hchanged : ∃ u v, m.cycle.machine.screen.lit u v ≠ m.screen.lit u v)
  | kept (hexecuted : m.executed? ≠ some .clear)
      (hcall : DisplayCall.of? m.cycle.result m.cycle.machine.screen = none)
      (hscreen : m.cycle.machine.screen = m.screen)

/-- A sprite without a set pixel changes nothing, and the host is not asked to show it. -/
lemma screenStep_of_draw {m : Machine} {x y : Register} {height : Nat}
    (h : m.executed? = some (.draw x y height)) : ScreenStep m := by
  have hheight := Instruction.height_lt_of_decode (decode_of_executed h)
  have hlength : (m.memory.slice m.index height).length ≤ 32 := by
    rw [Memory.length_slice]
    omega
  have hchanges := m.screen.draw_changes_iff (m.reg x).toNat (m.reg y).toNat hlength
  have hscreen : m.cycle.machine.screen =
      (m.screen.draw (m.reg x).toNat (m.reg y).toNat (m.memory.slice m.index height)).screen :=
    screen_of_executed h
  have hresult : m.cycle.result =
      .ok (if (m.memory.slice m.index height).any (· != 0) then .draw else .none) :=
    result_of_executed h
  cases hany : (m.memory.slice m.index height).any (· != 0) with
  | true =>
      rw [hany] at hresult
      refine .drawn x y height h (by rw [hresult]; rfl) ?_
      rw [hscreen]
      exact hchanges.mpr hany
  | false =>
      rw [hany] at hresult
      refine .kept (by simp [h]) (by rw [hresult]; rfl) ?_
      rw [hscreen]
      ext u v
      by_contra hne
      have hset := hchanges.mp ⟨u, v, hne⟩
      rw [hany] at hset
      cases hset

lemma screenStep (m : Machine) : ScreenStep m := by
  cases hexecuted : m.executed? with
  | none =>
      obtain ⟨crash, hresult⟩ := result_of_crashed hexecuted
      obtain ⟨word, counter, hmachine⟩ := machine_of_crashed hexecuted
      exact .kept (by simp [hexecuted]) (by rw [hresult]; rfl) (by rw [hmachine])
  | some i =>
      have hscreen := screen_of_executed hexecuted
      have hresult := result_of_executed hexecuted
      cases i with
      | clear => exact .cleared hexecuted (by rw [hresult]; rfl) hscreen
      | draw x y height => exact screenStep_of_draw hexecuted
      | awaitKey x =>
          refine .kept (by simp [hexecuted]) ?_ hscreen
          rw [hresult, operationOf]
          split <;> rfl
      | _ => exact .kept (by simp [hexecuted]) (by rw [hresult]; rfl) hscreen

end Machine

/-! ### One tick -/

namespace Runner

lemma result_tick (r : Runner) : r.tick.result = r.polled.cycle.result := rfl

lemma machine_succ (r : Runner) (n : Nat) :
    (r.after (n + 1)).machine = (r.after n).polled.cycle.machine := rfl

lemma screen_polled (r : Runner) : r.polled.screen = r.machine.screen := by
  rw [polled, Machine.pressAll]
  generalize r.machine = m
  induction r.keyboard.poll.1 generalizing m with
  | nil => rfl
  | cons code rest ih => exact ih (m.press code)

/-- A display that shows the screen before a tick shows it after the tick as well. -/
lemma shown_of_tick (r : Runner) :
    (r.tick.call.map DisplayCall.shown).getD r.machine.screen = r.tick.runner.machine.screen := by
  have hbefore := r.screen_polled
  cases r.polled.screenStep with
  | cleared hexecuted hcall hscreen =>
      rw [show r.tick.call = some .clear from hcall]
      exact hscreen.symm
  | drawn x y height hexecuted hcall hchanged =>
      rw [show r.tick.call = some (.present r.tick.runner.machine.screen) from hcall]
      rfl
  | kept hexecuted hcall hscreen =>
      rw [show r.tick.call = none from hcall]
      exact (hscreen.trans hbefore).symm

/-- The display is handed pixels exactly if a sprite was drawn that changed some, and then it is
handed the screen. -/
lemma present_iff (r : Runner) (pixels : Framebuffer) :
    r.tick.call = some (.present pixels) ↔
      (∃ x y height, r.polled.executed? = some (.draw x y height)) ∧
        (∃ u v, r.tick.runner.machine.screen.lit u v ≠ r.machine.screen.lit u v) ∧
        pixels = r.tick.runner.machine.screen := by
  have hbefore := r.screen_polled
  cases r.polled.screenStep with
  | cleared hexecuted hcall hscreen =>
      rw [show r.tick.call = some .clear from hcall, hexecuted]
      simp
  | drawn x y height hexecuted hcall hchanged =>
      rw [hbefore] at hchanged
      rw [show r.tick.call = some (.present r.tick.runner.machine.screen) from hcall, hexecuted]
      constructor
      · rintro ⟨⟩
        exact ⟨⟨x, y, height, rfl⟩, hchanged, rfl⟩
      · rintro ⟨-, -, rfl⟩
        rfl
  | kept hexecuted hcall hscreen =>
      have hsame : r.tick.runner.machine.screen = r.machine.screen := hscreen.trans hbefore
      rw [show r.tick.call = none from hcall, hsame]
      simp

/-- The display is told to clear exactly if the tick cleared the screen. -/
lemma clear_iff (r : Runner) : r.tick.call = some .clear ↔ r.polled.executed? = some .clear := by
  cases r.polled.screenStep with
  | cleared hexecuted hcall hscreen =>
      rw [show r.tick.call = some .clear from hcall, hexecuted]
      simp
  | drawn x y height hexecuted hcall hchanged =>
      rw [show r.tick.call = some (.present r.tick.runner.machine.screen) from hcall, hexecuted]
      simp
  | kept hexecuted hcall hscreen =>
      rw [show r.tick.call = none from hcall]
      simp [hexecuted]

/-- A tick that crashes does not touch the display. -/
lemma call_of_error {r : Runner} {crash : Crash} (h : r.tick.result = .error crash) :
    r.tick.call = none := by
  show DisplayCall.of? r.tick.result _ = none
  rw [h]
  rfl

/-! ### All ticks -/

/-- A display that shows the screen at first shows it after every tick. -/
theorem shownAfter_calls {r : Runner} (h : r.machine.screen = .blank) (n : Nat) :
    DisplayCall.shownAfter (r.calls n) = (r.after n).machine.screen := by
  induction n with
  | zero => exact h.symm
  | succ n ih =>
      have hshown := (r.after n).shown_of_tick
      rw [calls, DisplayCall.shownAfter, List.foldl_append, ← DisplayCall.shownAfter, ih]
      cases hcall : (r.after n).tick.call with
      | none =>
          rw [hcall] at hshown
          exact hshown
      | some call =>
          rw [hcall] at hshown
          exact hshown

/-- A tick calls the display at most once. -/
lemma length_calls_succ_le (r : Runner) (n : Nat) :
    (r.calls (n + 1)).length ≤ (r.calls n).length + 1 := by
  rw [calls, List.length_append]
  cases (r.after n).tick.call with
  | none => exact Nat.le_succ _
  | some call => exact le_rfl

end Runner

/-- The display is never stale and never refreshed without need. A display that is blank when
the machine boots, blank after every clear and the pixels it was handed after every presentation
shows the screen after any number of ticks, crashes included. A tick calls it at most once: with
the screen exactly if a sprite was drawn and some pixel has changed, with a clear exactly if the
screen was cleared, and not at all if it crashed. -/
theorem display_is_current (rom : Rom) (config : Config) (random : RandomSource)
    (keyboard : Keyboard) (n : Nat) :
    let start : Runner := ⟨.boot rom config random, keyboard⟩
    let r := start.after n
    DisplayCall.shownAfter (start.calls n) = r.machine.screen ∧
      (start.calls (n + 1)).length ≤ (start.calls n).length + 1 ∧
      (∀ pixels, r.tick.call = some (.present pixels) ↔
        (∃ x y height, r.polled.executed? = some (.draw x y height)) ∧
          (∃ u v, r.tick.runner.machine.screen.lit u v ≠ r.machine.screen.lit u v) ∧
          pixels = r.tick.runner.machine.screen) ∧
      (r.tick.call = some .clear ↔ r.polled.executed? = some .clear) ∧
      (∀ crash, r.tick.result = .error crash → r.tick.call = none) := by
  intro start r
  exact ⟨Runner.shownAfter_calls rfl n, start.length_calls_succ_le n, r.present_iff, r.clear_iff,
    fun _ => Runner.call_of_error⟩

/-- A program that draws the first glyph, with a key pressed in the tick that does so, clears the
screen, and returns from nowhere: the display is handed the glyph, told to clear, and not told
anything of the crash. -/
theorem display_is_current_at_draw_and_clear :
    let rom : Rom := ⟨"SHOW", [0xD0, 0x05, 0x00, 0xE0, 0x00, 0xEE], by decide⟩
    let start : Runner := ⟨.boot rom {} (.cycling #[]), ⟨[[0x5]], 0⟩⟩
    let glyph := (Framebuffer.blank.draw 0 0 (Font.glyph 0)).screen
    start.calls 3 = [.present glyph, .clear] ∧ glyph.lit 0 0 = true ∧
      (∃ crash, (start.after 2).tick.result = .error crash ∧ crash.fault = .stack .empty) ∧
      (start.after 1).machine.screen = glyph ∧ (start.after 3).machine.screen = .blank := by
  intro rom start glyph
  have hcurrent := display_is_current rom {} (.cycling #[]) ⟨[[0x5]], 0⟩
  obtain ⟨r, hr⟩ : ∃ r, r = start := ⟨_, rfl⟩
  rw [show (⟨.boot rom {} (.cycling #[]), ⟨[[0x5]], 0⟩⟩ : Runner) = r from hr.symm] at hcurrent
  rw [← hr]
  -- what the three ticks execute, as the text of the program tells
  obtain ⟨hdraws, hclears, ⟨hcounter, hword⟩, hempty⟩ :
      (r.after 0).polled.executed? = some (.draw .first .first 5) ∧
        (r.after 1).polled.executed? = some .clear ∧
        ((r.after 2).polled.counter ≤ 0xFFE ∧ (r.after 2).polled.nextWord = 0x00EE) ∧
        (r.after 2).polled.stack.depth = 0 := by
    simp only [Runner.polled_after, hr, start]
    have hprogram : (Machine.boot rom {} (.cycling #[])).HoldsProgram rom :=
      Machine.holdsProgram_of_image rfl
    clear hcurrent hr
    subst rom
    refine ⟨Machine.executed?_of_readRun hprogram rfl rfl,
      Machine.executed?_of_readRun hprogram rfl rfl,
      Machine.nextWord_of_readRun hprogram rfl rfl, ?_⟩
    rw [Machine.actAll_of_readRun hprogram rfl]
    rfl
  have hglyph : (r.after 1).machine.screen = glyph := by
    rw [r.machine_succ 0]
    exact (Machine.draws_first_glyph (by rw [hr]; rfl) (by rw [hr]; rfl) (by rw [hr]; rfl)
      (by rw [hr]; rfl) hdraws).2
  have hlit : glyph.lit 0 0 = true := Framebuffer.lit_first_glyph
  have hblank : r.machine.screen = .blank := by rw [hr]; rfl
  obtain ⟨crash, hcrash, hfault⟩ :=
    Machine.error_iff_fails.mpr (.ret hcounter (by rw [hword]; rfl) hempty)
  have hpresents : (r.after 0).tick.call = some (.present glyph) := by
    refine ((hcurrent 0).2.2.1 glyph).mpr ⟨⟨_, _, _, hdraws⟩, ⟨0, 0, ?_⟩, hglyph.symm⟩
    show (r.after 1).machine.screen.lit 0 0 ≠ r.machine.screen.lit 0 0
    rw [hglyph, hlit, hblank, Framebuffer.lit_blank]
    decide
  have htells : (r.after 1).tick.call = some .clear := (hcurrent 1).2.2.2.1.mpr hclears
  have hsilent : (r.after 2).tick.call = none := (hcurrent 2).2.2.2.2 crash hcrash
  have hcalls : r.calls 3 = [.present glyph, .clear] := by
    simp only [Runner.calls, hpresents, htells, hsilent]
    rfl
  have hshown : (r.after 3).machine.screen = DisplayCall.shownAfter (r.calls 3) :=
    (hcurrent 3).1.symm
  exact ⟨hcalls, hlit, ⟨crash, hcrash, hfault⟩, hglyph, by rw [hshown, hcalls]; rfl⟩

end ChipEight
