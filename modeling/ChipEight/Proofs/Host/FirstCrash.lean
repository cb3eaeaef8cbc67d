import Mathlib.Data.ENat.Lattice
import Mathlib.Tactic
import ChipEight.Host.Session
import ChipEight.Proofs.Host.Display

/-!
A session ends with the first crash of its runner.

A worker invokes a session as often as it likes, also after a crash. A plain runner would go on
ticking then: it polls, presses keys and may even draw. A session does not.

* `Runner.firstCrash`: the number of the first tick that crashes. `lt_firstCrash_iff` and
  `exists_crash_of_le` say what it means to be before it and behind it.
* `Session.Follows`: a session has done what the first ticks of a runner do, and no more.
  `follows_invoke` is one invocation, `follows_invokes` all of them up to the first crash.
* `invokes_of_crashed`: a session that has crashed stays exactly as it is. `Session.CutOff`,
  `cutOff_invokes`: so every number of invocations is cut off at the first crash.
* `session_stops_at_first_crash`: all of it, for every number of invocations.
-/

namespace ChipEight

/-! ### The first crash of a runner -/

namespace Runner

/-- Whether a runner crashes in the tick after so many others. -/
def Crashes (r : Runner) (n : ℕ) : Prop := ∃ crash, (r.after n).tick.result = .error crash

/-- The number of the first tick that crashes, counting from one; `⊤` if none does. -/
noncomputable def firstCrash (r : Runner) : ℕ∞ := sInf {k | ∃ n : ℕ, r.Crashes n ∧ k = n + 1}

variable {r : Runner} {n : ℕ}

lemma firstCrash_le (h : r.Crashes n) : r.firstCrash ≤ n + 1 := sInf_le ⟨n, h, rfl⟩

/-- Behind the first crash there is a tick that crashed, and none before it did. -/
lemma exists_crash_of_le (h : r.firstCrash ≤ n) :
    ∃ j : ℕ, r.firstCrash = j + 1 ∧ j < n ∧ r.Crashes j ∧ ∀ i < j, ¬ r.Crashes i := by
  have hnonempty : {k : ℕ∞ | ∃ n : ℕ, r.Crashes n ∧ k = n + 1}.Nonempty := by
    by_contra hempty
    rw [Set.not_nonempty_iff_eq_empty] at hempty
    rw [firstCrash, hempty, sInf_empty] at h
    exact absurd h (not_le.mpr (ENat.natCast_lt_top n))
  obtain ⟨j, hcrashes, hfirst⟩ := csInf_mem hnonempty
  change r.firstCrash = j + 1 at hfirst
  refine ⟨j, hfirst, ?_, hcrashes, fun i hi hbefore => ?_⟩
  · rw [hfirst] at h
    exact_mod_cast h
  · have hle := firstCrash_le hbefore
    rw [hfirst] at hle
    have : j + 1 ≤ i + 1 := by exact_mod_cast hle
    omega

/-- Before the first crash no tick crashes. -/
lemma not_crashes_of_lt (h : n < r.firstCrash) : ∀ j < n, ¬ r.Crashes j := by
  intro j hj hcrashes
  have hle : r.firstCrash ≤ n := (firstCrash_le hcrashes).trans (by exact_mod_cast hj)
  exact absurd h (not_lt.mpr hle)

/-- Every tick polls the keyboard once, whether it crashes or not. -/
lemma polls_after (r : Runner) (n : ℕ) :
    (r.after n).keyboard.polls = r.keyboard.polls + n := by
  induction n with
  | zero => rfl
  | succ n ih =>
      show (r.after n).keyboard.polls + 1 = _
      rw [ih, Nat.add_assoc]

end Runner

/-! ### Invocations -/

namespace Session

/-- The session has done what a runner does in its first ticks. -/
structure Follows (s : Session) (start : Runner) (ticks : ℕ) : Prop where
  /-- It stands where the runner does. -/
  runner : s.runner = start.after ticks
  /-- It has told its display what the runner tells its own. -/
  calls : s.calls.reverse = start.calls ticks

variable {s : Session} {start : Runner} {crash : Crash} {n : ℕ}

lemma invokes_add (s : Session) (front rest : ℕ) :
    s.invokes (front + rest) = (s.invokes front).invokes rest := by
  induction front generalizing s with
  | zero => rw [Nat.zero_add, invokes]
  | succ front ih => rw [Nat.succ_add, invokes, ih, invokes]

lemma invokes_succ (s : Session) (n : ℕ) : s.invokes (n + 1) = (s.invokes n).invoke :=
  s.invokes_add n 1

/-- Nothing happens to a session that has crashed. -/
lemma invokes_of_crashed (h : s.crash = some crash) (n : ℕ) : s.invokes n = s := by
  induction n with
  | zero => rfl
  | succ n ih => rw [invokes_succ, ih, invoke, h]

lemma calls_record (s : Session) (tick : Tick) :
    (s.record tick).calls.reverse = s.calls.reverse ++ tick.call.toList := by
  rw [record, List.reverse_append]
  cases tick.call <;> rfl

/-- An invocation of a session that has not crashed is one more tick. -/
lemma follows_invoke (h : s.Follows start n) (hcrash : s.crash = none) :
    s.invoke.Follows start (n + 1) := by
  have hinvoke : s.invoke = s.record (start.after n).tick := by rw [invoke, hcrash, h.runner]
  rw [hinvoke]
  exact ⟨rfl, by rw [calls_record, h.calls, Runner.calls]⟩

/-- What an invocation keeps is the crash of its tick. -/
lemma crash_invoke (h : s.Follows start n) (hcrash : s.crash = none) :
    s.invoke.crash = some crash ↔ (start.after n).tick.result = .error crash := by
  have hinvoke : s.invoke = s.record (start.after n).tick := by rw [invoke, hcrash, h.runner]
  rw [hinvoke, record]
  cases (start.after n).tick.result <;> simp

/-- As long as no tick crashes a session does what the runner does. -/
lemma follows_invokes (h : s.Follows start 0) (hcrash : s.crash = none)
    (hticks : ∀ j < n, ¬ start.Crashes j) :
    (s.invokes n).Follows start n ∧ (s.invokes n).crash = none := by
  induction n with
  | zero => exact ⟨h, hcrash⟩
  | succ n ih =>
      obtain ⟨hfollows, hnone⟩ := ih fun j hj => hticks j (by omega)
      rw [invokes_succ]
      refine ⟨follows_invoke hfollows hnone, Option.eq_none_iff_forall_ne_some.mpr ?_⟩
      intro crash hsome
      exact hticks n (by omega) ⟨crash, (crash_invoke hfollows hnone).mp hsome⟩

/-- The session has done what a runner does in so many ticks, or up to its first crash, and holds
this crash. -/
structure CutOff (s : Session) (start : Runner) (n : ℕ) : Prop where
  /-- It has followed the runner up to the first crash. -/
  follows : ∃ ticks : ℕ, ticks = min (n : ℕ∞) start.firstCrash ∧ s.Follows start ticks
  /-- It holds no crash before. -/
  running : n < start.firstCrash → s.crash = none
  /-- It holds the crash of that tick behind. -/
  crashed : start.firstCrash ≤ n → ∃ j : ℕ, start.firstCrash = j + 1 ∧
    ∃ crash, (start.after j).tick.result = .error crash ∧ s.crash = some crash

/-- A session that was invoked once more has polled at most once more. -/
lemma CutOff.polls_le {later : Session} {count : ℕ} (h : s.CutOff start n)
    (hlater : later.CutOff start count) (hcount : count ≤ n + 1) :
    later.runner.keyboard.polls ≤ s.runner.keyboard.polls + 1 := by
  obtain ⟨ticks, hticks, hfollows⟩ := h.follows
  obtain ⟨more, hmore, hthen⟩ := hlater.follows
  have hle : (more : ℕ∞) ≤ ticks + 1 := by
    calc (more : ℕ∞) = min (count : ℕ∞) start.firstCrash := hmore
      _ ≤ min (n + 1 : ℕ∞) (start.firstCrash + 1) :=
          min_le_min (by exact_mod_cast hcount) le_self_add
      _ = ticks + 1 := by rw [min_add_add_right, ← hticks]
  have hnat : more ≤ ticks + 1 := by exact_mod_cast hle
  rw [hfollows.runner, hthen.runner, start.polls_after, start.polls_after]
  omega

/-- Any number of invocations takes a session as far as the first crash. -/
theorem cutOff_invokes (h : s.Follows start 0) (hcrash : s.crash = none) (n : ℕ) :
    (s.invokes n).CutOff start n := by
  rcases lt_or_ge (n : ℕ∞) start.firstCrash with hlt | hge
  · obtain ⟨hfollows, hnone⟩ := follows_invokes h hcrash (Runner.not_crashes_of_lt hlt)
    exact ⟨⟨n, (min_eq_left hlt.le).symm, hfollows⟩, fun _ => hnone,
      fun hle => absurd hlt (not_lt.mpr hle)⟩
  · obtain ⟨j, hj, hlt, ⟨crash, hresult⟩, hbefore⟩ := Runner.exists_crash_of_le hge
    obtain ⟨hfollows, hnone⟩ := follows_invokes h hcrash hbefore
    -- the invocation that crashes is the last one that does anything
    have hkept := (crash_invoke hfollows hnone).mpr hresult
    have hlast := follows_invoke hfollows hnone
    rw [← invokes_succ] at hkept hlast
    obtain ⟨rest, rfl⟩ := Nat.exists_eq_add_of_le (Nat.succ_le_of_lt hlt)
    rw [invokes_add, invokes_of_crashed hkept rest]
    refine ⟨⟨j + 1, ?_, hlast⟩, fun hbelow => absurd hbelow (not_lt.mpr hge),
      fun _ => ⟨j, hj, crash, hresult, hkept⟩⟩
    rw [min_eq_right hge, hj, Nat.cast_add, Nat.cast_one]

end Session

/-- A session stops at the first crash and keeps it. With `k` the number of the first tick that
crashes on a plain runner, a session that was invoked `n` times has polled the keyboard `min n k`
times, has made the display calls of so many ticks, and has the machine and the keyboard that the
runner has after them. It holds no crash before tick `k` and the crash of tick `k` from then on,
whatever comes: further invocations, a stop, or invocations after a stop. -/
theorem session_stops_at_first_crash (rom : Rom) (config : Config) (random : RandomSource)
    (answers : List (List UInt8)) (n : ℕ) :
    let start : Runner := ⟨.boot rom config random, ⟨answers, 0⟩⟩
    let k := start.firstCrash
    let s := (Session.launch rom config ⟨answers, 0⟩ random).invokes n
    (∃ ticks : ℕ, ticks = min (n : ℕ∞) k ∧
      s.runner.keyboard.polls = ticks ∧
      s.calls.reverse = start.calls ticks ∧
      s.runner = start.after ticks) ∧
    (n < k → s.crash = none) ∧
    (k ≤ n → ∃ j : ℕ, k = j + 1 ∧
      ∃ crash, (start.after j).tick.result = .error crash ∧ s.crash = some crash) ∧
    s.stop.crash = s.crash ∧
    ∀ crash, s.crash = some crash →
      ∀ later, (s.invokes later).crash = some crash ∧
        (s.stop.invokes later).crash = some crash := by
  intro start k s
  have hcut : s.CutOff start n := Session.cutOff_invokes ⟨rfl, rfl⟩ rfl n
  obtain ⟨ticks, hticks, hfollows⟩ := hcut.follows
  have hpolls : s.runner.keyboard.polls = ticks := by
    rw [hfollows.runner, start.polls_after]
    exact Nat.zero_add ticks
  refine ⟨⟨ticks, hticks, hpolls, hfollows.calls, hfollows.runner⟩, hcut.running, hcut.crashed, rfl,
    fun crash hcrash later => ?_⟩
  have hstopped : s.stop.crash = some crash := hcrash
  rw [Session.invokes_of_crashed hcrash, Session.invokes_of_crashed hstopped]
  exact ⟨hcrash, hstopped⟩

/-- A program that draws the first glyph, with a key pressed, and then returns from nowhere. After
one invocation the session has shown the glyph and goes on, and after three it has polled for the
two ticks up to the crash only, and keeps the crash. -/
theorem session_stops_at_first_crash_after_drawing :
    let rom : Rom := ⟨"GLYPH", [0xD0, 0x05, 0x00, 0xEE], by decide⟩
    let start : Runner := ⟨.boot rom {} (.cycling #[]), ⟨[[0x5]], 0⟩⟩
    let glyph := (Framebuffer.blank.draw 0 0 (Font.glyph 0)).screen
    let s := fun n => (Session.launch rom {} ⟨[[0x5]], 0⟩ (.cycling #[])).invokes n
    start.firstCrash = 2 ∧
      ((s 1).runner.keyboard.polls = 1 ∧ (s 1).calls.reverse = [.present glyph] ∧
        (s 1).crash = none) ∧
      (s 3).runner.keyboard.polls = 2 ∧ (s 3).calls.reverse = [.present glyph] ∧
      ∃ crash, (start.after 1).tick.result = .error crash ∧ crash.fault = .stack .empty ∧
        (s 3).crash = some crash ∧ ((s 3).stop.invokes 2).crash = some crash := by
  intro rom start glyph s
  have hstops := session_stops_at_first_crash rom {} (.cycling #[]) [[0x5]]
  obtain ⟨r, hr⟩ : ∃ r, r = start := ⟨_, rfl⟩
  rw [show (⟨.boot rom {} (.cycling #[]), ⟨[[0x5]], 0⟩⟩ : Runner) = r from hr.symm] at hstops
  rw [← hr]
  -- what the two ticks execute, as the text of the program tells
  obtain ⟨hdraws, ⟨hcounter, hword⟩, hempty⟩ :
      (r.after 0).polled.executed? = some (.draw .first .first 5) ∧
        ((r.after 1).polled.counter ≤ 0xFFE ∧ (r.after 1).polled.nextWord = 0x00EE) ∧
        (r.after 1).polled.stack.depth = 0 := by
    simp only [Runner.polled_after, hr, start]
    have hprogram : (Machine.boot rom {} (.cycling #[])).HoldsProgram rom :=
      Machine.holdsProgram_of_image rfl
    clear hstops hr
    subst s rom
    refine ⟨Machine.executed?_of_readRun hprogram rfl rfl,
      Machine.nextWord_of_readRun hprogram rfl rfl, ?_⟩
    rw [Machine.actAll_of_readRun hprogram rfl]
    rfl
  obtain ⟨crash, hcrash, hfault⟩ :=
    Machine.error_iff_fails.mpr (.ret hcounter (by rw [hword]; rfl) hempty)
  rw [← Runner.result_tick] at hcrash
  have hpresents : (r.after 0).tick.call = some (.present glyph) := by
    obtain ⟨hresult, hscreen⟩ := Machine.draws_first_glyph (by rw [hr]; rfl) (by rw [hr]; rfl)
      (by rw [hr]; rfl) (by rw [hr]; rfl) hdraws
    show DisplayCall.of? (r.after 0).polled.cycle.result (r.after 0).polled.cycle.machine.screen = _
    rw [hresult, hscreen]
    rfl
  have hcalls : r.calls 1 = [.present glyph] ∧ r.calls 2 = [.present glyph] := by
    simp only [Runner.calls, hpresents, Runner.call_of_error hcrash]
    exact ⟨rfl, rfl⟩
  have hfirst : r.firstCrash = 2 := by
    obtain ⟨j, hj, hlt, ⟨other, hother⟩, -⟩ :=
      Runner.exists_crash_of_le (n := 2) (Runner.firstCrash_le (n := 1) ⟨crash, hcrash⟩)
    have hone : j ≠ 0 := by
      rintro rfl
      rw [Runner.result_tick, Machine.result_of_executed hdraws] at hother
      cases hother
    obtain rfl : j = 1 := by omega
    exact hj
  obtain ⟨⟨one, hone, hpolls, hshows, -⟩, hruns, -⟩ := hstops 1
  obtain ⟨⟨two, htwo, hpolls', hshows', -⟩, -, hcrashed, -, hkept⟩ := hstops 3
  rw [hfirst] at hone htwo hruns hcrashed
  obtain rfl : one = 1 := by exact_mod_cast hone.trans (min_eq_left (by decide))
  obtain rfl : two = 2 := by exact_mod_cast htwo.trans (min_eq_right (by decide))
  obtain ⟨j, hj, other, hother, hholds⟩ := hcrashed (by decide)
  obtain rfl : j = 1 := by
    have : (2 : ℕ) = j + 1 := by exact_mod_cast hj
    omega
  obtain rfl : crash = other := Except.error.inj (hcrash.symm.trans hother)
  simp only [s]
  exact ⟨hfirst, ⟨hpolls, hshows.trans hcalls.1, hruns (by decide)⟩, hpolls',
    hshows'.trans hcalls.2, crash, hcrash, hfault, hholds, (hkept crash hholds 2).2⟩

end ChipEight
