import Mathlib.Tactic
import ChipEight.Host.Handle
import ChipEight.Proofs.Host.FirstCrash
import ChipEight.Proofs.Host.Lifecycle

/-!
A session driven by the worker that was started for it.

What the worker does is a matter of steps that come in any order, and what the session does is a
matter of how often it was invoked. The calls that the one thread has begun are the link.

* `Session.SameRun`: two sessions that have come equally far, whatever their workers were told.
* `Handle.follow?`, `worker_follow?`: a handle after some steps, which are steps of its worker.
  `crash_step?`, `crash_follow?`: a crash is for good.
* `Handle.Driven`: the worker has spawned one thread and will spawn no other, and the session was
  invoked as often as this thread was called. `driven_launch`, `Driven.of_step`,
  `Driven.of_follow?`: every handle is like that.
* `handle_runs_to_first_crash`: so a session gets as far as its first crash, and at most one tick
  further once it is being stopped.
-/

namespace ChipEight

/-! ### Sessions that have come equally far -/

namespace Session

/-- Two sessions with the same runner, the same crash and the same calls to their displays. -/
structure SameRun (s t : Session) : Prop where
  /-- They have the same runner. -/
  runner : s.runner = t.runner
  /-- They hold the same crash. -/
  crash : s.crash = t.crash
  /-- They have told their displays the same. -/
  calls : s.calls = t.calls

variable {s t u : Session}

lemma SameRun.refl (s : Session) : s.SameRun s := ⟨rfl, rfl, rfl⟩

lemma SameRun.trans (h : s.SameRun t) (h' : t.SameRun u) : s.SameRun u :=
  ⟨h.runner.trans h'.runner, h.crash.trans h'.crash, h.calls.trans h'.calls⟩

lemma SameRun.symm (h : s.SameRun t) : t.SameRun s := ⟨h.runner.symm, h.crash.symm, h.calls.symm⟩

lemma SameRun.invoke (h : s.SameRun t) : s.invoke.SameRun t.invoke := by
  rw [Session.invoke, Session.invoke, h.crash]
  cases t.crash with
  | some crash => exact h
  | none =>
      rw [h.runner]
      exact ⟨rfl, rfl, congrArg (_ ++ ·) h.calls⟩

lemma SameRun.stop (h : s.SameRun t) : s.stop.SameRun t := ⟨h.runner, h.crash, h.calls⟩

lemma SameRun.cutOff {start : Runner} {n : ℕ} (h : s.SameRun t) (ht : t.CutOff start n) :
    s.CutOff start n := by
  obtain ⟨⟨ticks, hticks, hfollows⟩, hrunning, hcrashed⟩ := ht
  rw [← h.crash] at hrunning hcrashed
  refine ⟨⟨ticks, hticks, h.runner.trans hfollows.runner, ?_⟩, hrunning, hcrashed⟩
  rw [h.calls]
  exact hfollows.calls

lemma isAlive_invoke (s : Session) : s.invoke.isAlive = s.isAlive := by
  rw [Session.invoke]
  split <;> rfl

end Session

/-- Whether an owner is going to spawn a thread after the stop it is in. -/
def Sequel.spawns : Sequel → Bool
  | .spawn _ => true
  | _ => false

/-- Whether an owner is going to spawn a thread. -/
def Owner.spawns : Owner → Bool
  | .sending sequel => sequel.spawns
  | .leaving sequel => sequel.spawns
  | .joining sequel => sequel.spawns
  | .spawning _ => true
  | _ => false

namespace Handle

/-! ### Steps of handles -/

/-- The handle after some steps, one after another; `none` if one of them is not possible. -/
def follow? (h : Handle) (steps : List Step) : Option Handle := steps.foldlM step? h

@[simp] lemma follow?_cons (h : Handle) (step : Step) (rest : List Step) :
    h.follow? (step :: rest) = (h.step? step).bind fun next => next.follow? rest := rfl

variable {h next : Handle} {step : Step} {first : Session}

lemma step?_eq_some (hstep : h.step? step = some next) :
    step.isDriving = true ∧ h.worker.step? step = some next.worker ∧
      next.session = h.sessionAfter step := by
  obtain ⟨hdriving, hmap⟩ := Option.ite_none_right_eq_some.mp hstep
  obtain ⟨worker, hworker, rfl⟩ := Option.map_eq_some_iff.mp hmap
  exact ⟨hdriving, hworker, rfl⟩

/-- The steps of a handle are steps of its worker. -/
lemma worker_follow? {steps : List Step} (hrun : h.follow? steps = some next) :
    h.worker.follow? steps = some next.worker := by
  induction steps generalizing h with
  | nil => cases hrun; rfl
  | cons step rest ih =>
      rw [follow?_cons, Option.bind_eq_some_iff] at hrun
      obtain ⟨u, hstep, hrest⟩ := hrun
      rw [Worker.follow?_cons, (step?_eq_some hstep).2.1]
      exact ih hrest

/-- A handle keeps the crash that it holds. -/
lemma crash_step? {crash : Crash} (hstep : h.step? step = some next)
    (hcrash : h.crash = some crash) : next.crash = some crash := by
  rw [Handle.crash, (step?_eq_some hstep).2.2]
  change h.session.crash = some crash at hcrash
  cases step with
  | call place =>
      show h.session.invoke.crash = some crash
      rw [Session.invoke, hcrash]
      exact hcrash
  | join =>
      rw [sessionAfter]
      split <;> exact hcrash
  | _ => exact hcrash

lemma crash_follow? {crash : Crash} {steps : List Step} (hrun : h.follow? steps = some next)
    (hcrash : h.crash = some crash) : next.crash = some crash :=
  preserved_of_foldlM (fun _ _ _ hkept hstep => crash_step? hstep hkept) hrun hcrash

/-! ### Invocations and calls -/

/-- What holds of a handle between any two steps. -/
structure Driven (h : Handle) (first : Session) : Prop where
  /-- The worker is in order. -/
  valid : h.worker.Valid
  /-- Its references are counted. -/
  counted : h.worker.Counted
  /-- It will spawn no thread. -/
  settled : h.worker.owner.spawns = false
  /-- It has one, whose calls are the invocations of the session, and which is live as long as its
  owner holds it and is not stopping it. -/
  thread : ∃ t, h.worker.threads = [t] ∧ h.session.SameRun (first.invokes t.calls) ∧
    (h.worker.held = true → h.worker.owner.isStopping = false → t.isLive = true)
  /-- The session was not stopped as long as the owner holds the thread. -/
  commands : h.worker.owner ≠ .gone → h.session.isAlive = h.worker.held

/-- A handle starts like that. -/
lemma driven_launch (rom : Rom) (config : Config) (keyboard : Keyboard) (random : RandomSource) :
    (launch rom config keyboard random).Driven (.launch rom config keyboard random) := by
  have hstarts : Worker.new.follow? (Worker.new.starting config.interval) =
      some (launch rom config keyboard random).worker := rfl
  exact
    { valid := Worker.valid_new.of_follow? hstarts
      counted := Worker.counted_follow? hstarts
      settled := rfl
      thread := ⟨_, rfl, .refl _, fun _ _ => rfl⟩
      commands := fun _ => rfl }

/-- What the owner says to its only thread leaves the calls as they are. -/
lemma mapCurrent_of_singleton {w : Worker} {t : Thread} (hthreads : w.threads = [t])
    {change : Thread → Thread} (hcalls : ∀ t, (change t).calls = t.calls) :
    (w.mapCurrent change).held = w.held ∧
      ∃ t', (w.mapCurrent change).threads = [t'] ∧ t'.calls = t.calls := by
  rcases w.mapCurrent_cases change with ⟨-, hsame⟩ | ⟨s, rest, -, hcons, hchanged⟩
  · rw [hsame]
    exact ⟨rfl, t, hthreads, rfl⟩
  · obtain ⟨rfl, rfl⟩ := List.cons.inj (hthreads.symm.trans hcons)
    rw [hchanged]
    exact ⟨rfl, change t, rfl, hcalls t⟩

/-- An owner that begins to stop its thread changes nothing about it. -/
lemma Driven.of_begin (hd : h.Driven first) {sequel : Sequel} (howner : h.worker.owner = .idle)
    (hsettled : sequel.spawns = false)
    (hvalid : Worker.Valid { h.worker with owner := .sending sequel })
    (hcounted : Worker.Counted { h.worker with owner := .sending sequel }) :
    Driven ⟨{ h.worker with owner := .sending sequel }, h.session⟩ first := by
  obtain ⟨t, hthreads, hsame, hlive⟩ := hd.thread
  rw [howner] at hlive
  have hthere : h.worker.owner ≠ .gone := by
    rw [howner]
    exact Owner.noConfusion
  exact ⟨hvalid, hcounted, hsettled, ⟨t, hthreads, hsame, hlive⟩, fun _ => hd.commands hthere⟩

/-- Nor does an owner that tells its thread to end, as far as calls go. -/
lemma Driven.of_told (hd : h.Driven first) {change : Thread → Thread} {owner : Owner}
    (hcalls : ∀ t, (change t).calls = t.calls) (hthere : h.worker.owner ≠ .gone)
    (hsettled : owner.spawns = false) (hstopping : owner.isStopping = true)
    (hvalid : Worker.Valid { h.worker.mapCurrent change with owner := owner })
    (hcounted : Worker.Counted { h.worker.mapCurrent change with owner := owner }) :
    Driven ⟨{ h.worker.mapCurrent change with owner := owner }, h.session⟩ first := by
  obtain ⟨t, hthreads, hsame, -⟩ := hd.thread
  obtain ⟨hheld, t', ht', hkept⟩ := mapCurrent_of_singleton hthreads hcalls
  rw [← hkept] at hsame
  refine ⟨hvalid, hcounted, hsettled, ⟨t', ht', hsame, fun _ hnot => ?_⟩, fun _ => ?_⟩
  · change owner.isStopping = false at hnot
    rw [hstopping] at hnot
    cases hnot
  · exact (hd.commands hthere).trans hheld.symm

/-- A call of the thread is an invocation, and a thread that leaves its loop was told to. -/
lemma Driven.of_move (hd : h.Driven first) {place : ℕ} {t t' : Thread} {worker : Worker}
    (hworker : h.worker.step? step = some worker) (hdriving : step.isDriving = true)
    (hthread : h.worker.threads[place]? = some t) (hmove : t.Move place step t')
    (hnext : worker = { h.worker with
      threads := h.worker.threads.set place t'
      references := h.worker.references - step.released }) :
    Driven ⟨worker, h.sessionAfter step⟩ first := by
  have hvalid := hd.valid.of_step hworker
  have hcounted := hd.counted.of_step hd.valid hworker
  obtain ⟨s, hthreads, hsame, hlive⟩ := hd.thread
  obtain ⟨rfl, -, rest, hcons⟩ := hd.valid.eq_cons_of_isLive hthread hmove.isLive
  obtain ⟨rfl, rfl⟩ := List.cons.inj (hthreads.symm.trans hcons)
  have hafter : worker.threads = [t'] := by rw [hnext, hthreads]; rfl
  have howner : worker.owner = h.worker.owner := by rw [hnext]
  have hheld : worker.held = h.worker.held := by rw [hnext]
  refine ⟨hvalid, hcounted, howner ▸ hd.settled, ⟨t', hafter, ?_, ?_⟩, ?_⟩
  · cases hmove with
    | call hphase =>
        rw [first.invokes_succ]
        exact hsame.invoke
    | _ => exact hsame
  · intro _ hnot
    rw [howner] at hnot
    cases hmove with
    | panic hphase => cases hdriving
    | quit hphase htold =>
        rw [hd.valid.isStopping_of_quit hworker] at hnot
        cases hnot
    | _ => rfl
  · rw [howner, hheld]
    intro hthere
    cases hmove with
    | call hphase => exact h.session.isAlive_invoke.trans (hd.commands hthere)
    | _ => exact hd.commands hthere

/-- Every step keeps it. -/
theorem Driven.of_step (hd : h.Driven first) (hstep : h.step? step = some next) :
    next.Driven first := by
  obtain ⟨hdriving, hworker, hsession⟩ := step?_eq_some hstep
  have hvalid := hd.valid.of_step hworker
  have hcounted := hd.counted.of_step hd.valid hworker
  have hsettled := hd.settled
  obtain ⟨worker, session⟩ := next
  obtain rfl : session = h.sessionAfter step := hsession
  cases Worker.stepCases hworker with
  | begins _ sequel hbegins howner =>
      cases step with
      | start interval => cases hdriving
      | stop => cases hbegins; exact hd.of_begin howner rfl hvalid hcounted
      | drop => cases hbegins; exact hd.of_begin howner rfl hvalid hcounted
      | _ => cases hbegins
  | sends sequel howner =>
      rw [howner] at hsettled
      refine hd.of_told (fun t => ?_) (by rw [howner]; exact Owner.noConfusion) hsettled rfl hvalid
        hcounted
      rw [Thread.notify]
      split <;> rfl
  | leaves sequel howner =>
      rw [howner] at hsettled
      exact hd.of_told (fun _ => rfl) (by rw [howner]; exact Owner.noConfusion) hsettled rfl hvalid
        hcounted
  | joins sequel howner hover =>
      rw [howner] at hsettled
      obtain ⟨t, hthreads, hsame, -⟩ := hd.thread
      cases sequel with
      | spawn interval => cases hsettled
      | rest =>
          have hstops : h.sessionAfter .join = h.session.stop := if_pos howner
          rw [hstops]
          exact ⟨hvalid, hcounted, rfl, ⟨t, hthreads, hsame.stop, fun hheld => by cases hheld⟩,
            fun _ => rfl⟩
      | vanish =>
          have hstays : h.sessionAfter .join = h.session :=
            if_neg (by rw [howner]; intro hrest; cases hrest)
          rw [hstays]
          exact ⟨hvalid, hcounted, rfl, ⟨t, hthreads, hsame, fun hheld => by cases hheld⟩,
            fun hgone => absurd rfl hgone⟩
  | spawns interval howner =>
      rw [howner] at hsettled
      cases hsettled
  | moves _ place t t' hthread hmove => exact hd.of_move hworker hdriving hthread hmove rfl

theorem Driven.of_follow? (hd : h.Driven first) {steps : List Step}
    (hrun : h.follow? steps = some next) : next.Driven first :=
  preserved_of_foldlM (fun _ _ _ => of_step) hrun hd

/-- While its owner is free to act, a handle and its session agree on whether the worker runs. -/
lemma Driven.isAlive_eq (hd : h.Driven first) (howner : h.worker.owner = .idle) :
    h.isAlive = h.session.isAlive := by
  obtain ⟨t, hthreads, -, hlive⟩ := hd.thread
  rw [isAlive, Worker.isAlive_eq hd.valid hd.counted,
    hd.commands (by rw [howner]; exact Owner.noConfusion)]
  cases hheld : h.worker.held with
  | false => rw [Worker.live_eq_zero (hd.valid.unheld hheld)]; rfl
  | true =>
      have hone : h.worker.live = 1 := by
        rw [Worker.live_of_cons hthreads (fun s hs => by cases hs),
          if_pos (hlive hheld (by rw [howner]; rfl))]
      rw [hone]
      rfl

/-- The one thread of a handle is the first that was spawned. -/
lemma Driven.exists_spawned (hd : h.Driven first) :
    ∃ t, h.worker.spawned? 0 = some t ∧ h.session.SameRun (first.invokes t.calls) := by
  obtain ⟨t, hthreads, hsame, -⟩ := hd.thread
  refine ⟨t, ?_, hsame⟩
  rw [Worker.spawned?, hthreads]
  rfl

/-- Once the owner has told the thread to end, the session polls at most once more. -/
lemma Driven.polls_le_of_told {start : Runner} (hd : h.Driven first)
    (hfirst : ∀ n, (first.invokes n).CutOff start n) (htells : step = .send ∨ step = .leave)
    (hstep : h.step? step = some next) {rest : List Step} {last : Handle}
    (hrest : next.follow? rest = some last) :
    last.session.runner.keyboard.polls ≤ next.session.runner.keyboard.polls + 1 := by
  have hnext := hd.of_step hstep
  obtain ⟨t, ht, hsame⟩ := hnext.exists_spawned
  obtain ⟨s, hs, hsame'⟩ := (hnext.of_follow? hrest).exists_spawned
  obtain ⟨t', ht', hcalls⟩ := hd.valid.calls_le_of_told htells (step?_eq_some hstep).2.1
    (worker_follow? hrest) ht
  cases hs.symm.trans ht'
  exact (hsame.cutOff (hfirst t.calls)).polls_le (hsame'.cutOff (hfirst s.calls)) hcalls

/-- Once the owner has joined the thread, nothing happens to the session any more. -/
lemma Driven.sameRun_of_joined (hd : h.Driven first) (hstep : h.step? .join = some next)
    {rest : List Step} {last : Handle} (hrest : next.follow? rest = some last) :
    last.session.SameRun next.session := by
  have hnext := hd.of_step hstep
  obtain ⟨t, ht, hsame⟩ := hnext.exists_spawned
  obtain ⟨s, hs, hsame'⟩ := (hnext.of_follow? hrest).exists_spawned
  obtain ⟨t', ht', -, hcalls⟩ := hd.valid.over_of_joined (step?_eq_some hstep).2.1
    (worker_follow? hrest) ht
  cases hs.symm.trans ht'
  rw [hcalls] at hsame'
  exact hsame'.trans hsame.symm

end Handle

/-- A running program gets as far as its first crash, or as its owner lets it, whatever the owner
and the thread do and in whatever order. The worker has one thread, and the session has done what
a plain runner does in as many ticks as the thread has begun calls, cut off at the first crash,
which it keeps whatever comes. While the owner is free to act, the worker is alive exactly if it
was not told to stop. Once the thread was told to end, by a message or by the loss of the other end
of the channel, there is at most one more tick, for a call that was due; and once it was joined
there is none. -/
theorem handle_runs_to_first_crash (rom : Rom) (config : Config) (random : RandomSource)
    (answers : List (List UInt8)) {steps : List Step} {h : Handle}
    (hrun : (Handle.launch rom config ⟨answers, 0⟩ random).follow? steps = some h) :
    let start : Runner := ⟨.boot rom config random, ⟨answers, 0⟩⟩
    (∃ t, h.worker.threads = [t] ∧ h.session.CutOff start t.calls) ∧
      (∀ crash, h.crash = some crash → ∀ rest last, h.follow? rest = some last →
        last.crash = some crash) ∧
      (h.worker.owner = .idle → h.isAlive = h.session.isAlive) ∧
      (∀ step next, step = .send ∨ step = .leave → h.step? step = some next →
        ∀ rest last, next.follow? rest = some last →
          last.session.runner.keyboard.polls ≤ next.session.runner.keyboard.polls + 1) ∧
      (∀ next, h.step? .join = some next → ∀ rest last, next.follow? rest = some last →
        last.session.SameRun next.session) := by
  intro start
  have hfirst : ∀ n, ((Session.launch rom config ⟨answers, 0⟩ random).invokes n).CutOff start n :=
    Session.cutOff_invokes ⟨rfl, rfl⟩ rfl
  have hd := (Handle.driven_launch rom config ⟨answers, 0⟩ random).of_follow? hrun
  obtain ⟨t, hthreads, hsame, -⟩ := hd.thread
  exact ⟨⟨t, hthreads, hsame.cutOff (hfirst t.calls)⟩,
    fun _ hcrash _ _ hrest => Handle.crash_follow? hrest hcrash, hd.isAlive_eq,
    fun _ _ htells hstep _ _ => hd.polls_le_of_told hfirst htells hstep,
    fun _ hstep _ _ => hd.sameRun_of_joined hstep⟩

/-- A call that is due when the owner begins to stop the thread is still made. -/
example (rom : Rom) (config : Config) (random : RandomSource) (answers : List (List UInt8)) :
    ∃ h, (Handle.launch rom config ⟨answers, 0⟩ random).follow?
        [.expire 0, .stop, .send, .leave, .call 0, .finish 0, .quit 0, .join] = some h ∧
      h.session.runner.keyboard.polls = 1 ∧ h.isAlive = false :=
  ⟨_, rfl, rfl, rfl⟩

end ChipEight
