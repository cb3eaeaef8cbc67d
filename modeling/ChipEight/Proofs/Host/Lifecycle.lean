import Mathlib.Tactic
import ChipEight.Host.Worker

/-!
The life of a worker, whatever the owner and the threads do and in whatever order.

* `Worker.follow?`: a worker after steps that were all possible; `run_of_follow?` ties it to
  `Worker.run`, which leaves out the steps that are not. `preserved_of_foldlM`: what each of them
  keeps, all of them keep.
* `Thread.Move`, `Worker.StepCases`: what a step of a thread and what a step of a worker can do.
* `Thread.isTold`, `Thread.budget`: whether a thread was told to end, and the calls it has begun
  or is about to begin. `Thread.Becomes`: from then on its budget does not grow, and once it is
  over nothing happens to it any more.
* `Worker.Valid`: only the thread that the owner holds can be live, and only an owner that is
  stopping it has told it to end. `Valid.of_step`, `Valid.of_follow?`: every worker is like that.
* `Worker.Counted`: there is one reference for each live thread and one for the owner.
  `Counted.of_step`, `counted_follow?`: every step keeps the count, so `isAlive_eq`: a worker is
  alive exactly if a thread is live.
* `isAlive_follow?`: a worker is alive from a spawn until its thread leaves its loop or panics.
* `calls_le_of_told`, `over_of_joined`: what becomes of a thread that was told to end, and of one
  that was joined. `stop_returns`: a stop can be brought to its end from every state.
* `worker_lifecycle`: all of it, for every interleaving.
-/

namespace ChipEight

/-! ### Threads -/

namespace Thread

/-- Whether a thread was told to end, by a message or by the loss of its owner. -/
def isTold (t : Thread) : Bool := t.notified || !t.connected

/-- The calls that a thread has begun, and the one that is due. -/
def budget (t : Thread) : ℕ := t.calls + if t.phase = .due then 1 else 0

/-- A step of the thread in a place, and the thread after it. -/
inductive Move (t : Thread) (place : ℕ) : Step → Thread → Prop where
  | expire (hphase : t.phase = .waiting) (htold : t.isTold = false) :
      Move t place (.expire place) { t with phase := .due }
  | call (hphase : t.phase = .due) :
      Move t place (.call place) { t with phase := .calling, calls := t.calls + 1 }
  | finish (hphase : t.phase = .calling) : Move t place (.finish place) { t with phase := .waiting }
  | panic (hphase : t.phase = .calling) : Move t place (.panic place) { t with phase := .panicked }
  | quit (hphase : t.phase = .waiting) (htold : t.isTold = true) :
      Move t place (.quit place) { t with phase := .ended }

variable {t t' : Thread} {place : ℕ} {step : Step}

/-- Only a live thread takes a step. -/
lemma Move.isLive (h : t.Move place step t') : t.isLive = true := by
  cases h <;> simp_all [Thread.isLive]

/-- A step of a thread does not tell it anything. -/
lemma Move.isTold_eq (h : t.Move place step t') : t'.isTold = t.isTold := by
  cases h <;> rfl

/-- What a thread can turn into while its worker takes steps: once it was told to end its budget
does not grow, and once it is over it stays so and is not called any more. -/
structure Becomes (t t' : Thread) : Prop where
  told : t.isTold = true → t'.isTold = true ∧ t'.budget ≤ t.budget
  finished : t.isLive = false → t'.isLive = false ∧ t'.calls = t.calls

lemma Becomes.refl (t : Thread) : t.Becomes t := ⟨fun h => ⟨h, le_rfl⟩, fun h => ⟨h, rfl⟩⟩

lemma Becomes.trans {t'' : Thread} (h : t.Becomes t') (h' : t'.Becomes t'') : t.Becomes t'' where
  told htold :=
    have hfirst := h.told htold
    have hthen := h'.told hfirst.1
    ⟨hthen.1, hthen.2.trans hfirst.2⟩
  finished hover :=
    have hfirst := h.finished hover
    have hthen := h'.finished hfirst.1
    ⟨hthen.1, hthen.2.trans hfirst.2⟩

/-- A call that was due is begun within the budget, and a thread that was told to end does not
wait for another one. -/
lemma Move.becomes (h : t.Move place step t') : t.Becomes t' where
  told htold := by
    refine ⟨h.isTold_eq.trans htold, ?_⟩
    cases h with
    | expire hphase huntold => rw [huntold] at htold; cases htold
    | call hphase => simp [budget, hphase]
    | finish hphase => simp [budget, hphase]
    | panic hphase => simp [budget, hphase]
    | quit hphase => simp [budget, hphase]
  finished hover := by
    rw [h.isLive] at hover
    cases hover

lemma isLive_notify (t : Thread) : t.notify.isLive = t.isLive := by
  rw [notify]
  split <;> rfl

lemma isTold_notify (h : t.isLive = true) : t.notify.isTold = true := by
  rw [notify, if_pos h]
  rfl

lemma becomes_notify (t : Thread) : t.Becomes t.notify := by
  rw [notify]
  split
  · exact ⟨fun _ => ⟨rfl, le_rfl⟩, fun h => ⟨h, rfl⟩⟩
  · exact .refl t

lemma isTold_disconnect (t : Thread) : t.disconnect.isTold = true := Bool.or_true _

lemma becomes_disconnect (t : Thread) : t.Becomes t.disconnect :=
  ⟨fun _ => ⟨t.isTold_disconnect, le_rfl⟩, fun h => ⟨h, rfl⟩⟩

/-- A thread that was told to end begins at most one more call. -/
lemma Becomes.calls_le (h : t.Becomes t') (htold : t.isLive = true → t.isTold = true) :
    t'.calls ≤ t.calls + 1 := by
  cases hlive : t.isLive with
  | false => exact (h.finished hlive).2.le.trans (Nat.le_succ _)
  | true =>
      have hbudget : t'.budget ≤ t.budget := (h.told (htold hlive)).2
      calc t'.calls ≤ t'.budget := Nat.le_add_right _ _
        _ ≤ t.budget := hbudget
        _ ≤ t.calls + 1 := by
            rw [budget]
            split <;> omega

end Thread

/-! ### Steps -/

/-- What every possible step keeps, any number of possible steps keeps. -/
lemma preserved_of_foldlM {σ : Type} {step? : σ → Step → Option σ} {P : σ → Prop}
    (hstep : ∀ s step t, P s → step? s step = some t → P t) {s t : σ} {steps : List Step}
    (h : steps.foldlM step? s = some t) (hs : P s) : P t := by
  induction steps generalizing s with
  | nil => cases h; exact hs
  | cons step rest ih =>
      obtain ⟨u, hfirst, hrest⟩ := Option.bind_eq_some_iff.mp h
      exact ih hrest (hstep s step u hs hfirst)

namespace Worker

/-- The worker after some steps, one after another; `none` if one of them is not possible. -/
def follow? (w : Worker) (steps : List Step) : Option Worker := steps.foldlM step? w

@[simp] lemma follow?_cons (w : Worker) (step : Step) (rest : List Step) :
    w.follow? (step :: rest) = (w.step? step).bind fun v => v.follow? rest := rfl

lemma follow?_concat {w v : Worker} {steps : List Step} {step : Step} :
    w.follow? (steps ++ [step]) = some v ↔
      ∃ u, w.follow? steps = some u ∧ u.step? step = some v := by
  simp only [follow?, List.foldlM_append, List.foldlM_cons, List.foldlM_nil, bind_pure,
    Option.bind_eq_bind, Option.bind_eq_some_iff]

/-- Steps that are all possible are all taken. -/
lemma run_of_follow? {w v : Worker} {steps : List Step} (h : w.follow? steps = some v) :
    (w.run steps).1 = v := by
  induction steps generalizing w with
  | nil => exact Option.some.inj h
  | cons step rest ih =>
      rw [follow?_cons, Option.bind_eq_some_iff] at h
      obtain ⟨u, hstep, hrest⟩ := h
      simp only [run, hstep]
      exact ih hrest

end Worker

/-- What the owner does after the stop that a step begins. -/
def Step.sequel? : Step → Option Sequel
  | .start interval => some (.spawn interval)
  | .stop => some .rest
  | .drop => some .vanish
  | _ => none

/-- Whether a thread is live after a step: a spawn makes one, and it lasts until it panics or
leaves its loop. -/
def Step.lives (alive : Bool) : Step → Bool
  | .spawn => true
  | .panic _ => false
  | .quit _ => false
  | _ => alive

/-- The references that a thread gives back in a step: it drops the one it holds when it is over. -/
def Step.released : Step → ℕ
  | .panic _ => 1
  | .quit _ => 1
  | _ => 0

/-- The references of an owner: one, until it is no more. -/
def Owner.references : Owner → ℕ
  | .gone => 0
  | _ => 1

/-- Whether an owner is stopping a thread and has told it so. -/
def Owner.isStopping : Owner → Bool
  | .leaving _ => true
  | .joining _ => true
  | _ => false

namespace Worker

/-- What a step of a worker can do. -/
inductive StepCases (w : Worker) : Step → Worker → Prop where
  | begins (step : Step) (sequel : Sequel) (hbegins : step.sequel? = some sequel)
      (howner : w.owner = .idle) : StepCases w step { w with owner := .sending sequel }
  | sends (sequel : Sequel) (howner : w.owner = .sending sequel) :
      StepCases w .send { w.mapCurrent Thread.notify with owner := .leaving sequel }
  | leaves (sequel : Sequel) (howner : w.owner = .leaving sequel) :
      StepCases w .leave { w.mapCurrent Thread.disconnect with owner := .joining sequel }
  | joins (sequel : Sequel) (howner : w.owner = .joining sequel)
      (hover : w.current?.any Thread.isLive = false) :
      StepCases w .join
        { w with
          held := false, owner := sequel.owner, references := w.references - sequel.released }
  | spawns (interval : ℕ) (howner : w.owner = .spawning interval) :
      StepCases w .spawn
        { threads := { interval := interval } :: w.threads, held := true, owner := .idle
          references := w.references + 1 }
  | moves (step : Step) (place : ℕ) (t t' : Thread) (hthread : w.threads[place]? = some t)
      (hmove : t.Move place step t') :
      StepCases w step
        { w with
          threads := w.threads.set place t', references := w.references - step.released }

variable {w v : Worker} {step : Step}

lemma begin?_eq_some {sequel : Sequel} (h : w.begin? sequel = some v) :
    w.owner = .idle ∧ v = { w with owner := .sending sequel } := by
  obtain ⟨howner, ⟨⟩⟩ := Option.ite_none_right_eq_some.mp h
  exact ⟨howner, rfl⟩

lemma thread?_eq_some {place released : ℕ} {change : Thread → Option Thread}
    (h : w.thread? place change released = some v) :
    ∃ t t', w.threads[place]? = some t ∧ change t = some t' ∧
      v = { w with
            threads := w.threads.set place t', references := w.references - released } := by
  simp only [thread?, Option.bind_eq_bind, Option.bind_eq_some_iff, Option.pure_def,
    Option.some.injEq] at h
  obtain ⟨t, hthread, t', hchange, rfl⟩ := h
  exact ⟨t, t', hthread, hchange, rfl⟩

/-- A step goes in one of these ways. -/
theorem stepCases (h : w.step? step = some v) : StepCases w step v := by
  cases step with
  | start interval =>
      obtain ⟨howner, rfl⟩ := begin?_eq_some h
      exact .begins _ _ rfl howner
  | stop =>
      obtain ⟨howner, rfl⟩ := begin?_eq_some h
      exact .begins _ _ rfl howner
  | drop =>
      obtain ⟨howner, rfl⟩ := begin?_eq_some h
      exact .begins _ _ rfl howner
  | send =>
      simp only [step?] at h
      split at h
      · next sequel howner => cases h; exact .sends sequel howner
      · cases h
  | leave =>
      simp only [step?] at h
      split at h
      · next sequel howner => cases h; exact .leaves sequel howner
      · cases h
  | join =>
      simp only [step?] at h
      split at h
      · next sequel howner =>
          split at h
          · cases h
          · next hover => cases h; exact .joins sequel howner (Bool.eq_false_iff.mpr hover)
      · cases h
  | spawn =>
      simp only [step?] at h
      split at h
      · next interval howner => cases h; exact .spawns interval howner
      · cases h
  | expire place =>
      obtain ⟨t, _, hthread, hchange, rfl⟩ := thread?_eq_some h
      obtain ⟨⟨hphase, hnotified, hconnected⟩, ⟨⟩⟩ := Option.ite_none_right_eq_some.mp hchange
      exact .moves _ place t _ hthread (.expire hphase (by simp_all [Thread.isTold]))
  | call place =>
      obtain ⟨t, _, hthread, hchange, rfl⟩ := thread?_eq_some h
      obtain ⟨hphase, ⟨⟩⟩ := Option.ite_none_right_eq_some.mp hchange
      exact .moves _ place t _ hthread (.call hphase)
  | finish place =>
      obtain ⟨t, _, hthread, hchange, rfl⟩ := thread?_eq_some h
      obtain ⟨hphase, ⟨⟩⟩ := Option.ite_none_right_eq_some.mp hchange
      exact .moves _ place t _ hthread (.finish hphase)
  | panic place =>
      obtain ⟨t, _, hthread, hchange, rfl⟩ := thread?_eq_some h
      obtain ⟨hphase, ⟨⟩⟩ := Option.ite_none_right_eq_some.mp hchange
      exact .moves _ place t _ hthread (.panic hphase)
  | quit place =>
      obtain ⟨t, _, hthread, hchange, rfl⟩ := thread?_eq_some h
      obtain ⟨⟨hphase, htold⟩, ⟨⟩⟩ := Option.ite_none_right_eq_some.mp hchange
      exact .moves _ place t _ hthread (.quit hphase ((Bool.or_eq_true _ _).mpr htold))

/-- Changing the thread that the owner holds changes the newest one, if the owner holds any. -/
lemma mapCurrent_cases (w : Worker) (change : Thread → Thread) :
    (w.held = false ∨ w.threads = []) ∧ w.mapCurrent change = w ∨
      ∃ t rest, w.held = true ∧ w.threads = t :: rest ∧
        w.mapCurrent change = { w with threads := change t :: rest } := by
  obtain ⟨threads, held, owner⟩ := w
  cases held with
  | false => exact .inl ⟨.inl rfl, rfl⟩
  | true =>
      cases threads with
      | nil => exact .inl ⟨.inr rfl, rfl⟩
      | cons t rest => exact .inr ⟨t, rest, rfl, rfl, rfl⟩

/-! ### What holds of every worker -/

/-- What holds of a worker between any two steps. -/
structure Valid (w : Worker) : Prop where
  /-- Every thread but the newest is over. -/
  past : ∀ t ∈ w.threads.tail, t.isLive = false
  /-- All of them are over if the owner does not hold the newest one. -/
  unheld : w.held = false → ∀ t ∈ w.threads, t.isLive = false
  /-- An owner that is about to spawn a thread, or is gone, does not hold one. -/
  free : w.owner = .gone ∨ (∃ interval, w.owner = .spawning interval) → w.held = false
  /-- A live thread was not told to end unless the owner is stopping it. -/
  untold : w.owner.isStopping = false → ∀ t ∈ w.threads, t.isLive = true → t.isTold = false

lemma valid_new : new.Valid where
  past _ ht := by cases ht
  unheld _ _ ht := by cases ht
  free _ := rfl
  untold _ _ ht := by cases ht

namespace Valid

/-- The thread that takes a step is the newest one, and the owner holds it. -/
lemma eq_cons_of_isLive (hw : w.Valid) {place : ℕ} {t : Thread} (ht : w.threads[place]? = some t)
    (hlive : t.isLive = true) : place = 0 ∧ w.held = true ∧ ∃ rest, w.threads = t :: rest := by
  have hheld : w.held = true := by
    by_contra hunheld
    simp [hw.unheld (Bool.eq_false_iff.mpr hunheld) t (List.mem_of_getElem? ht)] at hlive
  have hpast := hw.past
  cases hthreads : w.threads with
  | nil => rw [hthreads] at ht; cases ht
  | cons newest rest =>
      rw [hthreads] at ht hpast
      cases place with
      | zero => exact ⟨rfl, hheld, rest, by rw [Option.some.inj ht]⟩
      | succ place => simp [hpast t (List.mem_of_getElem? ht)] at hlive

/-- Replacing the newest thread keeps a worker valid, as long as the new one is not told to end
without the owner knowing. -/
lemma replace {t t' : Thread} {rest : List Thread} {owner : Owner} {references : ℕ} (hw : w.Valid)
    (hthreads : w.threads = t :: rest) (hheld : w.held = true)
    (hfree : ¬ (owner = .gone ∨ ∃ interval, owner = .spawning interval))
    (huntold : owner.isStopping = false → t'.isLive = true → t'.isTold = false) :
    Valid { threads := t' :: rest, held := w.held, owner := owner, references := references } where
  past := by
    have hpast := hw.past
    rw [hthreads] at hpast
    exact hpast
  unheld hunheld := by simp [hheld] at hunheld
  free h := absurd h hfree
  untold hstopping s hs hlive := by
    rcases List.mem_cons.mp hs with rfl | hs
    · exact huntold hstopping hlive
    · have hpast := hw.past
      rw [hthreads] at hpast
      simp [hpast s hs] at hlive

/-- Telling the thread that the owner holds something keeps a worker valid, if the owner is
stopping it. -/
lemma mapCurrent (hw : w.Valid) (change : Thread → Thread) {owner : Owner}
    (hstopping : owner.isStopping = true) :
    Valid { w.mapCurrent change with owner := owner } := by
  have hfree : ¬ (owner = .gone ∨ ∃ interval, owner = .spawning interval) := by
    rintro (rfl | ⟨_, rfl⟩) <;> cases hstopping
  rcases w.mapCurrent_cases change with ⟨-, hsame⟩ | ⟨t, rest, hheld, hthreads, hchanged⟩
  · rw [hsame]
    exact ⟨hw.past, hw.unheld, fun h => absurd h hfree, fun h => by simp [hstopping] at h⟩
  · rw [hchanged]
    exact hw.replace hthreads hheld hfree fun h => by simp [hstopping] at h

/-- An owner that has waited for the thread it holds leaves no live one behind. -/
lemma over_of_current (hw : w.Valid) (hover : w.current?.any Thread.isLive = false) :
    ∀ t ∈ w.threads, t.isLive = false := by
  cases hheld : w.held with
  | false => exact hw.unheld hheld
  | true =>
      have hpast := hw.past
      rw [current?, if_pos hheld] at hover
      cases hthreads : w.threads with
      | nil => intro t ht; cases ht
      | cons newest rest =>
          rw [hthreads] at hover hpast
          intro t ht
          rcases List.mem_cons.mp ht with rfl | ht
          · exact hover
          · exact hpast t ht

theorem of_step (hw : w.Valid) (h : w.step? step = some v) : v.Valid := by
  cases stepCases h with
  | begins _ sequel hbegins howner =>
      refine ⟨hw.past, hw.unheld, ?_, fun _ => hw.untold (by rw [howner]; rfl)⟩
      rintro (h | ⟨_, h⟩) <;> cases h
  | sends sequel howner => exact hw.mapCurrent _ rfl
  | leaves sequel howner => exact hw.mapCurrent _ rfl
  | joins sequel howner hover =>
      have hall := hw.over_of_current hover
      refine ⟨hw.past, fun _ => hall, fun _ => rfl, fun _ t ht hlive => ?_⟩
      simp [hall t ht] at hlive
  | spawns interval howner =>
      have hall := hw.unheld (hw.free (.inr ⟨interval, howner⟩))
      refine ⟨hall, ?_, ?_, ?_⟩
      · intro hunheld
        cases hunheld
      · rintro (h | ⟨_, h⟩) <;> cases h
      · intro _ t ht hlive
        rcases List.mem_cons.mp ht with rfl | ht
        · rfl
        · simp [hall t ht] at hlive
  | moves _ place t t' hthread hmove =>
      obtain ⟨rfl, hheld, rest, hthreads⟩ := hw.eq_cons_of_isLive hthread hmove.isLive
      rw [hthreads, List.set_cons_zero]
      refine hw.replace hthreads hheld (fun hfree => ?_) fun hstopping _ => ?_
      · simp [hw.free hfree] at hheld
      · rw [hmove.isTold_eq]
        exact hw.untold hstopping t (by rw [hthreads]; exact List.mem_cons_self) hmove.isLive

/-- After a join no thread is live. -/
lemma over_of_join (hw : w.Valid) (h : w.step? .join = some v) :
    ∀ t ∈ v.threads, t.isLive = false := by
  cases stepCases h with
  | begins _ sequel hbegins howner => cases hbegins
  | joins sequel howner hover => exact hw.over_of_current hover
  | moves _ place t t' hthread hmove => cases hmove

theorem of_follow? (hw : w.Valid) {steps : List Step} (h : w.follow? steps = some v) : v.Valid :=
  preserved_of_foldlM (fun _ _ _ => of_step) h hw

end Valid

/-! ### Who is alive -/

/-- The number of live threads. -/
def live (w : Worker) : ℕ := w.threads.countP Thread.isLive

lemma live_eq_zero (h : ∀ t ∈ w.threads, t.isLive = false) : w.live = 0 :=
  List.countP_eq_zero.mpr fun t ht => by simp [h t ht]

/-- With the newest thread in the lead, only that one matters. -/
lemma live_of_cons {t : Thread} {rest : List Thread} (hthreads : w.threads = t :: rest)
    (hrest : ∀ s ∈ rest, s.isLive = false) : w.live = if t.isLive then 1 else 0 := by
  have hnone : rest.countP Thread.isLive = 0 :=
    List.countP_eq_zero.mpr fun s hs => by simp [hrest s hs]
  rw [live, hthreads, List.countP_cons, hnone, Nat.zero_add]

/-- No two threads are live. -/
lemma Valid.live_le_one (hw : w.Valid) : w.live ≤ 1 := by
  have hpast := hw.past
  cases hthreads : w.threads with
  | nil =>
      rw [live, hthreads]
      exact Nat.zero_le 1
  | cons newest rest =>
      rw [hthreads] at hpast
      rw [live_of_cons hthreads hpast]
      split <;> omega

lemma live_mapCurrent (change : Thread → Thread) (h : ∀ t, (change t).isLive = t.isLive) :
    (w.mapCurrent change).live = w.live := by
  rcases w.mapCurrent_cases change with ⟨-, hsame⟩ | ⟨t, rest, hheld, hthreads, hchanged⟩
  · rw [hsame]
  · rw [hchanged, live, live, hthreads, List.countP_cons, List.countP_cons, h]

/-- A thread that takes a step was the one live thread, and there is none left if it gives its
reference back. -/
lemma Valid.live_of_move (hw : w.Valid) {place references : ℕ} {t t' : Thread}
    (hthread : w.threads[place]? = some t) (hmove : t.Move place step t') :
    w.live = 1 ∧
      live { w with threads := w.threads.set place t', references := references } =
        1 - step.released := by
  obtain ⟨rfl, -, rest, hthreads⟩ := hw.eq_cons_of_isLive hthread hmove.isLive
  have hpast := hw.past
  rw [hthreads] at hpast
  rw [live_of_cons hthreads hpast, if_pos hmove.isLive, live_of_cons (by rw [hthreads]; rfl) hpast]
  refine ⟨rfl, ?_⟩
  cases hmove <;> rfl

/-- A spawn brings a thread to life, a panic and a thread that leaves its loop end one, and no
other step changes anything about it. -/
lemma Valid.live_step (hw : w.Valid) (h : w.step? step = some v) :
    decide (0 < v.live) = step.lives (decide (0 < w.live)) := by
  cases stepCases h with
  | begins _ sequel hbegins howner => cases step <;> first | rfl | cases hbegins
  | sends sequel howner =>
      have hlive := live_mapCurrent (w := w) _ Thread.isLive_notify
      exact congrArg (fun n => decide (0 < n)) hlive
  | leaves sequel howner =>
      have hlive := live_mapCurrent (w := w) Thread.disconnect fun _ => rfl
      exact congrArg (fun n => decide (0 < n)) hlive
  | joins sequel howner hover => rfl
  | spawns interval howner =>
      rw [live, List.countP_cons_of_pos rfl]
      exact decide_eq_true (Nat.succ_pos _)
  | moves _ place t t' hthread hmove =>
      obtain ⟨hbefore, hafter⟩ := hw.live_of_move hthread hmove
      rw [hbefore, hafter]
      cases hmove <;> rfl

/-! ### References -/

/-- There is a reference for each live thread, and one for the owner. -/
def Counted (w : Worker) : Prop := w.references = w.live + w.owner.references

lemma counted_new : new.Counted := rfl

lemma references_mapCurrent (w : Worker) (change : Thread → Thread) :
    (w.mapCurrent change).references = w.references := by
  rcases w.mapCurrent_cases change with ⟨-, hsame⟩ | ⟨t, rest, -, -, hchanged⟩
  · rw [hsame]
  · rw [hchanged]

/-- What the owner says to the thread it holds leaves the count as it is, if it does not end the
thread. -/
lemma Counted.mapCurrent (hc : w.Counted) (change : Thread → Thread)
    (h : ∀ t, (change t).isLive = t.isLive) {owner : Owner}
    (howner : owner.references = w.owner.references) :
    Counted { w.mapCurrent change with owner := owner } := by
  have hlive : (w.mapCurrent change).live = w.live := live_mapCurrent change h
  change (w.mapCurrent change).references = (w.mapCurrent change).live + owner.references
  rw [references_mapCurrent, hlive, howner]
  exact hc

/-- Every step keeps the count: the references that come and go are those of the threads that come
to life and end, and that of an owner that ceases to be. -/
lemma Counted.of_step (hc : w.Counted) (hw : w.Valid) (h : w.step? step = some v) : v.Counted := by
  cases stepCases h with
  | begins _ sequel hbegins howner =>
      rw [Counted, howner] at hc
      exact hc
  | sends sequel howner => exact hc.mapCurrent _ Thread.isLive_notify (by rw [howner]; rfl)
  | leaves sequel howner =>
      exact hc.mapCurrent Thread.disconnect (fun _ => rfl) (by rw [howner]; rfl)
  | joins sequel howner hover =>
      rw [Counted, howner] at hc
      change w.references - sequel.released = w.live + sequel.owner.references
      rw [hc]
      cases sequel <;> rfl
  | spawns interval howner =>
      rw [Counted, howner] at hc
      rw [Counted, live, List.countP_cons_of_pos rfl, hc]
      rfl
  | moves _ place t t' hthread hmove =>
      obtain ⟨hbefore, hafter⟩ := hw.live_of_move hthread hmove
      rw [Counted, hbefore] at hc
      rw [Counted, hafter, hc]
      cases hmove <;> simp only [Step.released] <;> omega

/-- The count is kept all along. -/
theorem counted_follow? {steps : List Step} (h : new.follow? steps = some w) : w.Counted := by
  have hboth : w.Valid ∧ w.Counted := by
    refine preserved_of_foldlM (P := fun w => w.Valid ∧ w.Counted) ?_ h ⟨valid_new, counted_new⟩
    intro u step v hu hstep
    exact ⟨hu.1.of_step hstep, hu.2.of_step hu.1 hstep⟩
  exact hboth.2

/-- An owner that is no more has left no live thread behind. -/
lemma Valid.live_of_gone (hw : w.Valid) (h : w.owner = .gone) : w.live = 0 :=
  live_eq_zero (hw.unheld (hw.free (.inl h)))

/-- While the count is right, it tells whether a thread is live. -/
lemma isAlive_eq (hw : w.Valid) (hc : w.Counted) : w.isAlive = decide (0 < w.live) := by
  have hgone := hw.live_of_gone
  rw [Counted] at hc
  rw [isAlive, hc, decide_eq_decide]
  cases howner : w.owner with
  | gone => rw [hgone howner]; decide
  | _ => exact Nat.lt_add_left_iff_pos

/-- Whether the last of some steps that brought a thread to life or ended one brought one to
life. -/
def livesAfter (steps : List Step) : Bool := steps.foldl Step.lives false

theorem isAlive_follow? {steps : List Step} (h : new.follow? steps = some w) :
    w.isAlive = livesAfter steps := by
  rw [isAlive_eq (valid_new.of_follow? h) (counted_follow? h)]
  induction steps using List.reverseRecOn generalizing w with
  | nil => cases h; rfl
  | append_singleton front step ih =>
      obtain ⟨u, hfront, hstep⟩ := follow?_concat.mp h
      rw [(valid_new.of_follow? hfront).live_step hstep, ih hfront, livesAfter, livesAfter,
        List.foldl_append]
      rfl

/-- A thread leaves its loop only while the owner is stopping it. -/
lemma Valid.isStopping_of_quit (hw : w.Valid) {place : ℕ} (h : w.step? (.quit place) = some v) :
    w.owner.isStopping = true := by
  cases stepCases h with
  | begins _ sequel hbegins howner => cases hbegins
  | moves _ _ t t' hthread hmove =>
      by_contra hnot
      have huntold := hw.untold (Bool.eq_false_iff.mpr hnot) t (List.mem_of_getElem? hthread)
        hmove.isLive
      cases hmove with
      | quit hphase htold => simp [huntold] at htold

/-! ### Single threads -/

/-- The thread that was spawned after so many others. -/
def spawned? (w : Worker) (k : ℕ) : Option Thread := w.threads.reverse[k]?

lemma exists_becomes_of_cons {t t' s : Thread} {rest : List Thread} {k : ℕ} (h : t.Becomes t')
    (hs : (t :: rest).reverse[k]? = some s) :
    ∃ s', (t' :: rest).reverse[k]? = some s' ∧ s.Becomes s' := by
  rw [List.reverse_cons] at hs ⊢
  rcases Nat.lt_or_ge k rest.reverse.length with hk | hk
  · rw [List.getElem?_append_left hk] at hs ⊢
    exact ⟨s, hs, .refl s⟩
  · rw [List.getElem?_append_right hk] at hs ⊢
    obtain ⟨hzero, rfl⟩ : k - rest.reverse.length = 0 ∧ t = s := by
      cases hsub : k - rest.reverse.length with
      | zero => rw [hsub] at hs; exact ⟨rfl, Option.some.inj hs⟩
      | succ n => rw [hsub] at hs; cases hs
    exact ⟨t', by rw [hzero]; rfl, h⟩

lemma exists_becomes_of_mapCurrent {change : Thread → Thread}
    (h : ∀ t : Thread, t.Becomes (change t)) {k : ℕ} {t : Thread} (ht : w.spawned? k = some t) :
    ∃ t', (w.mapCurrent change).spawned? k = some t' ∧ t.Becomes t' := by
  rcases w.mapCurrent_cases change with ⟨-, hsame⟩ | ⟨s, rest, hheld, hthreads, hchanged⟩
  · rw [hsame]
    exact ⟨t, ht, .refl t⟩
  · rw [hchanged]
    rw [spawned?, hthreads] at ht
    exact exists_becomes_of_cons (h s) ht

/-- A step of a worker takes no thread away, and lets each become something it can become. -/
lemma Valid.becomes_step (hw : w.Valid) (h : w.step? step = some v) {k : ℕ} {t : Thread}
    (ht : w.spawned? k = some t) : ∃ t', v.spawned? k = some t' ∧ t.Becomes t' := by
  cases stepCases h with
  | begins _ sequel hbegins howner => exact ⟨t, ht, .refl t⟩
  | sends sequel howner => exact exists_becomes_of_mapCurrent Thread.becomes_notify ht
  | leaves sequel howner => exact exists_becomes_of_mapCurrent Thread.becomes_disconnect ht
  | joins sequel howner hover => exact ⟨t, ht, .refl t⟩
  | spawns interval howner =>
      refine ⟨t, ?_, .refl t⟩
      have hk : k < w.threads.reverse.length := (List.getElem?_eq_some_iff.mp ht).1
      rw [spawned?, List.reverse_cons, List.getElem?_append_left hk]
      exact ht
  | moves _ place s s' hthread hmove =>
      obtain ⟨rfl, -, rest, hthreads⟩ := hw.eq_cons_of_isLive hthread hmove.isLive
      rw [spawned?, hthreads] at ht
      rw [spawned?, hthreads]
      exact exists_becomes_of_cons hmove.becomes ht

theorem Valid.becomes_follow? (hw : w.Valid) {steps : List Step} (h : w.follow? steps = some v)
    {k : ℕ} {t : Thread} (ht : w.spawned? k = some t) :
    ∃ t', v.spawned? k = some t' ∧ t.Becomes t' := by
  have hboth : v.Valid ∧ ∃ t', v.spawned? k = some t' ∧ t.Becomes t' := by
    refine preserved_of_foldlM (P := fun w => w.Valid ∧ ∃ t', w.spawned? k = some t' ∧ t.Becomes t')
      ?_ h ⟨hw, t, ht, .refl t⟩
    rintro u step v ⟨hu, s, hs, hfirst⟩ hstep
    obtain ⟨t', ht', hthen⟩ := hu.becomes_step hstep hs
    exact ⟨hu.of_step hstep, t', ht', hfirst.trans hthen⟩
  exact hboth.2

/-! ### Stopping -/

/-- What the owner tells the thread it holds, every live thread is told. -/
lemma Valid.isTold_mapCurrent (hw : w.Valid) {change : Thread → Thread}
    (h : ∀ t : Thread, (change t).isLive = true → (change t).isTold = true) :
    ∀ t ∈ (w.mapCurrent change).threads, t.isLive = true → t.isTold = true := by
  rcases w.mapCurrent_cases change with ⟨hnone, hsame⟩ | ⟨s, rest, hheld, hthreads, hchanged⟩
  · rw [hsame]
    intro t ht hlive
    rcases hnone with hunheld | hthreads
    · simp [hw.unheld hunheld t ht] at hlive
    · rw [hthreads] at ht
      cases ht
  · rw [hchanged]
    intro t ht hlive
    have hpast := hw.past
    rw [hthreads] at hpast
    rcases List.mem_cons.mp ht with rfl | ht
    · exact h s hlive
    · simp [hpast t ht] at hlive

/-- Once the message is sent or the owner has given up its end of the channel, every live thread
was told to end. -/
lemma Valid.isTold_of_step (hw : w.Valid) (hstep : step = .send ∨ step = .leave)
    (h : w.step? step = some v) : ∀ t ∈ v.threads, t.isLive = true → t.isTold = true := by
  have hnotify : ∀ t : Thread, t.notify.isLive = true → t.notify.isTold = true :=
    fun t hlive => Thread.isTold_notify (t.isLive_notify ▸ hlive)
  cases stepCases h with
  | begins _ sequel hbegins howner => rcases hstep with rfl | rfl <;> cases hbegins
  | sends sequel howner => exact hw.isTold_mapCurrent hnotify
  | leaves sequel howner => exact hw.isTold_mapCurrent fun t _ => t.isTold_disconnect
  | joins sequel howner hover => rcases hstep with h | h <;> cases h
  | spawns interval howner => rcases hstep with h | h <;> cases h
  | moves _ place t t' hthread hmove => rcases hstep with rfl | rfl <;> cases hmove

/-- From then on no thread spawned so far begins more than one call. -/
lemma Valid.calls_le_of_told (hw : w.Valid) (hstep : step = .send ∨ step = .leave)
    (h : w.step? step = some v) {rest : List Step} {u : Worker} (hrest : v.follow? rest = some u)
    {k : ℕ} {t : Thread} (ht : v.spawned? k = some t) :
    ∃ t', u.spawned? k = some t' ∧ t'.calls ≤ t.calls + 1 := by
  obtain ⟨t', ht', hbecomes⟩ := (hw.of_step h).becomes_follow? hrest ht
  have hthread : t ∈ v.threads := List.mem_reverse.mp (List.mem_of_getElem? ht)
  exact ⟨t', ht', hbecomes.calls_le (hw.isTold_of_step hstep h t hthread)⟩

/-- After a join no thread spawned so far lives or is called again. -/
lemma Valid.over_of_joined (hw : w.Valid) (h : w.step? .join = some v) {rest : List Step}
    {u : Worker} (hrest : v.follow? rest = some u) {k : ℕ} {t : Thread}
    (ht : v.spawned? k = some t) :
    ∃ t', u.spawned? k = some t' ∧ t'.isLive = false ∧ t'.calls = t.calls := by
  obtain ⟨t', ht', hbecomes⟩ := (hw.of_step h).becomes_follow? hrest ht
  have hthread : t ∈ v.threads := List.mem_reverse.mp (List.mem_of_getElem? ht)
  exact ⟨t', ht', hbecomes.finished (hw.over_of_join h t hthread)⟩

/-- A stop can be brought to its end: whatever the thread is doing, it can get to the end of its
loop and be joined. -/
theorem stop_returns (hw : w.Valid) (howner : w.owner = .idle) :
    ∃ v, w.follow? w.stopping = some v ∧ v.owner = .idle ∧ v.live = 0 := by
  obtain ⟨threads, held, owner, references⟩ := w
  obtain rfl : owner = .idle := howner
  cases held with
  | false => exact ⟨⟨threads, false, .idle, references⟩, rfl, rfl, live_eq_zero (hw.unheld rfl)⟩
  | true =>
      cases threads with
      | nil => exact ⟨⟨[], false, .idle, references⟩, rfl, rfl, rfl⟩
      | cons t rest =>
          obtain ⟨interval, phase, notified, connected, calls⟩ := t
          have hrest : live ⟨rest, false, .idle, references⟩ = 0 := live_eq_zero hw.past
          cases phase <;>
            exact ⟨_, rfl, rfl, (List.countP_cons_of_neg Bool.false_ne_true).trans hrest⟩

end Worker

/-- A worker has one life at a time, whatever its owner and its threads have done and in whatever
order. No two threads are live. There is one reference to the mark for the live thread and one for
the owner, as long as it is there; so the worker, which tells from this count whether it is alive,
is so exactly while a thread is live, which is from the return of a start until its thread panics or
leaves its loop. A thread leaves its loop only while the owner is stopping it. Every stop can
return. After the join with which it does, no thread is live, and no thread spawned so far will be
live or called again. From the message on, or from the loss of the other end of the channel, no
thread spawned so far begins more than one call. -/
theorem worker_lifecycle {steps : List Step} {w : Worker} (h : Worker.new.follow? steps = some w) :
    w.live ≤ 1 ∧
    w.references = w.live + w.owner.references ∧
    (w.isAlive = true ↔ 0 < w.live) ∧
    w.isAlive = Worker.livesAfter steps ∧
    (∀ place v, w.step? (.quit place) = some v → w.owner.isStopping = true) ∧
    (w.owner = .idle → ∃ v, w.follow? w.stopping = some v ∧ (w.run w.stopping).1 = v ∧
      v.owner = .idle ∧ v.live = 0) ∧
    (∀ v, w.step? .join = some v → v.live = 0 ∧ v.isAlive = false ∧
      ∀ rest u, v.follow? rest = some u → ∀ k t, v.spawned? k = some t →
        ∃ t', u.spawned? k = some t' ∧ t'.isLive = false ∧ t'.calls = t.calls) ∧
    (∀ step v, step = .send ∨ step = .leave → w.step? step = some v →
      ∀ rest u, v.follow? rest = some u → ∀ k t, v.spawned? k = some t →
        ∃ t', u.spawned? k = some t' ∧ t'.calls ≤ t.calls + 1) := by
  have hw : w.Valid := Worker.valid_new.of_follow? h
  have hc : w.Counted := Worker.counted_follow? h
  refine ⟨hw.live_le_one, hc, ?_, Worker.isAlive_follow? h, fun place v => hw.isStopping_of_quit,
    fun howner => ?_, ?_, ?_⟩
  · rw [Worker.isAlive_eq hw hc, decide_eq_true_iff]
  · obtain ⟨v, hstops, hidle, hnone⟩ := Worker.stop_returns hw howner
    exact ⟨v, hstops, Worker.run_of_follow? hstops, hidle, hnone⟩
  · intro v hjoin
    have hnone : v.live = 0 := Worker.live_eq_zero (hw.over_of_join hjoin)
    refine ⟨hnone, ?_, fun rest u hrest k t => hw.over_of_joined hjoin hrest⟩
    rw [Worker.isAlive_eq (hw.of_step hjoin) (hc.of_step hw hjoin), hnone]
    rfl
  · intro step v hstep htells rest u hrest k t
    exact hw.calls_le_of_told hstep htells hrest

/-- A thread is told to end when a call is due. It begins this call, which panics, and is over: its
reference is given back, and the worker is not alive. The owner joins it and starts another thread,
which holds a reference again, and the first one is not called again. -/
theorem worker_lifecycle_at_due_call :
    let started : List Step := [.start 5, .send, .leave, .join, .spawn, .expire 0]
    let told : List Step := [.stop, .send, .leave, .call 0]
    let again : List Step := [.start 7, .send, .leave, .join, .spawn, .expire 0, .call 0]
    let t : Thread :=
      { interval := 5, phase := .panicked, notified := true, connected := false, calls := 1 }
    let w : Worker := ⟨[t], true, .joining .rest, 1⟩
    let v : Worker := ⟨[t], false, .idle, 1⟩
    (∃ s, Worker.new.follow? (started ++ told) = some s ∧ s.references = 2 ∧ s.isAlive = true) ∧
      Worker.new.follow? (started ++ told ++ [.panic 0]) = some w ∧ w.live = 0 ∧
      w.isAlive = false ∧ w.step? .join = some v ∧ v.live = 0 ∧
      ∃ u, v.follow? again = some u ∧ u.references = 2 ∧ u.isAlive = true ∧
        ∃ t', u.spawned? 0 = some t' ∧ t'.isLive = false ∧ t'.calls = 1 := by
  intro started told again t w v
  obtain ⟨s, hcalled⟩ : ∃ s, Worker.new.follow? (started ++ told) = some s := ⟨_, rfl⟩
  obtain ⟨-, hcalling, -, hliving, -⟩ := worker_lifecycle hcalled
  have hsteps : Worker.new.follow? (started ++ told ++ [.panic 0]) = some w := rfl
  obtain ⟨-, -, -, halive, -, -, hjoined, -⟩ := worker_lifecycle hsteps
  obtain ⟨hlive, -, hover⟩ := hjoined v rfl
  obtain ⟨u, hagain⟩ : ∃ u, v.follow? again = some u := ⟨_, rfl⟩
  have hafter : Worker.new.follow? (started ++ told ++ [.panic 0] ++ .join :: again) = some u :=
    hagain
  obtain ⟨-, hrevived, -, hrevives, -⟩ := worker_lifecycle hafter
  cases hcalled
  cases hagain
  exact ⟨⟨_, rfl, hcalling, hliving⟩, hsteps, rfl, halive, rfl, hlive, _, rfl, hrevived, hrevives,
    hover again _ rfl 0 t rfl⟩

end ChipEight
