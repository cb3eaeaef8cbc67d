import Mathlib.Tactic

/-!
Devices that are called again and again.

* `Calls.run`, `Calls.run?`: what a device answers to some calls and what becomes of it, and the
  same for one that can trap.
* `Calls.run?_of_simulates`: a device that keeps up with another one at every call does so in a row,
  and never traps.
* `Calls.Answered`, `Calls.run?_of_history`: answers that are what the calls before ask for, and
  that a device that gives such an answer at every call does so in a row, and never traps.
  `Calls.exists_since_concat`: what a call changes about the calls made and not taken back since.
-/

namespace ChipEight.Calls

variable {σ τ κ ρ : Type}

/-- The answers of a device to some calls, one after another, and the device afterwards. -/
def run (answer : σ → κ → ρ × σ) (s : σ) : List κ → List ρ × σ
  | [] => ([], s)
  | c :: rest =>
    let (reply, next) := answer s c
    let (replies, last) := run answer next rest
    (reply :: replies, last)

/-- The same for a device that can trap: then there is nothing. -/
def run? (answer? : τ → κ → Option (ρ × τ)) (t : τ) : List κ → Option (List ρ × τ)
  | [] => some ([], t)
  | c :: rest => do
    let (reply, next) ← answer? t c
    let (replies, last) ← run? answer? next rest
    some (reply :: replies, last)

variable {answer : σ → κ → ρ × σ} {answer? : τ → κ → Option (ρ × τ)}

lemma run_snd (s : σ) (calls : List κ) :
    (run answer s calls).2 = calls.foldl (fun t c => (answer t c).2) s := by
  induction calls generalizing s with
  | nil => rfl
  | cons c rest ih => exact ih (answer s c).2

/-- If every call keeps two devices in a relation, and has one of them answer as the other does, so
does every run of calls. -/
theorem run?_of_simulates {Related : τ → σ → Prop} {calls : List κ}
    (hcall : ∀ t s, ∀ c ∈ calls, Related t s →
      ∃ next, answer? t c = some ((answer s c).1, next) ∧ Related next (answer s c).2)
    {t : τ} {s : σ} (h : Related t s) :
    ∃ last, run? answer? t calls = some ((run answer s calls).1, last) ∧
      Related last (run answer s calls).2 := by
  induction calls generalizing t s with
  | nil => exact ⟨t, rfl, h⟩
  | cons c rest ih =>
      obtain ⟨next, hanswer, hnext⟩ := hcall t s c List.mem_cons_self h
      obtain ⟨last, hrun, hlast⟩ :=
        ih (fun t s d hd => hcall t s d (List.mem_cons_of_mem c hd)) hnext
      refine ⟨last, ?_, hlast⟩
      simp only [run?, hanswer, hrun, Option.bind_eq_bind, Option.bind_some]
      rfl

/-- A device that answers as another one does is as good as that one. -/
lemma run?_eq_run {answer? : σ → κ → Option (ρ × σ)} {calls : List κ}
    (hcall : ∀ s, ∀ c ∈ calls, answer? s c = some (answer s c)) (s : σ) :
    run? answer? s calls = some (run answer s calls) := by
  have hstep : ∀ t s, ∀ c ∈ calls, t = s →
      ∃ next, answer? t c = some ((answer s c).1, next) ∧ next = (answer s c).2 := by
    rintro t _ c hc rfl
    exact ⟨(answer t c).2, hcall t c hc, rfl⟩
  obtain ⟨last, hrun, rfl⟩ := run?_of_simulates hstep (Eq.refl s)
  exact hrun

/-! ### Answers that depend on the calls before -/

/-- Some calls are answered one by one, and each answer is what the calls before it ask for. -/
def Answered (Asks : List κ → κ → ρ → Prop) (calls : List κ) (replies : List ρ) : Prop :=
  replies.length = calls.length ∧
    ∀ n c reply, calls[n]? = some c → replies[n]? = some reply → Asks (calls.take n) c reply

variable {Asks : List κ → κ → ρ → Prop}

lemma Answered.exists_reply {calls : List κ} {replies : List ρ} (h : Answered Asks calls replies)
    {n : ℕ} {c : κ} (hc : calls[n]? = some c) :
    ∃ reply, replies[n]? = some reply ∧ Asks (calls.take n) c reply := by
  obtain ⟨hn, -⟩ := List.getElem?_eq_some_iff.mp hc
  have hreply := List.getElem?_eq_getElem (h.1.symm ▸ hn)
  exact ⟨_, hreply, h.2 n c _ hc hreply⟩

/-- If every call is answered as the calls before it ask for, and keeps what the calls so far have
to do with the device, then so does every run of calls, and it does not trap. -/
theorem run?_of_history (answer? : τ → κ → Option (ρ × τ)) (Asks : List κ → κ → ρ → Prop)
    {Holds : List κ → τ → Prop} (calls : List κ)
    (hcall : ∀ before c t, before ++ [c] <+: calls → Holds before t →
      ∃ reply next, answer? t c = some (reply, next) ∧ Asks before c reply ∧
        Holds (before ++ [c]) next)
    {t : τ} (h : Holds [] t) :
    ∃ replies last, run? answer? t calls = some (replies, last) ∧ Holds calls last ∧
      Answered Asks calls replies := by
  -- the calls are split into those made so far and the rest, on which the induction is
  suffices hrest : ∀ rest before t, before ++ rest = calls → Holds before t →
      ∃ replies last, run? answer? t rest = some (replies, last) ∧ Holds calls last ∧
        Answered (fun made => Asks (before ++ made)) rest replies from
    hrest calls [] t rfl h
  intro rest
  induction rest with
  | nil =>
      rintro before t rfl hholds
      exact ⟨[], t, rfl, by rwa [List.append_nil], rfl, fun n c reply hc => by simp at hc⟩
  | cons c rest ih =>
      rintro before t hcalls hholds
      have hsplit : before ++ [c] ++ rest = calls := by
        rw [List.append_assoc, List.singleton_append, hcalls]
      obtain ⟨reply, next, hanswer, hasks, hnext⟩ :=
        hcall before c t ⟨rest, hsplit⟩ hholds
      obtain ⟨replies, last, hrun, hlast, hlength, hreplies⟩ := ih _ next hsplit hnext
      refine ⟨reply :: replies, last, ?_, hlast, congrArg Nat.succ hlength, ?_⟩
      · simp only [run?, hanswer, hrun, Option.bind_eq_bind, Option.bind_some]
      · intro n d other hd hother
        cases n with
        | zero =>
            cases hd
            cases hother
            rwa [List.take_zero, List.append_nil]
        | succ n =>
            have hlater : Asks (before ++ [c] ++ rest.take n) d other :=
              hreplies n d other hd hother
            rwa [List.append_assoc, List.singleton_append] at hlater

/-- The same for a device that cannot trap. -/
theorem run_of_history {Holds : List κ → σ → Prop} {calls : List κ}
    (hcall : ∀ before c s, before ++ [c] <+: calls → Holds before s →
      Asks before c (answer s c).1 ∧ Holds (before ++ [c]) (answer s c).2)
    {s : σ} (h : Holds [] s) :
    Holds calls (run answer s calls).2 ∧ Answered Asks calls (run answer s calls).1 := by
  obtain ⟨replies, last, hrun, hlast, hreplies⟩ :=
    run?_of_history (fun s c => some (answer s c)) Asks calls
      (fun before c s hbefore hholds => ⟨_, _, rfl, hcall before c s hbefore hholds⟩) h
  rw [run?_eq_run fun _ _ _ => rfl, Option.some.injEq] at hrun
  rw [hrun]
  exact ⟨hlast, hreplies⟩

/-- Whether one call was made in a suitable moment, and another one not since, can be told from the
last call and those before it. -/
lemma exists_since_concat {Suits : List κ → Prop} {calls : List κ} {c made unmade : κ} :
    (∃ before after, calls ++ [c] = before ++ made :: after ∧ Suits before ∧ unmade ∉ after) ↔
      (c = made ∧ Suits calls) ∨
        ((∃ before after, calls = before ++ made :: after ∧ Suits before ∧ unmade ∉ after) ∧
          c ≠ unmade) := by
  constructor
  · rintro ⟨before, after, hcalls, hsuits, hkept⟩
    rcases List.eq_nil_or_concat after with rfl | ⟨after, last, rfl⟩
    · obtain ⟨rfl, hlast⟩ := List.append_inj' hcalls rfl
      exact .inl ⟨List.singleton_inj.mp hlast, hsuits⟩
    · rw [List.concat_eq_append, ← List.cons_append, ← List.append_assoc] at hcalls
      obtain ⟨rfl, hlast⟩ := List.append_inj' hcalls rfl
      obtain rfl := List.singleton_inj.mp hlast
      rw [List.concat_eq_append, List.mem_append, List.mem_singleton, not_or] at hkept
      exact .inr ⟨⟨before, after, rfl, hsuits, hkept.1⟩, Ne.symm hkept.2⟩
  · rintro (⟨rfl, hsuits⟩ | ⟨⟨before, after, rfl, hsuits, hkept⟩, hne⟩)
    · exact ⟨calls, [], rfl, hsuits, List.not_mem_nil⟩
    · refine ⟨before, after ++ [c], by simp, hsuits, ?_⟩
      rw [List.mem_append, List.mem_singleton, not_or]
      exact ⟨hkept, Ne.symm hne⟩

end ChipEight.Calls
