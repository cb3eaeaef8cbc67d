import Mathlib.Tactic
import ChipEight.Proofs.Cycle.Executed
import ChipEight.Proofs.InPlace.Calls

/-!
Who is told what, and when.

Observers come and go while the machine runs. Each one is told about every instruction that is
executed while it is there, once and in order, and about nothing else.

* `Action.Watches`: which observers are there after a run, read off the actions alone.
* `Action.registry`, `mem_ids_registry_iff`, `nodup_ids_registry`: the registry that the actions
  build up holds the number of each of these observers once.
* `record?`, `delivered_of_executed`: a cycle that executes an instruction tells what stood at its
  counter before. Nothing that it does can change the record, even if it is made afterwards.
* `Machine.received`, `received_concat`: what an observer is told in a run, and in one more
  action.
* `trace_is_exact`: all of it in one formula.
-/

namespace ChipEight

/-! ### Registries -/

namespace Observers

variable {α ε : Type}

/-- The numbers of the observers, the oldest registration first. -/
def ids (o : Observers α) : List ℕ := o.entries.map Prod.fst

@[simp] lemma ids_register (o : Observers α) (observer : α) :
    (o.register observer).ids = o.ids ++ [o.issued + 1] := by
  simp [ids, register]

@[simp] lemma ids_remove (o : Observers α) (id : ℕ) :
    (o.remove id).ids = o.ids.filter (· != id) := by
  simp only [ids, remove, List.filter_map]
  rfl

lemma deliver_eq (o : Observers α) (event : ε) : o.deliver event = o.ids.map (·, event) := by
  simp [deliver, ids]

/-- A delivery reaches an observer once if it is there, and not at all if it is not. -/
lemma filter_deliver {o : Observers α} (h : o.ids.Nodup) (event : ε) (id : ℕ) :
    ((o.deliver event).filter (·.1 == id)).map Prod.snd = if id ∈ o.ids then [event] else [] := by
  have hfilter : (o.deliver event).filter (·.1 == id) =
      (o.ids.filter (· == id)).map (·, event) := by
    rw [deliver_eq, List.filter_map]
    rfl
  rw [hfilter, List.filter_beq, List.Nodup.count h]
  split <;> rfl

/-- What an action does to a registry. -/
def follow (o : Observers Unit) : Action → Observers Unit
  | .observe => o.register ()
  | .unobserve id => o.remove id
  | _ => o

end Observers

namespace Action

/-- Whether an action registers an observer. -/
def isRegistration : Action → Bool
  | .observe => true
  | _ => false

/-- The number of registrations in a run. -/
def registrations (run : List Action) : ℕ := run.countP isRegistration

/-- The observer of a number is there after a run: its registration, of which the number tells how
many there were up to it, has come, and it was not removed since. -/
def Watches (id : ℕ) (run : List Action) : Prop :=
  ∃ before after, run = before ++ .observe :: after ∧ registrations before + 1 = id ∧
    .unobserve id ∉ after

/-- The registry that a run builds up. -/
def registry (run : List Action) : Observers Unit := run.foldl Observers.follow .empty

variable {id : ℕ} {run : List Action} {a : Action}

lemma registrations_concat (run : List Action) (a : Action) :
    registrations (run ++ [a]) = registrations run + if a.isRegistration then 1 else 0 := by
  rw [registrations, List.countP_append, List.countP_singleton, registrations]

lemma registry_concat (run : List Action) (a : Action) :
    registry (run ++ [a]) = (registry run).follow a :=
  List.foldl_append

/-- The observers that are there after one more action: the one it registers, and all others
that it does not remove. -/
lemma watches_concat :
    Watches id (run ++ [a]) ↔
      (a = .observe ∧ registrations run + 1 = id) ∨ (Watches id run ∧ a ≠ .unobserve id) :=
  Calls.exists_since_concat

/-- Only numbers that were given out already belong to observers. -/
lemma Watches.le (h : Watches id run) : id ≤ registrations run := by
  obtain ⟨before, after, rfl, rfl, -⟩ := h
  rw [registrations, registrations, List.countP_append, List.countP_cons_of_pos rfl]
  omega

/-- The newest number tells how many registrations there were. -/
lemma issued_registry (run : List Action) : (registry run).issued = registrations run := by
  induction run using List.reverseRecOn with
  | nil => rfl
  | append_singleton run a ih =>
      rw [registry_concat, registrations_concat, ← ih]
      cases a <;> rfl

/-- The registry holds the observers that are there. -/
lemma mem_ids_registry_iff : id ∈ (registry run).ids ↔ Watches id run := by
  induction run using List.reverseRecOn with
  | nil =>
      refine iff_of_false List.not_mem_nil ?_
      rintro ⟨before, after, hrun, -⟩
      exact List.append_ne_nil_of_right_ne_nil before (List.cons_ne_nil _ after) hrun.symm
  | append_singleton run a ih =>
      rw [registry_concat, watches_concat, ← ih, ← issued_registry]
      cases a with
      | observe =>
          show id ∈ ((registry run).register ()).ids ↔ _
          rw [Observers.ids_register, List.mem_append, List.mem_singleton, or_comm, eq_comm]
          simp
      | unobserve k =>
          show id ∈ ((registry run).remove k).ids ↔ _
          rw [Observers.ids_remove, List.mem_filter, bne_iff_ne, ne_comm]
          simp
      | _ => simp [Observers.follow]

/-- No two observers share a number. -/
lemma nodup_ids_registry (run : List Action) : (registry run).ids.Nodup := by
  induction run using List.reverseRecOn with
  | nil => exact List.nodup_nil
  | append_singleton run a ih =>
      rw [registry_concat]
      cases a with
      | observe =>
          have hnew : (registry run).issued + 1 ∉ (registry run).ids := by
            intro h
            have hle := (mem_ids_registry_iff.mp h).le
            rw [issued_registry] at hle
            omega
          show ((registry run).register ()).ids.Nodup
          rw [Observers.ids_register, ← List.concat_eq_append]
          exact ih.concat hnew
      | unobserve k =>
          show ((registry run).remove k).ids.Nodup
          rw [Observers.ids_remove]
          exact ih.filter _
      | _ => exact ih

instance (id : ℕ) (run : List Action) : Decidable (Watches id run) :=
  decidable_of_iff _ mem_ids_registry_iff

end Action

namespace Machine

variable {m : Machine} {i : Instruction Register}

/-! ### One cycle -/

/-- The record of an action: what stood at the counter, if it is a cycle that executes it. -/
def record? (m : Machine) : Action → Option (TraceRecord Register)
  | .cycle => m.executed?.map fun i => ⟨m.counter, m.nextWord, i⟩
  | _ => none

/-- What an action tells to whom. -/
def deliveredBy? (m : Machine) : Action → Option (List (ℕ × TraceRecord Register))
  | .cycle => some m.cycle.delivered
  | _ => none

lemma delivered_of_executed (h : m.executed? = some i) :
    m.cycle.delivered = m.deliveries ⟨m.counter, m.nextWord, i⟩ := by
  cases m.cycleCases with
  | executed word j e hfetch hdecode hexecute hcycle =>
      obtain ⟨-, rfl⟩ := fetch_eq_ok_iff.mp hfetch
      cases (decode_of_executed h).symm.trans hdecode
      rw [hcycle]
  | unfetched cause hfetch hcycle => rw [executed?, hcycle] at h; cases h
  | undecoded word hfetch hdecode hcycle => rw [executed?, hcycle] at h; cases h
  | refused word j fault hfetch hdecode hexecute hcycle => rw [executed?, hcycle] at h; cases h

/-- The record may as well be made after the instruction, of the word that the machine has fetched
last by then, and for the observers it has by then. -/
lemma delivered_afterwards (h : m.executed? = some i) :
    m.cycle.delivered =
      m.cycle.machine.deliveries ⟨m.counter, m.cycle.machine.opcode, i⟩ := by
  obtain ⟨-, hconfig, hobservers⟩ := m.fixed_cycle
  rw [delivered_of_executed h, opcode_cycle (counter_le_of_executed h), deliveries, deliveries,
    hconfig, hobservers]

/-- A cycle that crashes tells nobody. -/
lemma delivered_of_crashed (h : m.executed? = none) : m.cycle.delivered = [] := by
  obtain ⟨crash, hresult⟩ := result_of_crashed h
  obtain ⟨fault, log, hcycle⟩ := cycle_of_error hresult
  rw [hcycle]
  rfl

/-! ### Runs -/

/-- What a run tells to whom, in order. -/
def delivered (m : Machine) (run : List Action) : List (ℕ × TraceRecord Register) :=
  (m.collect deliveredBy? run).flatten

/-- What the observer of a number is told in a run, in order. -/
def received (m : Machine) (id : ℕ) (run : List Action) : List (TraceRecord Register) :=
  ((m.delivered run).filter (·.1 == id)).map Prod.snd

/-- The record of the action in a place of a run. -/
def recordAt? (m : Machine) (run : List Action) (n : ℕ) : Option (TraceRecord Register) :=
  run[n]?.bind (m.actAll (run.take n)).record?

/-- The records of the places of a run where the observer of a number is there, in order. -/
def watched (m : Machine) (id : ℕ) (run : List Action) : List (TraceRecord Register) :=
  (List.range run.length).filterMap fun n =>
    if Action.Watches id (run.take n) then m.recordAt? run n else none

lemma observers_actAll (h : m.observers = .empty) (run : List Action) :
    (m.actAll run).observers = Action.registry run := by
  induction run using List.reverseRecOn with
  | nil => exact h
  | append_singleton run a ih =>
      rw [actAll_concat, Action.registry_concat, ← ih]
      cases a with
      | cycle => exact (m.actAll run).fixed_cycle.2.2
      | _ => rfl

lemma config_actAll (m : Machine) (run : List Action) : (m.actAll run).config = m.config := by
  induction run using List.reverseRecOn with
  | nil => rfl
  | append_singleton run a ih =>
      rw [actAll_concat, ← ih]
      cases a with
      | cycle => exact (m.actAll run).fixed_cycle.2.1
      | _ => rfl

lemma watched_concat (m : Machine) (id : ℕ) (run : List Action) (a : Action) :
    m.watched id (run ++ [a]) = m.watched id run ++
      if Action.Watches id run then ((m.actAll run).record? a).toList else [] := by
  rw [watched, watched, List.length_append, List.length_singleton, List.range_succ,
    List.filterMap_append]
  congr 1
  · refine List.filterMap_congr fun n hn => ?_
    rw [List.mem_range] at hn
    rw [recordAt?, List.take_append_of_le_length hn.le, List.getElem?_append_left hn, recordAt?]
  · have hlast : m.recordAt? (run ++ [a]) run.length = (m.actAll run).record? a := by
      simp [recordAt?]
    simp only [List.filterMap_cons, List.filterMap_nil, List.take_left, hlast]
    by_cases hwatches : Action.Watches id run
    · simp only [if_pos hwatches]
      cases (m.actAll run).record? a <;> rfl
    · simp only [if_neg hwatches]

/-- Who is there and traced is told the record of one more action, once. -/
lemma received_concat (h : m.observers = .empty) (id : ℕ) (run : List Action) (a : Action) :
    m.received id (run ++ [a]) = m.received id run ++
      if m.config.trace ∧ Action.Watches id run then ((m.actAll run).record? a).toList else [] := by
  have hobservers := observers_actAll h run
  have hconfig := m.config_actAll run
  generalize hk : m.actAll run = k at hobservers hconfig
  have hsplit : m.received id (run ++ [a]) = m.received id run ++
      (((k.deliveredBy? a).toList.flatten).filter (·.1 == id)).map Prod.snd := by
    simp only [received, delivered, collect_concat, List.flatten_append, List.filter_append,
      List.map_append, hk]
  rw [hsplit, List.append_cancel_left_eq]
  cases a with
  | cycle =>
      simp only [deliveredBy?, record?, Option.toList_some, List.flatten_singleton]
      cases hexecuted : k.executed? with
      | none => simp [delivered_of_crashed hexecuted]
      | some i =>
          rw [delivered_of_executed hexecuted, deliveries, hconfig, hobservers]
          cases htrace : m.config.trace with
          | false => simp
          | true =>
              simp only [if_true, Observers.filter_deliver (Action.nodup_ids_registry run),
                Action.mem_ids_registry_iff, true_and]
              rfl
  | _ => simp [deliveredBy?, record?]

/-- What an observer is told in a traced run are the records of the cycles it has watched. -/
theorem received_eq (h : m.observers = .empty) (id : ℕ) (run : List Action) :
    m.received id run = if m.config.trace then m.watched id run else [] := by
  induction run using List.reverseRecOn with
  | nil => cases m.config.trace <;> rfl
  | append_singleton run a ih =>
      rw [received_concat h, watched_concat, ih]
      cases m.config.trace <;> simp

end Machine

/-- The trace is exact. Observers are numbered by their registrations. If the machine traces, what
an observer is told in a run is, in order and once each, the record of every cycle that did not
crash while the observer was there: the counter before the cycle, the word that stood there then,
and the instruction this word stands for. Making the record after the instruction, when memory and
counter have changed, makes no difference. If the machine does not trace, nobody is told
anything. -/
theorem trace_is_exact (m : Machine) (h : m.observers = .empty) (run : List Action) :
    (m.actAll run).observers.issued = Action.registrations run ∧
    (∀ id, m.received id run =
      if m.config.trace then
        (List.range run.length).filterMap fun n =>
          if Action.Watches id (run.take n) then m.recordAt? run n else none
      else []) ∧
    ∀ i, (m.actAll run).executed? = some i →
      Instruction.decode? (m.actAll run).nextWord = some i ∧
      (m.actAll run).cycle.delivered =
        (m.actAll run).cycle.machine.deliveries
          ⟨(m.actAll run).counter, (m.actAll run).cycle.machine.opcode, i⟩ := by
  refine ⟨?_, fun id => Machine.received_eq h id run, fun i hi =>
    ⟨Machine.decode_of_executed hi, Machine.delivered_afterwards hi⟩⟩
  rw [Machine.observers_actAll h, Action.issued_registry]

/-- An instruction that overwrites its own word, watched by an observer that came after the first
cycle and leaves after the second: it is told the word as it was. -/
theorem trace_is_exact_at_overwritten_word :
    let rom : Rom := ⟨"SELF", [0xA2, 0x02, 0xF0, 0x55], by decide⟩
    let m := Machine.boot rom { trace := true } (.cycling #[])
    let run : List Action := [.cycle, .observe, .cycle, .unobserve 1]
    m.observers = .empty ∧
      m.received 1 run = [⟨0x202, 0xF055, .storeRegisters .first⟩] ∧
      (m.actAll run).memory.byteAt 0x202 = 0 := by
  intro rom m run
  -- the machine before the second cycle, whose store goes over its own word
  obtain ⟨k, hk⟩ : ∃ k, k = m.actAll [.cycle, .observe] := ⟨_, rfl⟩
  obtain ⟨⟨hle, hnext⟩, hcounter, hindex, hregisters⟩ :
      (k.counter ≤ 0xFFE ∧ k.nextWord = 0xF055) ∧ k.counter = 0x202 ∧ k.index = 0x202 ∧
        k.registers = .zero := by
    have hprogram : m.HoldsProgram rom := Machine.holdsProgram_of_image rfl
    subst k m rom
    refine ⟨Machine.nextWord_of_readRun hprogram rfl rfl, ?_, ?_, ?_⟩
    · rw [Machine.actAll_of_readRun hprogram rfl]
      rfl
    · rw [Machine.actAll_of_readRun hprogram rfl]
      rfl
    · rw [Machine.actAll_of_readRun hprogram rfl]
      rfl
  have hsecond : k.executed? = some (.storeRegisters .first) :=
    Machine.executed?_of_extent hle (by rw [hnext]; rfl) rfl (by rw [hindex]; decide)
  have hplace : run.take 2 = [.cycle, .observe] ∧ run[2]? = some .cycle := ⟨rfl, rfl⟩
  have hrecord : m.recordAt? run 2 = some ⟨0x202, 0xF055, .storeRegisters .first⟩ := by
    rw [Machine.recordAt?, hplace.1, hplace.2, ← hk, Option.bind_some, Machine.record?, hsecond,
      hcounter, hnext, Option.map_some]
  have hlast : m.actAll run = k.cycle.machine.unobserve 1 := by
    rw [hk]
    simp only [run, Machine.actAll_cons, Machine.actAll_nil, Machine.act]
  have hbefore : ¬ Action.Watches 1 (run.take 0) ∧ ¬ Action.Watches 1 (run.take 1) := by decide
  have hthen : Action.Watches 1 (run.take 2) ∧ Action.Watches 1 (run.take 3) := by decide
  have hafter : m.recordAt? run 3 = none := rfl
  have hplaces : List.range run.length = [0, 1, 2, 3] := by decide
  have htrace : m.config.trace = true := rfl
  have hreceived := (trace_is_exact m rfl run).2.1 1
  rw [if_pos htrace, hplaces] at hreceived
  refine ⟨rfl, hreceived.trans ?_, ?_⟩
  · simp only [List.filterMap_cons, List.filterMap_nil, if_neg hbefore.1, if_neg hbefore.2,
      if_pos hthen.1, if_pos hthen.2, hrecord, hafter]
  · have hstored : k.cycle.machine.memory = k.memory.overlay k.index (k.registers.upTo .first) :=
      Machine.memory_of_executed hsecond
    rw [hlast]
    show k.cycle.machine.memory.byteAt 0x202 = 0
    rw [hstored, hindex, hregisters, Memory.byteAt_overlay _ _ _ (by decide)]
    rfl

end ChipEight
