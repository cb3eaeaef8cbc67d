import Mathlib.Tactic
import ChipEight.Proofs.InPlace.Calls
import ChipEight.Proofs.Observers.Delivery

/-!
Numbers of observers.

A number belongs to one observer, from its registration to its removal and to no other one ever
after. That holds because numbers are taken from a counter that never goes back: the number of a
removed observer is behind the counter, and there is no observer at or ahead of it.

* `Call`, `Reply`, `answer`: what can be asked of a registry, and what it answers.
* `Live`, `live_concat`: the observers that are there after some calls, read off the calls alone.
  `Live.le`: their numbers have been given out.
* `Asks`: what is asked of an answer.
* `Accounts`: a counter and a map of observers are what some calls have led to. `Accounts.register`
  and `Accounts.remove` keep it so, `Accounts.next_eq_none` is the reason why a registration never
  takes the place of an observer.
* `asks_answer`: a registry keeps account of the calls, and answers accordingly.
* `Directory`, `Directory.Lawful`: finite maps from numbers, as a library has them, and what the
  library promises of them. `Directory.ofHashMap` is one.
* `Directory.answer?`, `Directory.exists_answer`: a registry on a host, which keeps the observers in
  such a map and traps if there is no word for the next number. While there is, it keeps account of
  the calls as well.
* `observers_keep_their_numbers`: both, for any calls to a new registry.
-/

namespace ChipEight

namespace Observers

variable {α ε : Type}

/-! ### Calls -/

/-- What can be asked of a registry. -/
inductive Call (α ε : Type) where
  /-- To register an observer. -/
  | register (observer : α)
  /-- To remove the observer of a number. -/
  | remove (id : ℕ)
  /-- To tell the observers of an event. -/
  | notify (event : ε)
  /-- Whether there is no observer. -/
  | isEmpty

/-- What a registry can answer. -/
inductive Reply (α ε : Type) where
  /-- The number given to an observer, and the observer whose place it takes, if any. -/
  | issued (id : ℕ) (replaced? : Option α)
  /-- The observer removed, if any. -/
  | removed (observer? : Option α)
  /-- Who is told of what. -/
  | told (deliveries : List (ℕ × ε))
  /-- Whether there is no observer. -/
  | vacant (empty : Bool)

/-- What a registry answers to a call, and the registry afterwards. -/
def answer (o : Observers α) : Call α ε → Reply α ε × Observers α
  | .register observer =>
    let after := o.register observer
    (.issued after.issued (o.find? after.issued), after)
  | .remove id => (.removed (o.find? id), o.remove id)
  | .notify event => (.told (o.deliver event), o)
  | .isEmpty => (.vacant o.isEmpty, o)

/-- Whether a call registers an observer. -/
def Call.isRegistration : Call α ε → Bool
  | register _ => true
  | _ => false

/-- The number of registrations among some calls. -/
def registrations (calls : List (Call α ε)) : ℕ := calls.countP Call.isRegistration

/-- An observer is there after some calls, under a number: its registration has come, of which the
number tells how many there were up to it, and the number was not removed since. -/
def Live (calls : List (Call α ε)) (id : ℕ) (observer : α) : Prop :=
  ∃ before after, calls = before ++ .register observer :: after ∧ registrations before + 1 = id ∧
    .remove id ∉ after

/-- What is asked of an answer. A registration gets the number that tells how many there were up to
it, and takes nobody's place. The observer removed is the one that is there under the number. Each
observer that is there is told of an event once, and nobody else. -/
def Asks (before : List (Call α ε)) : Call α ε → Reply α ε → Prop
  | .register _, reply => reply = .issued (registrations before + 1) none
  | .remove id, reply => ∃ observer?, reply = .removed observer? ∧
      ∀ observer, observer? = some observer ↔ Live before id observer
  | .notify event, reply => ∃ deliveries, reply = .told deliveries ∧ deliveries.Nodup ∧
      ∀ id e, (id, e) ∈ deliveries ↔ e = event ∧ ∃ observer, Live before id observer
  | .isEmpty, reply => ∃ empty, reply = .vacant empty ∧
      (empty = true ↔ ∀ id observer, ¬ Live before id observer)

variable {calls : List (Call α ε)} {id : ℕ} {observer : α} {c : Call α ε}

lemma registrations_concat (calls : List (Call α ε)) (c : Call α ε) :
    registrations (calls ++ [c]) = registrations calls + if c.isRegistration then 1 else 0 := by
  rw [registrations, List.countP_append, List.countP_singleton, registrations]

/-- The observers that are there after one more call: the one it registers, and all others that it
does not remove. -/
lemma live_concat :
    Live (calls ++ [c]) id observer ↔
      (c = .register observer ∧ registrations calls + 1 = id) ∨
        (Live calls id observer ∧ c ≠ .remove id) :=
  Calls.exists_since_concat

/-- Only numbers that were given out already belong to observers. -/
lemma Live.le (h : Live calls id observer) : id ≤ registrations calls := by
  obtain ⟨before, after, rfl, rfl, -⟩ := h
  rw [registrations, registrations, List.countP_append, List.countP_cons_of_pos rfl]
  omega

/-! ### Counters and maps -/

/-- A counter and a map of observers are what some calls have led to. -/
structure Accounts (calls : List (Call α ε)) (counter : ℕ) (find? : ℕ → Option α) : Prop where
  /-- The counter tells how many registrations there were. -/
  counter_eq : counter = registrations calls
  /-- The map has the observers that are there. -/
  find?_eq_some_iff : ∀ id observer, find? id = some observer ↔ Live calls id observer

namespace Accounts

variable {counter : ℕ} {find? : ℕ → Option α}

lemma nil : Accounts ([] : List (Call α ε)) 0 fun _ => (none : Option α) where
  counter_eq := rfl
  find?_eq_some_iff id observer := by
    refine iff_of_false (by simp) ?_
    rintro ⟨before, after, hcalls, -⟩
    exact List.append_ne_nil_of_right_ne_nil before (List.cons_ne_nil _ after) hcalls.symm

variable (h : Accounts calls counter find?)
include h

/-- There is no observer ahead of the counter. -/
lemma next_eq_none : find? (counter + 1) = none := by
  rw [Option.eq_none_iff_forall_ne_some]
  intro observer hfind
  have hle := ((h.find?_eq_some_iff _ _).mp hfind).le
  rw [h.counter_eq] at hle
  omega

/-- A registration puts an observer there. -/
lemma register (observer : α) :
    Accounts (calls ++ [.register observer]) (counter + 1)
      fun id => if id = counter + 1 then some observer else find? id where
  counter_eq := by
    rw [registrations_concat, h.counter_eq]
    rfl
  find?_eq_some_iff id other := by
    rw [live_concat, Call.register.injEq, ← h.counter_eq]
    split_ifs with hid
    · rw [Option.some.injEq]
      constructor
      · rintro rfl
        exact .inl ⟨rfl, hid.symm⟩
      · rintro (⟨rfl, -⟩ | ⟨hlive, -⟩)
        · rfl
        · have hle := hlive.le
          rw [← h.counter_eq] at hle
          omega
    · rw [h.find?_eq_some_iff, or_iff_right fun hnew => hid hnew.2.symm, and_iff_left nofun]

/-- A removal takes one away. -/
lemma remove (k : ℕ) :
    Accounts (calls ++ [.remove k]) counter fun id => if id = k then none else find? id where
  counter_eq := by
    rw [registrations_concat, h.counter_eq]
    rfl
  find?_eq_some_iff id observer := by
    rw [live_concat, or_iff_right (by simp)]
    split_ifs with hid
    · subst hid
      simp
    · rw [h.find?_eq_some_iff, and_iff_left (by simpa using Ne.symm hid)]

/-- Calls that neither register nor remove change nothing. -/
lemma keep (hregister : c.isRegistration = false) (hremove : ∀ k, c ≠ .remove k) :
    Accounts (calls ++ [c]) counter find? where
  counter_eq := by
    rw [registrations_concat, h.counter_eq, hregister]
    rfl
  find?_eq_some_iff id observer := by
    have hnot : c ≠ .register observer := by
      rintro rfl
      cases hregister
    rw [live_concat, or_iff_right fun hnew => hnot hnew.1, and_iff_left (hremove id),
      h.find?_eq_some_iff]

/-- Numbers that occur once each, and those that the map has something for: who has one of them is
told of an event once. -/
lemma asks_told {ids : List ℕ} (hnodup : ids.Nodup)
    (hids : ∀ id, id ∈ ids ↔ ∃ observer, find? id = some observer) (event : ε) :
    Asks calls (.notify event) (.told (ids.map fun id => (id, event))) := by
  refine ⟨_, rfl, hnodup.map fun i j hij => congrArg Prod.fst hij, fun id e => ?_⟩
  simp only [List.mem_map, Prod.mk.injEq, hids, h.find?_eq_some_iff]
  constructor
  · rintro ⟨_, hlive, rfl, rfl⟩
    exact ⟨rfl, hlive⟩
  · rintro ⟨rfl, hlive⟩
    exact ⟨id, hlive, rfl, rfl⟩

lemma asks_vacant {empty : Bool} (hempty : empty = true ↔ ∀ id, find? id = none) :
    Asks calls .isEmpty (.vacant empty) := by
  refine ⟨empty, rfl, hempty.trans (forall_congr' fun id => ?_)⟩
  simp only [Option.eq_none_iff_forall_ne_some, Ne, h.find?_eq_some_iff]

end Accounts

/-! ### Registries -/

section Registry

variable {o : Observers α}

lemma mem_ids_iff : id ∈ o.ids ↔ ∃ observer, o.find? id = some observer := by
  rw [← Option.ne_none_iff_exists', Ne, find?, List.lookup_eq_none_iff, ids, List.mem_map]
  simp only [bne_iff_ne, Ne, not_forall, not_not, exists_prop, @eq_comm _ id]

lemma isEmpty_iff : o.isEmpty = true ↔ ∀ id, o.find? id = none := by
  have hids : o.isEmpty = true ↔ o.ids = [] := by
    rw [isEmpty, List.isEmpty_iff, ids, List.map_eq_nil_iff]
  rw [hids, List.eq_nil_iff_forall_not_mem]
  simp only [mem_ids_iff, not_exists, Option.eq_none_iff_forall_ne_some, Ne]

/-- Where a number is new, it is found for its observer and for no other one. -/
lemma find?_register (h : o.find? (o.issued + 1) = none) (observer : α) (k : ℕ) :
    (o.register observer).find? k = if k = o.issued + 1 then some observer else o.find? k := by
  rw [find?, register, List.lookup_append, List.lookup_cons, List.lookup_nil, ← find?]
  split_ifs with hk
  · subst hk
    rw [h, beq_self_eq_true, Option.none_or]
  · rw [beq_false_of_ne hk, Option.or_none]

/-- A registry keeps account of the calls, under numbers that occur once each, and it answers
accordingly. -/
lemma asks_answer (h : Accounts calls o.issued o.find? ∧ o.ids.Nodup) (c : Call α ε) :
    Asks calls c (o.answer c).1 ∧
      Accounts (calls ++ [c]) (o.answer c).2.issued (o.answer c).2.find? ∧
        (o.answer c).2.ids.Nodup := by
  obtain ⟨haccounts, hnodup⟩ := h
  cases c with
  | register observer =>
      have hnew := haccounts.next_eq_none
      refine ⟨?_, ?_, ?_⟩
      · show Reply.issued (o.issued + 1) (o.find? (o.issued + 1)) = _
        rw [hnew, haccounts.counter_eq]
      · have hfind : (o.register observer).find? = _ := funext (find?_register hnew observer)
        show Accounts _ (o.issued + 1) (o.register observer).find?
        rw [hfind]
        exact haccounts.register observer
      · have hnot : o.issued + 1 ∉ o.ids := by
          rw [mem_ids_iff, hnew]
          simp
        show (o.register observer).ids.Nodup
        rw [ids_register, ← List.concat_eq_append]
        exact hnodup.concat hnot
  | remove id =>
      refine ⟨⟨_, rfl, haccounts.find?_eq_some_iff id⟩, ?_, ?_⟩
      · have hfind : (o.remove id).find? = _ := funext (o.find?_remove id)
        show Accounts _ o.issued (o.remove id).find?
        rw [hfind]
        exact haccounts.remove id
      · show (o.remove id).ids.Nodup
        rw [ids_remove]
        exact hnodup.filter _
  | notify event =>
      refine ⟨?_, haccounts.keep rfl nofun, hnodup⟩
      show Asks calls _ (.told (o.deliver event))
      rw [deliver_eq]
      exact haccounts.asks_told hnodup (fun _ => mem_ids_iff) event
  | isEmpty => exact ⟨haccounts.asks_vacant isEmpty_iff, haccounts.keep rfl nofun, hnodup⟩

end Registry

end Observers

/-! ### Finite maps -/

/-- Finite maps from numbers, as a library has them. -/
structure Directory (M α : Type) where
  /-- The map without entries. -/
  empty : M
  /-- What a map has for a number. -/
  find? : M → ℕ → Option α
  /-- Enters something for a number, and tells what was there before. -/
  insert : M → ℕ → α → Option α × M
  /-- Takes out what a map has for a number, and tells what it was. -/
  remove : M → ℕ → Option α × M
  /-- Whether a map has no entries. -/
  isEmpty : M → Bool
  /-- The entries in an order of its own. -/
  entries : M → List (ℕ × α)

namespace Directory

variable {M α ε : Type} {D : Directory M α}

/-- What is promised of such maps. -/
structure Lawful (D : Directory M α) : Prop where
  /-- The map without entries has nothing for any number. -/
  find?_empty : ∀ k, D.find? D.empty k = none
  /-- Entering something takes the place of what was there. -/
  insert_fst : ∀ m k value, (D.insert m k value).1 = D.find? m k
  /-- Afterwards it is there, and nothing else has changed. -/
  find?_insert : ∀ m k value j,
    D.find? (D.insert m k value).2 j = if j = k then some value else D.find? m j
  /-- What is taken out is what was there. -/
  remove_fst : ∀ m k, (D.remove m k).1 = D.find? m k
  /-- Afterwards it is not there, and nothing else has changed. -/
  find?_remove : ∀ m k j, D.find? (D.remove m k).2 j = if j = k then none else D.find? m j
  /-- A map without entries has nothing for any number. -/
  isEmpty_iff : ∀ m, D.isEmpty m = true ↔ ∀ k, D.find? m k = none
  /-- There is one entry for a number at most. -/
  nodup_entries : ∀ m, ((D.entries m).map Prod.fst).Nodup
  /-- There is one if the map has something for the number. -/
  mem_entries_iff : ∀ m k value, (k, value) ∈ D.entries m ↔ D.find? m k = some value

/-- A registry on a host: the observers in a map, and a counter. -/
structure Registry (M : Type) where
  /-- The observers by their numbers. -/
  observers : M
  /-- The newest number. -/
  counter : ℕ

/-- No observer yet. -/
def start (D : Directory M α) : Registry M := ⟨D.empty, 0⟩

/-- What a registry on a host answers to a call, and the registry afterwards, unless there is no
word for the number that it would have to give. -/
def answer? (D : Directory M α) (s : Registry M) :
    Observers.Call α ε → Option (Observers.Reply α ε × Registry M)
  | .register observer =>
    let counter := s.counter + 1
    if counter < Movement.span then
      let (replaced?, observers) := D.insert s.observers counter observer
      some (.issued counter replaced?, ⟨observers, counter⟩)
    else none
  | .remove id =>
    let (observer?, observers) := D.remove s.observers id
    some (.removed observer?, { s with observers })
  | .notify event => some (.told ((D.entries s.observers).map fun entry => (entry.1, event)), s)
  | .isEmpty => some (.vacant (D.isEmpty s.observers), s)

open Observers (Accounts Asks registrations)

/-- While there is a word for the next number, a registry on a host does not trap, keeps account of
the calls and answers accordingly. -/
lemma exists_answer (hD : D.Lawful) {calls : List (Observers.Call α ε)} {s : Registry M}
    (h : Accounts calls s.counter (D.find? s.observers)) (c : Observers.Call α ε)
    (hspan : registrations (calls ++ [c]) < Movement.span) :
    ∃ reply next, D.answer? s c = some (reply, next) ∧ Asks calls c reply ∧
      Accounts (calls ++ [c]) next.counter (D.find? next.observers) := by
  cases c with
  | register observer =>
      have hword : s.counter + 1 < Movement.span := by
        rwa [Observers.registrations_concat, ← h.counter_eq] at hspan
      have hfind : D.find? (D.insert s.observers (s.counter + 1) observer).2 = _ :=
        funext (hD.find?_insert s.observers (s.counter + 1) observer)
      refine ⟨_, _, if_pos hword, ?_, ?_⟩
      · show Observers.Reply.issued (s.counter + 1) (D.insert s.observers _ observer).1 = _
        rw [hD.insert_fst, h.next_eq_none, h.counter_eq]
      · show Accounts _ (s.counter + 1) (D.find? (D.insert s.observers _ observer).2)
        rw [hfind]
        exact h.register observer
  | remove id =>
      have hfind : D.find? (D.remove s.observers id).2 = _ :=
        funext (hD.find?_remove s.observers id)
      refine ⟨_, _, rfl, ⟨_, rfl, ?_⟩, ?_⟩
      · rw [hD.remove_fst]
        exact h.find?_eq_some_iff id
      · show Accounts _ s.counter (D.find? (D.remove s.observers id).2)
        rw [hfind]
        exact h.remove id
  | notify event =>
      have hids : ∀ id, id ∈ (D.entries s.observers).map Prod.fst ↔
          ∃ observer, D.find? s.observers id = some observer := by
        intro id
        simp only [← hD.mem_entries_iff, List.mem_map, Prod.exists, exists_and_right,
          exists_eq_right]
      have hasks := h.asks_told (hD.nodup_entries s.observers) hids event
      rw [List.map_map] at hasks
      exact ⟨_, s, rfl, hasks, h.keep rfl nofun⟩
  | isEmpty => exact ⟨_, s, rfl, h.asks_vacant (hD.isEmpty_iff s.observers), h.keep rfl nofun⟩

/-- Hash tables are such maps. -/
def ofHashMap (α : Type) : Directory (Std.HashMap ℕ α) α where
  empty := ∅
  find? m k := m[k]?
  insert m k value := (m[k]?, m.insert k value)
  remove m k := (m[k]?, m.erase k)
  isEmpty m := m.isEmpty
  entries m := m.toList

/-- They keep what is promised of such maps. -/
theorem lawful_ofHashMap (α : Type) : (ofHashMap α).Lawful where
  find?_empty _ := Std.HashMap.getElem?_empty
  insert_fst _ _ _ := rfl
  find?_insert m k value j := by
    show (m.insert k value)[j]? = _
    simp only [Std.HashMap.getElem?_insert, beq_iff_eq, @eq_comm _ k]
    rfl
  remove_fst _ _ := rfl
  find?_remove m k j := by
    show (m.erase k)[j]? = _
    simp only [Std.HashMap.getElem?_erase, beq_iff_eq, @eq_comm _ k]
    rfl
  isEmpty_iff m := by
    simp only [ofHashMap, Std.HashMap.isEmpty_iff_forall_not_mem, getElem?_eq_none_iff]
  nodup_entries m := by
    show (m.toList.map Prod.fst).Nodup
    rw [Std.HashMap.map_fst_toList_eq_keys]
    exact Std.HashMap.nodup_keys
  mem_entries_iff _ _ _ := Std.HashMap.mem_toList_iff_getElem?_eq_some

end Directory

/-- Observers keep their numbers. Whatever calls are made to a new registry, each registration gets
the number that tells how many there were up to it, and takes no observer's place. A removal yields
an observer exactly if the number was given out and not removed since, and then the one registered
under it. Each event is told once to every observer that is there and to no other one, and the
registry is empty exactly if none is. A host that keeps the observers in a finite map, and counts in
words, answers in the same way and does not trap, as long as there is a word for the number of
registrations. -/
theorem observers_keep_their_numbers {M α ε : Type} (D : Directory M α) (hD : D.Lawful)
    (calls : List (Observers.Call α ε))
    (hcalls : Observers.registrations calls < Movement.span) :
    Calls.Answered Observers.Asks calls (Calls.run Observers.answer .empty calls).1 ∧
      ∃ replies s, Calls.run? D.answer? D.start calls = some (replies, s) ∧
        Calls.Answered Observers.Asks calls replies := by
  constructor
  · have hempty : Observers.Accounts ([] : List (Observers.Call α ε))
        (Observers.empty : Observers α).issued (Observers.empty : Observers α).find? ∧
          (Observers.empty : Observers α).ids.Nodup := ⟨.nil, List.nodup_nil⟩
    exact (Calls.run_of_history (fun before c o _ h => Observers.asks_answer h c) hempty).2
  · have hempty : Observers.Accounts ([] : List (Observers.Call α ε)) D.start.counter
        (D.find? D.start.observers) := by
      have hfind : D.find? D.empty = _ := funext hD.find?_empty
      show Observers.Accounts [] 0 (D.find? D.empty)
      rw [hfind]
      exact .nil
    obtain ⟨replies, s, hrun, -, hreplies⟩ := Calls.run?_of_history D.answer? Observers.Asks calls
      (fun before c s hbefore h => Directory.exists_answer hD h c
        ((hbefore.sublist.countP_le).trans_lt hcalls)) hempty
    exact ⟨replies, s, hrun, hreplies⟩

/-- Observers in a hash table. The newest one is removed, and so is a number that was never given
out, before another one comes and gets a number of its own. The event goes to those that are left,
in the order of the table. -/
theorem observers_keep_their_numbers_in_hash_table :
    let D := Directory.ofHashMap String
    let calls : List (Observers.Call String ℕ) :=
      [.register "first", .register "second", .remove 2, .remove 7, .register "third", .notify 5]
    D.Lawful ∧ Observers.registrations calls < Movement.span ∧
      ∃ replies s, Calls.run? D.answer? D.start calls = some (replies, s) ∧
        replies[4]? = some (.issued 3 none) ∧
        ∃ deliveries, replies[5]? = some (.told deliveries) ∧ deliveries.Perm [(1, 5), (3, 5)] := by
  intro D calls
  have hD : D.Lawful := Directory.lawful_ofHashMap String
  have hcalls : Observers.registrations calls < Movement.span := by
    have hthree : Observers.registrations calls = 3 := rfl
    rw [hthree, Movement.span]
    omega
  obtain ⟨hmodel, replies, s, hrun, hreplies⟩ := observers_keep_their_numbers D hD calls hcalls
  obtain ⟨_, hissued, rfl⟩ := hreplies.exists_reply (n := 4) rfl
  obtain ⟨_, htold, deliveries, rfl, hnodup, hmem⟩ := hreplies.exists_reply (n := 5) rfl
  -- the registry without a host tells the same observers, in the order of their numbers
  obtain ⟨_, heq, hnodup', hmem'⟩ := hmodel.2 5 (.notify 5) (.told [(1, 5), (3, 5)]) rfl rfl
  cases heq
  refine ⟨hD, hcalls, replies, s, hrun, hissued, deliveries, htold, ?_⟩
  exact (List.perm_ext_iff_of_nodup hnodup hnodup').mpr fun delivery =>
    (hmem delivery.1 delivery.2).trans (hmem' delivery.1 delivery.2).symm

end ChipEight
