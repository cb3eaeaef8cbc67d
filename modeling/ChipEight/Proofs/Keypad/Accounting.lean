import Mathlib.Data.List.DropRight
import Mathlib.Tactic
import ChipEight.Proofs.Cycle.Executed

/-!
Key presses are neither lost nor reported twice.

A press of a key that is not pending is accepted; sooner or later an instruction may report the
key to the program, by a skip that tells that it was pressed or by putting it into a register.

* `accepted?`, `reported?`: the code that an action accepts or reports. What is reported is told
  from what the program can notice: where its counter goes, and what it finds in the register.
* `KeypadStep`, `keypadStep`: an action queues the code it accepts, or takes the code it reports
  out of the queue, or leaves the pending keys alone.
* `count_actAll`: the books balance over every run.
* `queued_actAll`: pending keys stand in the order in which they were accepted last.
* `presses_are_reported_once`: both, for every run from the boot on.
-/

namespace ChipEight

/-! ### Pending codes -/

namespace Keypad

/-- The codes of the pending keys, the oldest press first. -/
def codes (k : Keypad) : List UInt8 := k.pending.map Key.code

lemma code_eq_iff {key : Key} {code : UInt8} : key.code = code ↔ key.val = code.toNat := by
  have hkey := key.isLt
  rw [← UInt8.toNat_inj, Key.code, UInt8.toNat_ofNat']
  omega

lemma code_injective : Function.Injective Key.code := by
  intro first second h
  have hsecond := second.isLt
  rw [code_eq_iff, Key.code, UInt8.toNat_ofNat'] at h
  exact Fin.ext (by omega)

lemma nodup_codes (k : Keypad) : k.codes.Nodup := k.nodup.map code_injective

lemma holds_iff {k : Keypad} {code : UInt8} : k.holds code = true ↔ code ∈ k.codes := by
  simp [holds, codes, code_eq_iff]

lemma codes_release (k : Keypad) (code : UInt8) :
    (k.release code).codes = k.codes.filter (· != code) := by
  rw [codes, pending_release, codes, List.filter_map]
  refine congrArg _ (List.filter_congr fun key _ => ?_)
  rw [Function.comp_apply, Bool.eq_iff_iff, bne_iff_ne, bne_iff_ne, ne_eq, ne_eq, code_eq_iff]

/-- A press queues its code behind the others, unless it is pending or no key has it. -/
lemma codes_press (k : Keypad) (code : UInt8) :
    (k.press code).codes =
      if code.toNat < 16 ∧ k.holds code = false then k.codes ++ [code] else k.codes := by
  by_cases hlt : code.toNat < 16
  · obtain ⟨key, hkey, hcode⟩ : ∃ key, Key.ofCode? code = some key ∧ key.code = code :=
      ⟨⟨_, hlt⟩, dif_pos hlt, code_eq_iff.mpr rfl⟩
    have hmem : k.holds code = true ↔ key ∈ k.pending := by
      rw [holds_iff, codes, ← hcode, List.mem_map_of_injective code_injective]
    rw [press_eq_insert hkey]
    cases hholds : k.holds code with
    | true => rw [insert_of_mem (hmem.mp hholds), if_neg (by simp)]
    | false =>
        have hnot : key ∉ k.pending := by simp [← hmem, hholds]
        rw [codes, pending_insert_of_not_mem hnot, if_pos ⟨hlt, rfl⟩]
        simp [codes, hcode]
  · have hkey : Key.ofCode? code = none := dif_neg hlt
    rw [press_eq_self hkey, if_neg fun h => hlt h.1]

lemma codes_of_popEarliest {k rest : Keypad} {key : Key} (h : k.popEarliest = some (key, rest)) :
    k.codes = key.code :: rest.codes := by
  rw [codes, popEarliest_eq_some_iff.mp h, List.map_cons, codes]

/-- To pop a key is to release it. -/
lemma codes_filter_of_popEarliest {k rest : Keypad} {key : Key}
    (h : k.popEarliest = some (key, rest)) : k.codes.filter (· != key.code) = rest.codes := by
  have hcodes := codes_of_popEarliest h
  have hnodup := k.nodup_codes
  rw [hcodes, List.nodup_cons] at hnodup
  rw [hcodes, List.filter_cons_of_neg (by simp), List.filter_eq_self]
  intro code hcode
  rw [bne_iff_ne]
  rintro rfl
  exact hnodup.1 hcode

end Keypad

/-! ### Accepted and reported codes -/

namespace Machine

/-- The code that an action brings into the queue of pending keys. -/
def accepted? (m : Machine) : Action → Option UInt8
  | .press code => if code.toNat < 16 ∧ m.keypad.holds code = false then some code else none
  | _ => none

/-- The code that an action reports to the program as that of a pressed key: a skip on a key
reports it if the counter goes on as it does for a pressed key, and waiting for a key reports what
it puts into the register. -/
def reported? (m : Machine) : Action → Option UInt8
  | .cycle =>
    match m.executed? with
    | some (.skip (.key x) expected) =>
      if decide (m.cycle.machine.counter = m.counter + 4) = expected then some (m.reg x) else none
    | some (.awaitKey x) =>
      match m.cycle.result with
      | .ok .wait => none
      | _ => some (m.cycle.machine.reg x)
    | _ => none
  | _ => none

/-- The codes that a run accepts, in order. -/
def accepted (m : Machine) (run : List Action) : List UInt8 := m.collect accepted? run

/-- The codes that a run reports, in order. -/
def reported (m : Machine) (run : List Action) : List UInt8 := m.collect reported? run

variable {m : Machine} {a : Action}

/-- What an action can do to the pending keys. -/
inductive KeypadStep (m : Machine) (a : Action) : Prop where
  | accepts (code : UInt8) (haccepted : m.accepted? a = some code)
      (hreported : m.reported? a = none) (hnot : code ∉ m.keypad.codes)
      (hcodes : (m.act a).keypad.codes = m.keypad.codes ++ [code])
  | reports (code : UInt8) (haccepted : m.accepted? a = none)
      (hreported : m.reported? a = some code) (hmem : code ∈ m.keypad.codes)
      (hcodes : (m.act a).keypad.codes = m.keypad.codes.filter (· != code))
  | keeps (haccepted : m.accepted? a = none) (hreported : m.reported? a = none)
      (hcodes : (m.act a).keypad.codes = m.keypad.codes)

/-- A skip on a key reports the key exactly if it is pending. -/
lemma reported?_of_skip {x : Register} {expected : Bool}
    (h : m.executed? = some (.skip (.key x) expected)) :
    m.reported? .cycle = if m.keypad.holds (m.reg x) then some (m.reg x) else none := by
  have hcounter : m.cycle.machine.counter =
      (Movement.skipIf (m.keypad.holds (m.reg x) == expected)).apply (m.counter + 2) :=
    counter_of_executed h
  simp only [reported?, h, hcounter]
  cases m.keypad.holds (m.reg x) <;> cases expected <;> simp [Movement.skipIf]

/-- Waiting for a key reports the key pressed first, if any is pending. -/
lemma reported?_of_awaitKey {x : Register} (h : m.executed? = some (.awaitKey x)) :
    m.reported? .cycle = m.keypad.popEarliest.map fun popped => popped.1.code := by
  obtain ⟨e, hexecute, hresult, hmachine⟩ := execute_of_executed h
  simp only [reported?, h, hresult, hmachine]
  obtain ⟨key, rest, hpop, rfl⟩ | ⟨hpop, rfl⟩ := execute_awaitKey_ok hexecute
  · have hsame : m.keypad.popEarliest = some (key, rest) := hpop
    simp [hsame, settle, reg, setReg]
  · have hsame : m.keypad.popEarliest = none := hpop
    simp [hsame]

lemma keypadStep_of_skip {x : Register} {expected : Bool}
    (h : m.executed? = some (.skip (.key x) expected)) : KeypadStep m .cycle := by
  have hreported := reported?_of_skip h
  have hkeypad : (m.act .cycle).keypad = m.keypad.release (m.reg x) := keypad_of_executed h
  cases hholds : m.keypad.holds (m.reg x) with
  | true =>
      rw [if_pos hholds] at hreported
      refine .reports _ rfl hreported (Keypad.holds_iff.mp hholds) ?_
      rw [hkeypad, Keypad.codes_release]
  | false =>
      rw [if_neg (by simp [hholds])] at hreported
      refine .keeps rfl hreported ?_
      rw [hkeypad, Keypad.release_eq_self hholds]

lemma keypadStep_of_awaitKey {x : Register} (h : m.executed? = some (.awaitKey x)) :
    KeypadStep m .cycle := by
  have hreported := reported?_of_awaitKey h
  have hkeypad : (m.act .cycle).keypad = (m.keypad.popEarliest.map Prod.snd).getD m.keypad :=
    keypad_of_executed h
  cases hpop : m.keypad.popEarliest with
  | none =>
      rw [hpop] at hreported hkeypad
      exact .keeps rfl hreported (by rw [hkeypad]; rfl)
  | some popped =>
      obtain ⟨key, rest⟩ := popped
      rw [hpop] at hreported hkeypad
      refine .reports key.code rfl hreported ?_ ?_
      · rw [Keypad.codes_of_popEarliest hpop]
        exact List.mem_cons_self
      · rw [hkeypad, Keypad.codes_filter_of_popEarliest hpop]
        rfl

lemma keypadStep (m : Machine) (a : Action) : KeypadStep m a := by
  cases a with
  | press code =>
      have hcodes := m.keypad.codes_press code
      by_cases h : code.toNat < 16 ∧ m.keypad.holds code = false
      · rw [if_pos h] at hcodes
        exact .accepts code (if_pos h) rfl (by simp [← Keypad.holds_iff, h.2]) hcodes
      · rw [if_neg h] at hcodes
        exact .keeps (if_neg h) rfl hcodes
  | cycle =>
      cases hexecuted : m.executed? with
      | none =>
          refine .keeps rfl (by simp only [reported?, hexecuted]) ?_
          obtain ⟨word, counter, hmachine⟩ := machine_of_crashed hexecuted
          rw [act, hmachine]
      | some i =>
          have hkeypad : (m.act .cycle).keypad = (m.fetched m.nextWord).keypadAfter i :=
            keypad_of_executed hexecuted
          have hkept : m.reported? .cycle = none →
              (m.fetched m.nextWord).keypadAfter i = m.keypad → KeypadStep m .cycle :=
            fun hreported hsame => .keeps rfl hreported (by rw [hkeypad, hsame])
          cases i with
          | skip test expected =>
              cases test with
              | key x => exact keypadStep_of_skip hexecuted
              | _ => exact hkept (by simp only [reported?, hexecuted]) rfl
          | awaitKey x => exact keypadStep_of_awaitKey hexecuted
          | _ => exact hkept (by simp only [reported?, hexecuted]) rfl
  | _ => exact .keeps rfl rfl rfl

/-! ### Runs -/

/-- What an action accepts is pending after it, and what it reports was pending before it. -/
lemma count_act (m : Machine) (a : Action) (code : UInt8) :
    (m.reported? a).toList.count code + (m.act a).keypad.codes.count code =
      m.keypad.codes.count code + (m.accepted? a).toList.count code := by
  cases m.keypadStep a with
  | accepts other haccepted hreported hnot hcodes =>
      rw [haccepted, hreported, hcodes, List.count_append]
      exact Nat.zero_add _
  | reports other haccepted hreported hmem hcodes =>
      have herase := m.keypad.nodup_codes.erase_eq_filter other
      rw [haccepted, hreported, hcodes, ← herase, ← List.count_append]
      exact ((List.perm_cons_erase hmem).count_eq code).symm
  | keeps haccepted hreported hcodes =>
      rw [haccepted, hreported, hcodes]
      exact Nat.zero_add _

/-- The books balance: what was pending and what is accepted is either reported or pending. -/
theorem count_actAll (m : Machine) (run : List Action) (code : UInt8) :
    (m.reported run).count code + (m.actAll run).keypad.codes.count code =
      m.keypad.codes.count code + (m.accepted run).count code := by
  induction run using List.reverseRecOn with
  | nil => simp [reported, accepted]
  | append_singleton run a ih =>
      have hstep := (m.actAll run).count_act a code
      rw [reported, accepted, collect_concat, collect_concat, ← reported, ← accepted,
        actAll_concat, List.count_append, List.count_append]
      omega

/-! ### The order of pending keys -/

/-- Codes stand in the order in which a history has them last: each one occurs again after the
last occurrence of every code in front of it. -/
def Queued (history codes : List UInt8) : Prop :=
  codes.Pairwise fun first second => second ∈ history.rtakeWhile (· != first)

lemma Queued.act {history : List UInt8} (h : Queued history m.keypad.codes) (a : Action) :
    Queued (history ++ (m.accepted? a).toList) (m.act a).keypad.codes := by
  cases m.keypadStep a with
  | accepts other haccepted hreported hnot hcodes =>
      -- the new code comes after all others, and pushes none of them out
      have hlast : ∀ first ∈ m.keypad.codes, (history ++ [other]).rtakeWhile (· != first) =
          history.rtakeWhile (· != first) ++ [other] := by
        intro first hfirst
        refine List.rtakeWhile_concat_pos _ _ _ ?_
        rw [bne_iff_ne]
        rintro rfl
        exact hnot hfirst
      rw [haccepted, hcodes]
      refine List.pairwise_append.mpr ⟨h.imp_of_mem ?_, List.pairwise_singleton _ _, ?_⟩
      · intro first second hfirst hsecond hafter
        show second ∈ (history ++ [other]).rtakeWhile _
        rw [hlast first hfirst]
        exact List.mem_append_left _ hafter
      · intro first hfirst second hsecond
        rw [List.mem_singleton.mp hsecond]
        show other ∈ (history ++ [other]).rtakeWhile _
        rw [hlast first hfirst]
        exact List.mem_append_right _ (List.mem_singleton_self _)
  | reports other haccepted hreported hmem hcodes =>
      rw [haccepted, hcodes, Option.toList_none, List.append_nil]
      exact h.filter _
  | keeps haccepted hreported hcodes =>
      rw [haccepted, hcodes, Option.toList_none, List.append_nil]
      exact h

/-- Pending keys stand in the order in which they were accepted last. -/
theorem queued_actAll (h : m.keypad.codes = []) (run : List Action) :
    Queued (m.accepted run) (m.actAll run).keypad.codes := by
  induction run using List.reverseRecOn with
  | nil =>
      rw [actAll_nil, h]
      exact List.Pairwise.nil
  | append_singleton run a ih =>
      rw [accepted, collect_concat, ← accepted, actAll_concat]
      exact ih.act a

end Machine

/-- The part of a list behind the last occurrence of an entry. -/
lemma exists_append_cons_rtakeWhile {history : List UInt8} {code : UInt8} (h : code ∈ history) :
    ∃ before, history = before ++ code :: history.rtakeWhile (· != code) := by
  induction history using List.reverseRecOn with
  | nil => cases h
  | append_singleton history last ih =>
      by_cases hlast : last = code
      · subst hlast
        exact ⟨history, by rw [List.rtakeWhile_concat_neg _ _ _ (by simp)]⟩
      · have hcode : code ∈ history := by
          rcases List.mem_append.mp h with h | h
          · exact h
          · exact absurd (List.mem_singleton.mp h).symm hlast
        obtain ⟨before, hbefore⟩ := ih hcode
        refine ⟨before, ?_⟩
        rw [List.rtakeWhile_concat_pos _ _ _ (by simpa using hlast)]
        conv_lhs => rw [hbefore]
        simp

/-- Every key press that is accepted is reported once, or is still pending: over every run from
the boot on and for every key code, as many presses are accepted as are reported, and one more if
the key is pending. Where an instruction waits for a key and gets one, it gets the pending key
that was accepted first: every other pending key was accepted after it. -/
theorem presses_are_reported_once (rom : Rom) (config : Config) (random : RandomSource)
    (run : List Action) :
    let start := Machine.boot rom config random
    let m := start.actAll run
    (∀ code, (start.accepted run).count code =
      (start.reported run).count code + if m.keypad.holds code then 1 else 0) ∧
    ∀ x code, m.executed? = some (.awaitKey x) → m.reported? .cycle = some code →
      m.keypad.holds code ∧
      ∃ before after, start.accepted run = before ++ code :: after ∧ code ∉ after ∧
        ∀ other, m.keypad.holds other → other ≠ code → other ∈ after := by
  intro start m
  have hcounts : ∀ code, (start.accepted run).count code =
      (start.reported run).count code + m.keypad.codes.count code := by
    intro code
    have hcount : (start.reported run).count code + m.keypad.codes.count code =
        start.keypad.codes.count code + (start.accepted run).count code :=
      start.count_actAll run code
    have hempty : start.keypad.codes.count code = 0 := rfl
    omega
  refine ⟨fun code => ?_, fun x code hexecuted hreported => ?_⟩
  · rw [hcounts, List.Nodup.count m.keypad.nodup_codes]
    simp only [Keypad.holds_iff]
  · rw [Machine.reported?_of_awaitKey hexecuted, Option.map_eq_some_iff] at hreported
    obtain ⟨⟨key, rest⟩, hpop, rfl⟩ := hreported
    have hcodes := Keypad.codes_of_popEarliest hpop
    have hmem : key.code ∈ m.keypad.codes := hcodes ▸ List.mem_cons_self
    have haccepted : key.code ∈ start.accepted run := by
      have hpositive := List.count_pos_iff.mpr hmem
      exact List.count_pos_iff.mp (by rw [hcounts]; omega)
    have hqueued : Machine.Queued (start.accepted run) m.keypad.codes :=
      Machine.queued_actAll rfl run
    obtain ⟨before, hbefore⟩ := exists_append_cons_rtakeWhile haccepted
    refine ⟨Keypad.holds_iff.mpr hmem, before, _, hbefore, ?_, ?_⟩
    · intro hagain
      simpa using List.mem_rtakeWhile_imp hagain
    · intro other hother hne
      rw [Keypad.holds_iff, hcodes, List.mem_cons] at hother
      rw [hcodes] at hqueued
      exact (List.pairwise_cons.mp hqueued).1 other (hother.resolve_left hne)

/-- The key pressed first is taken and pressed again: the next key taken is the other one, whose
press is the older one by then. -/
theorem presses_are_reported_once_at_repeated_press :
    let rom : Rom := ⟨"KEYS", [0xF0, 0x0A, 0xF0, 0x0A], by decide⟩
    let start := Machine.boot rom {} (.cycling #[])
    let run : List Action := [.press 1, .press 2, .cycle, .press 1]
    let m := start.actAll run
    m.executed? = some (.awaitKey .first) ∧ m.reported? .cycle = some 2 ∧
      m.keypad.holds 2 ∧
      ∃ before after, start.accepted run = before ++ 2 :: after ∧ (2 : UInt8) ∉ after ∧
        ∀ other, m.keypad.holds other → other ≠ 2 → other ∈ after := by
  intro rom start run m
  -- the first wait takes the key pressed first, and the second one comes next
  obtain ⟨hexecuted, holdest⟩ : m.executed? = some (.awaitKey .first) ∧
      m.keypad.popEarliest.map (fun popped => popped.1.code) = some 2 := by
    have hprogram : start.HoldsProgram rom := Machine.holdsProgram_of_image rfl
    subst m run start rom
    refine ⟨Machine.executed?_of_readRun hprogram rfl rfl, ?_⟩
    rw [Machine.actAll_of_readRun hprogram rfl]
    rfl
  have hreported : m.reported? .cycle = some 2 := by
    rw [Machine.reported?_of_awaitKey hexecuted, holdest]
  exact ⟨hexecuted, hreported,
    (presses_are_reported_once rom {} (.cycling #[]) run).2 .first 2 hexecuted hreported⟩

end ChipEight
