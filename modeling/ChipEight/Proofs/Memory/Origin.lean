import Mathlib.Data.List.GetD
import Mathlib.Tactic
import ChipEight.Proofs.Cycle.Executed

/-!
Where the bytes in memory come from.

A booted machine holds the font, its program and zeros. After that only two instructions write:
one stores the decimal digits of a register, the other a run of registers.

* `Memory.byteAt_initial`: a new memory.
* `Rom.ofBytes_eq_ok_iff`, `byteAt_image_eq`: which bytes are a program, and the memory of a
  machine that is about to run it.
* `Store`, `Memory.replay`, `byteAt_replay`: bytes written from an address on, and the memory
  after several such stores: each byte is that of the last store that covers its address.
* `stored?`, `memory_act`, `memory_actAll`: what an action stores, and that nothing else changes
  the memory in a run. `stores_of_readRun` computes what a program stores from its text.
* `memory_has_known_origin`: all of it, from the bytes of the program on.
-/

namespace ChipEight

/-! ### Programs in memory -/

/-- A new memory holds the font, and zeros behind it. -/
lemma Memory.byteAt_initial {a : ℕ} (ha : a < 4096) : initial.byteAt a = Font.glyphs.getD a 0 := by
  rw [initial, byteAt_overlay _ _ _ ha, if_pos (Nat.zero_le a), byteAt_zero, Nat.sub_zero,
    List.getD_eq_getElem?_getD]

namespace Rom

/-- Bytes are a program exactly if there is room for them. -/
lemma ofBytes_eq_ok_iff {name : String} {data : List UInt8} {rom : Rom} :
    ofBytes name data = .ok rom ↔ data.length ≤ 3584 ∧ rom.name = name ∧ rom.data = data := by
  obtain ⟨romName, romData, hfits⟩ := rom
  rw [ofBytes]
  constructor
  · intro h
    split at h
    · next hlength =>
        cases h
        exact ⟨hlength, rfl, rfl⟩
    · cases h
  · rintro ⟨hlength, rfl, rfl⟩
    exact dif_pos hlength

/-- The font comes first, the program starts at `0x200`, and everything else is zero. -/
lemma byteAt_image_eq (rom : Rom) {a : ℕ} (ha : a < 4096) :
    rom.image.byteAt a =
      if a < 80 then Font.glyphs.getD a 0
      else if 0x200 ≤ a then rom.data.getD (a - 0x200) 0
      else 0 := by
  have hglyphs : Font.glyphs.length = 80 := rfl
  have hbehind : 80 ≤ a → Font.glyphs.getD a 0 = 0 := fun h => List.getD_eq_default _ _ h
  rw [image, Memory.byteAt_overlay _ _ _ ha, Memory.programStart, Memory.byteAt_initial ha]
  by_cases hprogram : 0x200 ≤ a
  · have hfont : ¬ a < 80 := by omega
    rw [if_pos hprogram, if_neg hfont, if_pos hprogram, hbehind (by omega),
      List.getD_eq_getElem?_getD]
  · rw [if_neg hprogram, if_neg hprogram]
    split
    · rfl
    · exact hbehind (by omega)

end Rom

/-! ### Stores -/

/-- Bytes that are written from an address on. -/
structure Store where
  /-- Where the first byte goes. -/
  address : ℕ
  /-- The bytes. -/
  bytes : List UInt8

namespace Store

/-- The byte that a store leaves at an address, if it covers the address. -/
def byte? (s : Store) (a : ℕ) : Option UInt8 :=
  if s.address ≤ a then s.bytes[a - s.address]? else none

/-- The byte that several stores leave at an address: that of the last one that covers it. -/
def lastByte? (stores : List Store) (a : ℕ) : Option UInt8 :=
  stores.reverse.findSome? fun s => s.byte? a

lemma lastByte?_concat (stores : List Store) (s : Store) (a : ℕ) :
    lastByte? (stores ++ [s]) a = (s.byte? a).or (lastByte? stores a) := by
  rw [lastByte?, List.reverse_append, List.reverse_singleton, List.singleton_append,
    List.findSome?_cons]
  cases s.byte? a <;> rfl

end Store

namespace Memory

/-- The memory after some stores, one after another. -/
def replay (m : Memory) (stores : List Store) : Memory :=
  stores.foldl (fun k s => k.overlay s.address s.bytes) m

lemma replay_append (m : Memory) (front rest : List Store) :
    m.replay (front ++ rest) = (m.replay front).replay rest :=
  List.foldl_append

/-- Every byte is that of the last store that covers it, and untouched if there is none. -/
theorem byteAt_replay (m : Memory) (stores : List Store) {a : ℕ} (ha : a < 4096) :
    (m.replay stores).byteAt a = (Store.lastByte? stores a).getD (m.byteAt a) := by
  induction stores using List.reverseRecOn with
  | nil => rfl
  | append_singleton stores s ih =>
      rw [replay_append]
      show ((m.replay stores).overlay s.address s.bytes).byteAt a = _
      rw [byteAt_overlay _ _ _ ha, ih, Store.lastByte?_concat, Store.byte?]
      split
      · cases s.bytes[a - s.address]? <;> rfl
      · rfl

end Memory

namespace Machine

variable {m : Machine} {i : Instruction Register}

/-! ### What cycles store -/

/-- What an action stores: a cycle that executes one of the two storing instructions stores at the
index register, the others nothing. -/
def stored? (m : Machine) : Action → Option Store
  | .cycle =>
    match m.executed? with
    | some (.storeDigits x) =>
      some ⟨m.index, [m.reg x / 100, m.reg x / 10 % 10, m.reg x % 10]⟩
    | some (.storeRegisters x) => some ⟨m.index, m.registers.upTo x⟩
    | _ => none
  | _ => none

/-- What a run stores, in order. -/
def stores (m : Machine) (run : List Action) : List Store := m.collect stored? run

/-- What an instruction stores. -/
def storeOf? (m : Machine) : Instruction Register → Option Store
  | .storeDigits x => some ⟨m.index, decimalDigits (m.reg x)⟩
  | .storeRegisters x => some ⟨m.index, m.registers.upTo x⟩
  | _ => none

lemma stored?_eq (m : Machine) (a : Action) : m.stored? a = (m.executedBy? a).bind m.storeOf? := by
  cases a with
  | cycle =>
      rw [stored?, executedBy?]
      cases m.executed? with
      | none => rfl
      | some i => cases i <;> rfl
  | _ => rfl

/-- What a run stores, from the text of the program. -/
lemma stores_of_readRun {rom : Rom} {run : List Action} {k : Machine}
    {trail : List (Machine × Instruction Register)} (hprogram : m.HoldsProgram rom)
    (hrun : m.readRun? rom run = some (trail, k)) :
    m.stores run = trail.filterMap fun step => step.1.storeOf? step.2 :=
  collect_of_readRun storeOf? stored?_eq hprogram hrun

/-- An action changes the memory by what it stores. -/
lemma memory_act (m : Machine) (a : Action) :
    (m.act a).memory = m.memory.replay (m.stored? a).toList := by
  cases a with
  | cycle =>
      show m.cycle.machine.memory = _
      rw [stored?]
      cases hexecuted : m.executed? with
      | none =>
          obtain ⟨word, counter, hmachine⟩ := machine_of_crashed hexecuted
          rw [hmachine]
          rfl
      | some i =>
          rw [memory_of_executed hexecuted]
          cases i <;> rfl
  | _ => rfl

/-- What a cycle stores lies inside the memory. -/
lemma stored?_fits {s : Store} {a : Action} (h : m.stored? a = some s) :
    s.address + s.bytes.length ≤ 4096 := by
  cases a with
  | cycle =>
      rw [stored?] at h
      split at h
      · next x hexecuted =>
          cases h
          obtain ⟨e, hexecute, -⟩ := execute_of_executed hexecuted
          obtain ⟨memory, hwrite, -⟩ := execute_storeDigits_ok hexecute
          exact (Memory.write_eq_ok_iff.mp hwrite).1
      · next x hexecuted =>
          cases h
          obtain ⟨e, hexecute, -⟩ := execute_of_executed hexecuted
          obtain ⟨memory, hwrite, -⟩ := execute_storeRegisters_ok hexecute
          exact (Memory.write_eq_ok_iff.mp hwrite).1
      · cases h
  | _ => cases h

/-! ### Runs -/

/-- A run changes the memory by what it stores. -/
theorem memory_actAll (m : Machine) (run : List Action) :
    (m.actAll run).memory = m.memory.replay (m.stores run) := by
  induction run using List.reverseRecOn with
  | nil => rfl
  | append_singleton run a ih =>
      rw [actAll_concat, memory_act, ih, stores, stores, collect_concat, Memory.replay_append]

lemma stores_fit (m : Machine) (run : List Action) :
    ∀ s ∈ m.stores run, s.address + s.bytes.length ≤ 4096 := by
  induction run using List.reverseRecOn with
  | nil =>
      intro s hs
      cases hs
  | append_singleton run a ih =>
      intro s hs
      rw [stores, collect_concat, ← stores, List.mem_append, Option.mem_toList] at hs
      rcases hs with hs | hs
      · exact ih s hs
      · exact stored?_fits hs

end Machine

/-- Every byte in memory has a known origin. Bytes are a program exactly if there are at most 3584
of them, and then booting cannot fail. The memory starts as the font, the program from `0x200` on
and zeros. After any run each byte is that of the last store that covers it, or the one from the
start if there is none; the stores are those of the cycles that execute a storing instruction, in
order, and lie inside the memory. A cycle fetches its word from the memory as it is then. -/
theorem memory_has_known_origin (name : String) (data : List UInt8) :
    ((∃ rom, Rom.ofBytes name data = .ok rom) ↔ data.length ≤ 3584) ∧
    ∀ rom, Rom.ofBytes name data = .ok rom → ∀ config random run,
      let start := Machine.boot rom config random
      let stores := start.stores run
      let m := start.actAll run
      Memory.initial.load data = .ok start.memory ∧
      (∀ a < 4096, start.memory.byteAt a =
        if a < 80 then Font.glyphs.getD a 0
        else if 0x200 ≤ a then data.getD (a - 0x200) 0
        else 0) ∧
      m.memory = start.memory.replay stores ∧
      (∀ a < 4096, m.memory.byteAt a =
        (Store.lastByte? stores a).getD (start.memory.byteAt a)) ∧
      (∀ s ∈ stores, s.address + s.bytes.length ≤ 4096) ∧
      (m.counter ≤ 0xFFE → m.cycle.machine.opcode =
        Opcode.ofBytes ((start.memory.replay stores).byteAt m.counter)
          ((start.memory.replay stores).byteAt (m.counter + 1))) := by
  constructor
  · constructor
    · rintro ⟨rom, hrom⟩
      exact (Rom.ofBytes_eq_ok_iff.mp hrom).1
    · intro hlength
      exact ⟨⟨name, data, hlength⟩, Rom.ofBytes_eq_ok_iff.mpr ⟨hlength, rfl, rfl⟩⟩
  · intro rom hrom config random run start stores m
    obtain ⟨-, -, rfl⟩ := Rom.ofBytes_eq_ok_iff.mp hrom
    have hmemory : m.memory = start.memory.replay stores := start.memory_actAll run
    refine ⟨rom.load_eq_image, fun a ha => rom.byteAt_image_eq ha, hmemory, fun a ha => ?_,
      start.stores_fit run, fun hcounter => ?_⟩
    · rw [hmemory, Memory.byteAt_replay _ _ ha]
    · rw [Machine.opcode_cycle hcounter, Machine.nextWord, hmemory]

/-- A program that overwrites its first three bytes with digits: they are from the store, and the
fourth is from the program. -/
theorem memory_has_known_origin_of_digits :
    let data : List UInt8 := [0xA2, 0x00, 0xF0, 0x33]
    let rom : Rom := ⟨"DIGITS", data, by decide⟩
    let start := Machine.boot rom {} (.cycling #[])
    let run : List Action := [.cycle, .cycle]
    Rom.ofBytes "DIGITS" data = .ok rom ∧ start.stores run = [⟨0x200, [0, 0, 0]⟩] ∧
      (start.actAll run).memory.byteAt 0x200 = 0 ∧
      (start.actAll run).memory.byteAt 0x203 = 0x33 := by
  intro data rom start run
  have hrom : Rom.ofBytes "DIGITS" data = .ok rom := Rom.ofBytes_eq_ok_iff.mpr ⟨by decide, rfl, rfl⟩
  -- the machine before the second cycle, whose store goes over the program
  obtain ⟨hfirst, ⟨hcounter, hnext⟩, hindex, hregister⟩ :
      start.stores [.cycle] = [] ∧
        ((start.actAll [.cycle]).counter ≤ 0xFFE ∧ (start.actAll [.cycle]).nextWord = 0xF033) ∧
        (start.actAll [.cycle]).index = 0x200 ∧ (start.actAll [.cycle]).reg .first = 0 := by
    have hprogram : start.HoldsProgram rom := Machine.holdsProgram_of_image rfl
    subst start rom data
    refine ⟨(Machine.stores_of_readRun hprogram rfl).trans rfl,
      Machine.nextWord_of_readRun hprogram rfl rfl, ?_, ?_⟩
    · rw [Machine.actAll_of_readRun hprogram rfl]
      rfl
    · rw [Machine.actAll_of_readRun hprogram rfl]
      rfl
  have hsecond : (start.actAll [.cycle]).executed? = some (.storeDigits .first) :=
    Machine.executed?_of_extent hcounter (by rw [hnext]; rfl) rfl (by rw [hindex]; decide)
  have hstores : start.stores run = [⟨0x200, [0, 0, 0]⟩] := by
    have hrun : run = [.cycle] ++ [.cycle] := rfl
    rw [hrun, Machine.stores, Machine.collect_concat, ← Machine.stores, hfirst, Machine.stored?_eq,
      Machine.executedBy?, hsecond, Option.bind_some, Machine.storeOf?, hindex, hregister]
    rfl
  have horigin := ((memory_has_known_origin "DIGITS" data).2 rom hrom {} (.cycling #[]) run).2
  obtain ⟨hstart, -, hbytes, -⟩ := horigin
  refine ⟨hrom, hstores, ?_, ?_⟩
  · rw [hbytes 0x200 (by decide), hstores]
    rfl
  · rw [hbytes 0x203 (by decide), hstores, hstart 0x203 (by decide)]
    rfl

end ChipEight
