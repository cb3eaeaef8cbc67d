import Mathlib.Tactic
import ChipEight.Proofs.InPlace.Calls
import ChipEight.Proofs.Memory.Origin

/-!
The memory as a map of bytes.

* `Call`, `Reply`, `answer`: what can be asked of a memory in words of 64 bits, and what it answers.
* `latest`, `byteAt_run`: the byte that calls have written last at an address, and that it is the
  one in the memory.
* `ActsAs`, `actsAs`: how a memory with some bytes has to answer, and that every memory does.
* `Word.sum?`, `Word.less`: arithmetic without wrapping.
* `hostAnswer?`: the same calls on a host, which computes with words and traps when it cuts a piece
  out of its bytes that is not there. `hostAnswer?_eq`: it never does, and answers as the memory
  does.
* `memory_is_a_byte_map`: both, after any calls to a new memory.
-/

namespace ChipEight

namespace Memory

/-! ### Calls -/

/-- What can be asked of a memory. -/
inductive Call where
  /-- To load a program. -/
  | load (program : List UInt8)
  /-- To write bytes from an address on. -/
  | write (address : UInt64) (bytes : List UInt8)
  /-- To read some bytes from an address on. -/
  | read (address length : UInt64)
  /-- To fetch the word at an address. -/
  | fetch (address : UInt64)

/-- What a memory can answer. -/
inductive Reply where
  /-- That all was written. -/
  | done
  /-- The bytes asked for. -/
  | bytes (bytes : List UInt8)
  /-- The word asked for. -/
  | word (word : Opcode)
  /-- That a program does not fit. -/
  | tooLarge (fault : RomFault)
  /-- That an access is not inside the memory. -/
  | outside (fault : AccessFault)
  /-- That there is no word. -/
  | noWord (fault : OpcodeFault)
deriving DecidableEq

/-- Whether a call failed. -/
def Reply.isFailure : Reply → Bool
  | tooLarge _ => true
  | outside _ => true
  | noWord _ => true
  | _ => false

/-- What a memory answers to a call, and the memory afterwards. -/
def answer (m : Memory) : Call → Reply × Memory
  | .load program =>
    match m.load program with
    | .ok k => (.done, k)
    | .error fault => (.tooLarge fault, m)
  | .write address bytes =>
    match m.write address.toNat bytes with
    | .ok k => (.done, k)
    | .error fault => (.outside fault, m)
  | .read address length =>
    match m.read address.toNat length.toNat with
    | .ok bytes => (.bytes bytes, m)
    | .error fault => (.outside fault, m)
  | .fetch address =>
    match m.fetch address.toNat with
    | .ok word => (.word word, m)
    | .error fault => (.noWord fault, m)

/-! ### Answers -/

lemma answer_load (m : Memory) (program : List UInt8) :
    m.answer (.load program) =
      if program.length ≤ 3584 then (.done, m.overlay 0x200 program)
      else (.tooLarge ⟨program.length, 3584⟩, m) := by
  by_cases h : program.length ≤ programCapacity
  · simp only [answer, Memory.load, if_pos h]
    exact (if_pos h).symm
  · simp only [answer, Memory.load, if_neg h]
    exact (if_neg h).symm

lemma answer_write (m : Memory) (address : UInt64) (bytes : List UInt8) :
    m.answer (.write address bytes) =
      if address.toNat + bytes.length ≤ 4096 then (.done, m.overlay address.toNat bytes)
      else (.outside ⟨address.toNat, bytes.length⟩, m) := by
  by_cases h : Contains address.toNat bytes.length
  · simp only [answer, Memory.write, if_pos h]
    exact (if_pos h).symm
  · simp only [answer, Memory.write, if_neg h]
    exact (if_neg h).symm

lemma answer_read (m : Memory) (address length : UInt64) :
    m.answer (.read address length) =
      if address.toNat + length.toNat ≤ 4096 then
        (.bytes (m.slice address.toNat length.toNat), m)
      else (.outside ⟨address.toNat, length.toNat⟩, m) := by
  by_cases h : Contains address.toNat length.toNat
  · simp only [answer, Memory.read, if_pos h]
    exact (if_pos h).symm
  · simp only [answer, Memory.read, if_neg h]
    exact (if_neg h).symm

lemma answer_fetch (m : Memory) (address : UInt64) :
    m.answer (.fetch address) =
      if address.toNat + 2 ≤ 4096 then
        (.word (Opcode.ofBytes (m.byteAt address.toNat) (m.byteAt (address.toNat + 1))), m)
      else (.noWord (.outside address.toNat 4096), m) := by
  by_cases h : Contains address.toNat 2
  · simp only [answer, fetch_eq, if_pos h]
    exact (if_pos h).symm
  · simp only [answer, fetch_eq, if_neg h]
    exact (if_neg h).symm

/-! ### The bytes written last -/

/-- What a call stores; a call that fails stores nothing. -/
def Call.store? : Call → Option Store
  | load program => if program.length ≤ 3584 then some ⟨0x200, program⟩ else none
  | write address bytes =>
    if address.toNat + bytes.length ≤ 4096 then some ⟨address.toNat, bytes⟩ else none
  | _ => none

/-- The byte that calls to a new memory have written last at an address. A new memory holds the
font and zeros. -/
def latest (calls : List Call) (a : ℕ) : UInt8 :=
  (Store.lastByte? (calls.filterMap Call.store?) a).getD (Font.glyphs.getD a 0)

/-- A call changes the memory by what it stores. -/
lemma answer_snd (m : Memory) (c : Call) : (m.answer c).2 = m.replay c.store?.toList := by
  cases c with
  | load program =>
      rw [answer_load, Call.store?]
      split_ifs <;> rfl
  | write address bytes =>
      rw [answer_write, Call.store?]
      split_ifs <;> rfl
  | read address length =>
      rw [answer_read]
      split_ifs <;> rfl
  | fetch address =>
      rw [answer_fetch]
      split_ifs <;> rfl

/-- So do several calls. -/
lemma run_snd_eq_replay (m : Memory) (calls : List Call) :
    (Calls.run answer m calls).2 = m.replay (calls.filterMap Call.store?) := by
  rw [Calls.run_snd]
  induction calls generalizing m with
  | nil => rfl
  | cons c rest ih =>
      rw [List.foldl_cons, ih, answer_snd, ← replay_append]
      cases hstore : c.store? with
      | none => rw [List.filterMap_cons_none hstore]; rfl
      | some s => rw [List.filterMap_cons_some hstore]; rfl

/-- After any calls, each byte of a new memory is the one written last. -/
theorem byteAt_run (calls : List Call) {a : ℕ} (ha : a < 4096) :
    (Calls.run answer initial calls).2.byteAt a = latest calls a := by
  rw [run_snd_eq_replay, byteAt_replay _ _ ha, byteAt_initial ha, latest]

/-! ### A map of bytes -/

/-- How a memory has to answer that holds some bytes, given by their addresses. -/
structure ActsAs (m : Memory) (byte : ℕ → UInt8) : Prop where
  /-- It holds these bytes. -/
  bytes : m.toList = (List.range 4096).map byte
  /-- A program of up to 3584 bytes is loaded. -/
  load : ∀ program, (m.answer (.load program)).1 =
    if program.length ≤ 3584 then .done else .tooLarge ⟨program.length, 3584⟩
  /-- Bytes are written if the last one is inside the memory. -/
  write : ∀ address data, (m.answer (.write address data)).1 =
    if address.toNat + data.length ≤ 4096 then .done
    else .outside ⟨address.toNat, data.length⟩
  /-- So they are read. -/
  read : ∀ address length, (m.answer (.read address length)).1 =
    if address.toNat + length.toNat ≤ 4096 then
      .bytes ((List.range length.toNat).map fun i => byte (address.toNat + i))
    else .outside ⟨address.toNat, length.toNat⟩
  /-- A word is fetched where two bytes can be read, and it is made of them. -/
  fetch : ∀ address word, (m.answer (.fetch address)).1 = .word word ↔
    ∃ high low, (m.answer (.read address 2)).1 = .bytes [high, low] ∧
      word.toNat = 256 * high.toNat + low.toNat
  /-- Elsewhere there is none. -/
  noWord : ∀ address : UInt64, 4096 < address.toNat + 2 →
    (m.answer (.fetch address)).1 = .noWord (.outside address.toNat 4096)
  /-- A call that fails changes nothing. -/
  failed : ∀ c, (m.answer c).1.isFailure = true → (m.answer c).2 = m

lemma toList_eq_of_byteAt {m : Memory} {byte : ℕ → UInt8} (h : ∀ a < 4096, m.byteAt a = byte a) :
    m.toList = (List.range 4096).map byte := by
  refine List.ext_getElem (by simp [toList]) fun a ha _ => ?_
  have hlt : a < 4096 := by simpa [toList] using ha
  have hbyte := h a hlt
  rw [byteAt, Vector.getElem?_eq_getElem hlt, Option.getD_some] at hbyte
  simpa [toList] using hbyte

/-- The bytes of a memory decide how it answers. -/
theorem actsAs {m : Memory} {byte : ℕ → UInt8} (h : ∀ a < 4096, m.byteAt a = byte a) :
    m.ActsAs byte where
  bytes := toList_eq_of_byteAt h
  load program := by
    rw [answer_load]
    split_ifs <;> rfl
  write address data := by
    rw [answer_write]
    split_ifs <;> rfl
  read address length := by
    rw [answer_read]
    split_ifs with hle
    · refine congrArg Reply.bytes (List.map_congr_left fun i hi => h _ ?_)
      rw [List.mem_range] at hi
      omega
    · rfl
  fetch address word := by
    have htwo : (2 : UInt64).toNat = 2 := rfl
    rw [answer_fetch, answer_read, htwo]
    split_ifs with hle
    · have hslice : m.slice address.toNat 2 =
          [m.byteAt address.toNat, m.byteAt (address.toNat + 1)] := rfl
      rw [hslice, Reply.word.injEq, eq_comm, ← UInt16.toNat_inj, Opcode.toNat_ofBytes]
      constructor
      · exact fun hvalue => ⟨_, _, rfl, hvalue⟩
      · rintro ⟨high, low, hbytes, hvalue⟩
        cases hbytes
        exact hvalue
    · simp
  noWord address hlt := by rw [answer_fetch, if_neg (by omega)]
  failed c hfailed := by
    cases c with
    | load program =>
        rw [answer_load] at hfailed ⊢
        split_ifs at hfailed ⊢
        · cases hfailed
        · rfl
    | write address data =>
        rw [answer_write] at hfailed ⊢
        split_ifs at hfailed ⊢
        · cases hfailed
        · rfl
    | read address length => exact m.answer_snd _
    | fetch address => exact m.answer_snd _

end Memory

/-! ### Words -/

namespace Word

/-- The sum of two words, if it is a word. -/
def sum? (a b : UInt64) : Option UInt64 :=
  if a.toNat + b.toNat < Movement.span then some (a + b) else none

/-- The difference of two words; it does not go below zero. -/
def less (a b : UInt64) : UInt64 := if b ≤ a then a - b else 0

lemma sum?_eq_some_iff {a b c : UInt64} : sum? a b = some c ↔ c.toNat = a.toNat + b.toNat := by
  have hc := c.toNat_lt
  rw [sum?, Movement.span]
  split_ifs with hlt
  · rw [Option.some.injEq, ← UInt64.toNat_inj, UInt64.toNat_add, Nat.mod_eq_of_lt hlt, eq_comm]
  · constructor
    · intro h
      cases h
    · omega

lemma toNat_less (a b : UInt64) : (less a b).toNat = a.toNat - b.toNat := by
  rw [less]
  split_ifs with hle
  · exact UInt64.toNat_sub_of_le _ _ hle
  · rw [UInt64.le_iff_toNat_le] at hle
    rw [UInt64.toNat_zero]
    omega

end Word

namespace Memory

/-! ### The same on a host -/

/-- Whether the data of a call is so short that a word tells its length, as a host has it. -/
def Call.Addressable : Call → Prop
  | load program => program.length < Movement.span
  | write _ bytes => bytes.length < Movement.span
  | _ => True

/-- Whether a host lets an access pass: there is a word for its end, and no byte behind the
memory. -/
def passes (address length : UInt64) : Bool :=
  match Word.sum? address length with
  | some stop => stop ≤ 4096
  | none => false

/-- The bytes from one address up to another; a host traps where they are not all there. -/
def between? (m : Memory) (start stop : UInt64) : Option (List UInt8) :=
  if start ≤ stop ∧ stop ≤ 4096 then some (m.slice start.toNat (stop - start).toNat) else none

/-- Copies bytes to the place from one address up to another; a host traps where this is not
inside the memory, and where there are more bytes or fewer. -/
def copy? (m : Memory) (start stop : UInt64) (bytes : List UInt8) : Option Memory :=
  if start ≤ stop ∧ stop ≤ 4096 ∧ bytes.length = (stop - start).toNat then
    some (m.overlay start.toNat bytes)
  else none

/-- What a host answers to a call, and the memory afterwards, unless it traps. -/
def hostAnswer? (m : Memory) : Call → Option (Reply × Memory)
  | .load program =>
    let length := UInt64.ofNat program.length
    if Word.less 4096 0x200 < length then
      some (.tooLarge ⟨length.toNat, (Word.less 4096 0x200).toNat⟩, m)
    else do
      let stop ← Word.sum? 0x200 length
      let k ← m.copy? 0x200 stop program
      some (.done, k)
  | .write address bytes =>
    let length := UInt64.ofNat bytes.length
    if passes address length then do
      let stop ← Word.sum? address length
      let k ← m.copy? address stop bytes
      some (.done, k)
    else some (.outside ⟨address.toNat, length.toNat⟩, m)
  | .read address length =>
    if passes address length then do
      let stop ← Word.sum? address length
      let bytes ← m.between? address stop
      some (.bytes bytes, m)
    else some (.outside ⟨address.toNat, length.toNat⟩, m)
  | .fetch pointer =>
    if pointer < Word.less 4096 1 then do
      let high ← m.bytes[pointer.toNat]?
      let behind ← Word.sum? pointer 1
      let low ← m.bytes[behind.toNat]?
      some (.word (Opcode.ofBytes high low), m)
    else some (.noWord (.outside pointer.toNat 4096), m)

variable {address length stop : UInt64}

/-- The end of what is inside the memory is a word. -/
lemma exists_stop (h : Contains address.toNat length.toNat) :
    ∃ stop, Word.sum? address length = some stop ∧
      stop.toNat = address.toNat + length.toNat := by
  rw [Contains] at h
  have hstop : (UInt64.ofNat (address.toNat + length.toNat)).toNat =
      address.toNat + length.toNat := by
    rw [UInt64.toNat_ofNat']
    omega
  exact ⟨_, Word.sum?_eq_some_iff.mpr hstop, hstop⟩

/-- What a host lets pass is inside the memory: no sum wraps around. -/
lemma passes_iff : passes address length = true ↔ Contains address.toNat length.toNat := by
  have hsize : (4096 : UInt64).toNat = 4096 := rfl
  constructor
  · intro h
    rw [passes] at h
    split at h
    · next stop hsum =>
        rw [decide_eq_true_eq, UInt64.le_iff_toNat_le, hsize] at h
        rw [Contains, ← Word.sum?_eq_some_iff.mp hsum]
        exact h
    · cases h
  · intro h
    obtain ⟨stop, hsum, hstop⟩ := exists_stop h
    rw [passes, hsum]
    rw [decide_eq_true_eq, UInt64.le_iff_toNat_le, hsize, hstop]
    exact h

/-- The piece from an address up to the end of what is inside the memory. -/
lemma piece_of_contains (h : Contains address.toNat length.toNat)
    (hstop : stop.toNat = address.toNat + length.toNat) :
    address ≤ stop ∧ stop ≤ 4096 ∧ (stop - address).toNat = length.toNat := by
  have hsize : (4096 : UInt64).toNat = 4096 := rfl
  have hle : address ≤ stop := UInt64.le_iff_toNat_le.mpr (by omega)
  refine ⟨hle, ?_, ?_⟩
  · rw [UInt64.le_iff_toNat_le, hstop, hsize]
    exact h
  · rw [UInt64.toNat_sub_of_le _ _ hle, hstop, Nat.add_sub_cancel_left]

lemma between?_eq (m : Memory) (h : Contains address.toNat length.toNat)
    (hstop : stop.toNat = address.toNat + length.toNat) :
    m.between? address stop = some (m.slice address.toNat length.toNat) := by
  obtain ⟨hle, hend, hlength⟩ := piece_of_contains h hstop
  rw [between?, if_pos ⟨hle, hend⟩, hlength]

lemma copy?_eq (m : Memory) {bytes : List UInt8} (h : Contains address.toNat length.toNat)
    (hstop : stop.toNat = address.toNat + length.toNat) (hbytes : bytes.length = length.toNat) :
    m.copy? address stop bytes = some (m.overlay address.toNat bytes) := by
  obtain ⟨hle, hend, hlength⟩ := piece_of_contains h hstop
  rw [copy?, if_pos ⟨hle, hend, hbytes.trans hlength.symm⟩]

/-- A host answers as the memory does, and never traps. -/
theorem hostAnswer?_eq (m : Memory) {c : Call} (h : c.Addressable) :
    m.hostAnswer? c = some (m.answer c) := by
  cases c with
  | load program =>
      have hlength : (UInt64.ofNat program.length).toNat = program.length :=
        UInt64.toNat_ofNat_of_lt' h
      have hroom : (Word.less 4096 0x200).toNat = 3584 := Word.toNat_less _ _
      have hstart : (0x200 : UInt64).toNat = 0x200 := rfl
      have hlarge : Word.less 4096 0x200 < UInt64.ofNat program.length ↔
          ¬ program.length ≤ 3584 := by
        rw [UInt64.lt_iff_toNat_lt, hroom, hlength, not_le]
      rw [answer_load]
      simp only [hostAnswer?, hlarge, hlength, hroom, ite_not]
      split_ifs with hle
      · have hcontains : Contains (0x200 : UInt64).toNat (UInt64.ofNat program.length).toNat := by
          rw [Contains, hlength, hstart]
          omega
        obtain ⟨stop, hsum, hstop⟩ := exists_stop hcontains
        simp only [hsum, Option.bind_eq_bind, Option.bind_some,
          m.copy?_eq hcontains hstop hlength.symm]
        rfl
      · rfl
  | write address bytes =>
      have hlength : (UInt64.ofNat bytes.length).toNat = bytes.length :=
        UInt64.toNat_ofNat_of_lt' h
      rw [answer_write]
      simp only [hostAnswer?, passes_iff, hlength, Contains]
      split_ifs with hle
      · rw [← hlength] at hle
        obtain ⟨stop, hsum, hstop⟩ := exists_stop hle
        simp only [hsum, Option.bind_eq_bind, Option.bind_some, m.copy?_eq hle hstop hlength.symm]
      · rfl
  | read address length =>
      rw [answer_read]
      simp only [hostAnswer?, passes_iff, Contains]
      split_ifs with hle
      · obtain ⟨stop, hsum, hstop⟩ := exists_stop hle
        simp only [hsum, Option.bind_eq_bind, Option.bind_some, m.between?_eq hle hstop]
      · rfl
  | fetch pointer =>
      have hlast : (Word.less 4096 1).toNat = 4095 := Word.toNat_less _ _
      have hone : (1 : UInt64).toNat = 1 := rfl
      have hinside : pointer < Word.less 4096 1 ↔ pointer.toNat + 2 ≤ 4096 := by
        rw [UInt64.lt_iff_toNat_lt, hlast]
        omega
      rw [answer_fetch]
      simp only [hostAnswer?, hinside]
      split_ifs with hle
      · obtain ⟨behind, hsum, hbehind⟩ : ∃ behind, Word.sum? pointer 1 = some behind ∧
            behind.toNat = pointer.toNat + (1 : UInt64).toNat :=
          exists_stop (by rw [Contains, hone]; omega)
        rw [hone] at hbehind
        have hhigh : pointer.toNat < 4096 := by omega
        have hlow : pointer.toNat + 1 < 4096 := by omega
        simp [hsum, hbehind, hhigh, hlow, byteAt]
      · rfl

end Memory

/-- The memory is a map of bytes with checked bounds. After any calls to a new memory it holds at
each address what was written there last, and answers every further call accordingly: accesses
succeed exactly if they end inside the memory, in exact arithmetic, programs exactly if they have at
most 3584 bytes, and words are fetched exactly where two bytes can be read. What fails changes
nothing and names what was asked for. A host that computes with words of 64 bits comes to the same
answers and the same memory, and does not trap on its way. -/
theorem memory_is_a_byte_map (calls : List Memory.Call) :
    (Calls.run Memory.answer .initial calls).2.ActsAs (Memory.latest calls) ∧
      ((∀ c ∈ calls, c.Addressable) → Calls.run? Memory.hostAnswer? .initial calls =
        some (Calls.run Memory.answer .initial calls)) :=
  ⟨Memory.actsAs fun _ ha => Memory.byteAt_run calls ha, fun hcalls =>
    Calls.run?_eq_run (fun m c hc => m.hostAnswer?_eq (hcalls c hc)) _⟩

/-- Writes that go one byte too far, up to the end and far beyond it, and what can be had of the
memory afterwards. -/
theorem memory_is_a_byte_map_at_end :
    let calls : List Memory.Call :=
      [.write 0xFFE [1, 2, 3], .write 0xFFD [4, 5, 6], .write 0xFFFFFFFFFFFFFFFF [7, 8]]
    let m := (Calls.run Memory.answer .initial calls).2
    (∀ c ∈ calls, c.Addressable) ∧
      Calls.run? Memory.hostAnswer? .initial calls =
        some (Calls.run Memory.answer .initial calls) ∧
      (m.answer (.read 0xFFD 3)).1 = .bytes [4, 5, 6] ∧
      (m.answer (.fetch 0xFFE)).1 = .word 0x0506 ∧
      (m.answer (.fetch 0xFFF)).1 = .noWord (.outside 0xFFF 4096) ∧
      (m.answer (.read 4096 0)).1 = .bytes [] ∧
      (m.answer (.read 4097 0)).1 = .outside ⟨4097, 0⟩ ∧
      (m.answer (.read 0xFFFFFFFFFFFFFFFF 2)).1 = .outside ⟨0xFFFFFFFFFFFFFFFF, 2⟩ := by
  intro calls m
  obtain ⟨hacts, hhost⟩ := memory_is_a_byte_map calls
  have hcalls : ∀ c ∈ calls, c.Addressable := by
    simp [calls, Memory.Call.Addressable, Movement.span]
  refine ⟨hcalls, hhost hcalls, ?_, (hacts.fetch 0xFFE 0x0506).mpr ⟨5, 6, ?_, rfl⟩,
    hacts.noWord 0xFFF (by decide), ?_, ?_, ?_⟩
  all_goals exact (hacts.read _ _).trans rfl

end ChipEight
