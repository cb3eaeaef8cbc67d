import Mathlib.Tactic
import ChipEight.Proofs.InPlace.Calls
import ChipEight.Proofs.Keypad.Accounting

/-!
The keypad as a queue of distinct keys.

* `Call`, `Reply`, `answer`: what can be asked of a keypad, and what it answers. `inQueue`: what
  the same calls come to on a plain list of codes; `answer_codes` says that it is the same.
* `lt_of_mem_codes`, `length_codes_le`: what is always true of pending codes. `getElem?_states`: the
  states of the keys, from the codes.
* `Slots`, `Slots.Lawful`: arrays of bytes with a fixed number of places, as a library has them, and
  what the library promises of them.
* `Slots.answer?`, `Slots.flags?`: a keypad on a host, which keeps the codes in such an array and
  traps where there is no place. `answer?_of_codes`, `flags?_of_codes`: it never does, and answers
  as the keypad does.
* `Cells`, `Cells.lawful`: such arrays, as cells of which the first ones are in use.
* `Keypad.run_codes`, `Slots.run?_answer?`: the same for several calls, one after another.
* `keypad_is_a_queue`: all of it, after any calls to a new keypad.
-/

namespace ChipEight

/-! ### Keypads and lists -/

namespace Keypad

/-- What can be asked of a keypad. -/
inductive Call where
  /-- To press the key of a code. -/
  | press (code : UInt8)
  /-- To take the key of a code if it is pending. -/
  | consume (code : UInt8)
  /-- To take the key pressed first. -/
  | pop
  /-- To forget all presses. -/
  | clear

/-- What a keypad can answer. -/
inductive Reply where
  /-- Nothing. -/
  | done
  /-- Whether the key was pending. -/
  | found (pending : Bool)
  /-- The key pressed first, if there was any. -/
  | popped (code? : Option UInt8)
deriving DecidableEq

/-- What a keypad answers to a call, and the keypad afterwards. -/
def answer (k : Keypad) : Call → Reply × Keypad
  | .press code => (.done, k.press code)
  | .consume code => (.found (k.consume code).1, (k.consume code).2)
  | .pop =>
    match k.popEarliest with
    | some (key, rest) => (.popped (some key.code), rest)
    | none => (.popped none, k)
  | .clear => (.done, k.clear)

/-- What a call comes to on a list of codes. A press puts its code behind the others unless it is
among them or belongs to no key, and a code is taken from wherever it is. -/
def inQueue (codes : List UInt8) : Call → Reply × List UInt8
  | .press code =>
    (.done, if code.toNat < 16 ∧ code ∉ codes then codes ++ [code] else codes)
  | .consume code => (.found (decide (code ∈ codes)), codes.erase code)
  | .pop => (.popped codes.head?, codes.tail)
  | .clear => (.done, [])

variable {k : Keypad} {code : UInt8}

/-- A keypad answers as the list of its pending codes does, and keeps up with it. -/
lemma answer_codes (k : Keypad) (c : Call) :
    (k.answer c).1 = (inQueue k.codes c).1 ∧ (k.answer c).2.codes = (inQueue k.codes c).2 := by
  cases c with
  | press code =>
      have hholds : k.holds code = false ↔ code ∉ k.codes := by
        rw [← holds_iff, Bool.not_eq_true]
      refine ⟨rfl, ?_⟩
      show (k.press code).codes = _
      simp only [codes_press, hholds, inQueue]
  | consume code =>
      have hholds : k.holds code = decide (code ∈ k.codes) := by
        rw [Bool.eq_iff_iff, holds_iff, decide_eq_true_eq]
      refine ⟨congrArg Reply.found hholds, ?_⟩
      show (k.release code).codes = k.codes.erase code
      rw [codes_release, k.nodup_codes.erase_eq_filter]
  | pop =>
      rw [answer, inQueue]
      cases hpop : k.popEarliest with
      | none =>
          have hcodes : k.codes = [] := by rw [codes, popEarliest_eq_none_iff.mp hpop, List.map_nil]
          rw [hcodes]
          exact ⟨rfl, rfl⟩
      | some popped =>
          obtain ⟨key, rest⟩ := popped
          rw [codes_of_popEarliest hpop]
          exact ⟨rfl, rfl⟩
  | clear => exact ⟨rfl, rfl⟩

/-- Pending codes belong to keys. -/
lemma lt_of_mem_codes (h : code ∈ k.codes) : code.toNat < 16 := by
  obtain ⟨key, -, hcode⟩ := List.mem_map.mp h
  rw [← code_eq_iff.mp hcode]
  exact key.isLt

/-- So there are at most sixteen of them. -/
lemma length_codes_le (k : Keypad) : k.codes.length ≤ 16 := by
  have hcard := k.nodup.length_le_card
  rwa [Fintype.card_fin, ← k.pending.length_map Key.code] at hcard

/-- There is a place for a key that is not pending. -/
lemma length_codes_lt (hlt : code.toNat < 16) (hnot : code ∉ k.codes) : k.codes.length < 16 := by
  have hle := (k.press code).length_codes_le
  have hcodes : (k.press code).codes = k.codes ++ [code] :=
    (k.answer_codes (.press code)).2.trans (if_pos ⟨hlt, hnot⟩)
  rw [hcodes, List.length_append, List.length_singleton] at hle
  omega

/-- The states of the keys tell which codes are pending. -/
lemma getElem?_states (h : code.toNat < 16) :
    k.states[code.toNat]? = some (decide (code ∈ k.codes)) := by
  obtain ⟨key, hkey⟩ : ∃ key : Key, key.code = code := ⟨⟨code.toNat, h⟩, code_eq_iff.mpr rfl⟩
  have hmem : key ∈ k.pending ↔ code ∈ k.codes := by
    rw [codes, ← hkey, List.mem_map_of_injective code_injective]
  have hval : key.val = code.toNat := code_eq_iff.mp hkey
  rw [states, List.getElem?_ofFn, ← hval, dif_pos key.isLt, Fin.eta]
  simp only [hmem]

end Keypad

/-! ### Arrays with a fixed number of places -/

/-- Arrays of bytes with a fixed number of places. Where an operation gives nothing, a host
traps. -/
structure Slots (V : Type) where
  /-- The array without bytes. -/
  empty : V
  /-- The bytes of an array, in order. -/
  bytes : V → List UInt8
  /-- Puts a byte behind the others. -/
  push? : V → UInt8 → Option V
  /-- Takes out the byte at a place. -/
  remove? : V → ℕ → Option (UInt8 × V)
  /-- Takes out all bytes. -/
  clear : V → V
  /-- Compares two arrays. -/
  same : V → V → Bool

namespace Slots

variable {V : Type} {S : Slots V} {v w : V} {k : Keypad}

/-- What is promised of such arrays. -/
structure Lawful (S : Slots V) (places : ℕ) : Prop where
  /-- The array without bytes has none. -/
  bytes_empty : S.bytes S.empty = []
  /-- Only a full array takes no further byte. -/
  bytes_push : ∀ v byte, (S.push? v byte).map S.bytes =
    if (S.bytes v).length < places then some (S.bytes v ++ [byte]) else none
  /-- The bytes behind one that is taken out move up. -/
  bytes_remove : ∀ v i, (S.remove? v i).map (Prod.map id S.bytes) =
    (S.bytes v)[i]?.map fun byte => (byte, (S.bytes v).eraseIdx i)
  /-- Nothing is left in an array that is cleared. -/
  bytes_clear : ∀ v, S.bytes (S.clear v) = []
  /-- Arrays are the same if they have the same bytes. -/
  same_iff : ∀ v w, S.same v w = true ↔ S.bytes v = S.bytes w

/-- Presses the key of a code. -/
def press? (S : Slots V) (v : V) (code : UInt8) : Option V :=
  if 16 ≤ code.toNat then some v
  else if (S.bytes v).contains code then some v
  else S.push? v code

/-- Takes the key of a code if it is pending, and tells whether it was. -/
def consume? (S : Slots V) (v : V) (code : UInt8) : Option (Bool × V) :=
  match (S.bytes v).findIdx? (· == code) with
  | some i => (S.remove? v i).map fun removed => (true, removed.2)
  | none => some (false, v)

/-- Takes the key pressed first, if any is pending. -/
def pop? (S : Slots V) (v : V) : Option (Option UInt8 × V) :=
  if (S.bytes v).isEmpty then some (none, v)
  else (S.remove? v 0).map fun removed => (some removed.1, removed.2)

/-- For each key in order, whether it is pending; a code without a key has no place among them. -/
def flags? (S : Slots V) (v : V) : Option (Vector Bool 16) :=
  (S.bytes v).foldlM (fun flags code =>
    if h : code.toNat < 16 then some (flags.set code.toNat true h) else none)
    (Vector.replicate 16 false)

/-- What a keypad on a host answers to a call, and the keypad afterwards. -/
def answer? (S : Slots V) (v : V) : Keypad.Call → Option (Keypad.Reply × V)
  | .press code => (S.press? v code).map fun w => (.done, w)
  | .consume code => (S.consume? v code).map fun taken => (.found taken.1, taken.2)
  | .pop => (S.pop? v).map fun popped => (.popped popped.1, popped.2)
  | .clear => some (.done, S.clear v)

section Lawful

variable (hS : S.Lawful 16)
include hS

/-- There is a place for every byte while the array is not full. -/
lemma exists_push (byte : UInt8) (h : (S.bytes v).length < 16) :
    ∃ w, S.push? v byte = some w ∧ S.bytes w = S.bytes v ++ [byte] := by
  have hpush := hS.bytes_push v byte
  rwa [if_pos h, Option.map_eq_some_iff] at hpush

/-- Every byte that is there can be taken out. -/
lemma exists_remove {i : ℕ} {byte : UInt8} (h : (S.bytes v)[i]? = some byte) :
    ∃ w, S.remove? v i = some (byte, w) ∧ S.bytes w = (S.bytes v).eraseIdx i := by
  have hremove := hS.bytes_remove v i
  rw [h, Option.map_some, Option.map_eq_some_iff] at hremove
  obtain ⟨⟨other, w⟩, hremoved, heq⟩ := hremove
  obtain ⟨rfl, hbytes⟩ : other = byte ∧ S.bytes w = _ := Prod.ext_iff.mp heq
  exact ⟨w, hremoved, hbytes⟩

lemma press?_of_codes (h : S.bytes v = k.codes) (code : UInt8) :
    ∃ w, S.press? v code = some w ∧ S.bytes w = (k.press code).codes := by
  have hcodes : (k.press code).codes = if _ then _ else _ := (k.answer_codes (.press code)).2
  rw [press?, hcodes, h]
  by_cases hlt : code.toNat < 16
  · rw [if_neg (by omega)]
    by_cases hmem : code ∈ k.codes
    · rw [if_pos (by simpa using hmem), if_neg (by simp [hmem])]
      exact ⟨v, rfl, h⟩
    · obtain ⟨w, hpush, hbytes⟩ :=
        exists_push hS code (v := v) (by rw [h]; exact Keypad.length_codes_lt hlt hmem)
      rw [if_neg (by simpa using hmem), if_pos ⟨hlt, hmem⟩]
      exact ⟨w, hpush, by rw [hbytes, h]⟩
  · rw [if_pos (by omega), if_neg fun hnew => hlt hnew.1]
    exact ⟨v, rfl, h⟩

lemma consume?_of_codes (h : S.bytes v = k.codes) (code : UInt8) :
    ∃ w, S.consume? v code = some ((k.consume code).1, w) ∧
      S.bytes w = (k.consume code).2.codes := by
  obtain ⟨hfound, hcodes⟩ := k.answer_codes (.consume code)
  replace hfound : (k.consume code).1 = decide (code ∈ k.codes) := Keypad.Reply.found.inj hfound
  replace hcodes : (k.consume code).2.codes = k.codes.erase code := hcodes
  rw [consume?, hfound, hcodes, h]
  cases hfind : k.codes.findIdx? (· == code) with
  | none =>
      have hmem : code ∉ k.codes := by
        intro hmem
        have hne := List.findIdx?_eq_none_iff.mp hfind code hmem
        simp at hne
      exact ⟨v, by rw [decide_eq_false hmem], by rw [h, List.erase_of_not_mem hmem]⟩
  | some i =>
      obtain ⟨hi, hindex⟩ := List.findIdx?_eq_some_iff_findIdx_eq.mp hfind
      have hcode : k.codes[i] = code := by
        have hthere := List.findIdx_getElem (w := hindex ▸ hi)
        simpa [hindex] using hthere
      have hthere : (S.bytes v)[i]? = some code := by rw [h, List.getElem?_eq_getElem hi, hcode]
      obtain ⟨w, hremove, hbytes⟩ := exists_remove hS hthere
      have hmem : code ∈ k.codes := hcode ▸ List.getElem_mem hi
      refine ⟨w, ?_, ?_⟩
      · simp only [hremove, Option.map_some, decide_eq_true hmem]
      · rw [hbytes, h, List.erase_eq_eraseIdx_of_idxOf hindex]

lemma pop?_of_codes (h : S.bytes v = k.codes) :
    ∃ w, S.pop? v = some (k.codes.head?, w) ∧ S.bytes w = k.codes.tail := by
  rw [pop?, h]
  cases hcodes : k.codes with
  | nil => exact ⟨v, rfl, h.trans hcodes⟩
  | cons first rest =>
      have hthere : (S.bytes v)[0]? = some first := by rw [h, hcodes]; rfl
      obtain ⟨w, hremove, hbytes⟩ := exists_remove hS hthere
      refine ⟨w, by rw [hremove]; rfl, ?_⟩
      rw [hbytes, h, hcodes]
      rfl

/-- An array that has the pending codes of a keypad answers as the keypad does, and keeps up with
it. -/
theorem answer?_of_codes (h : S.bytes v = k.codes) (c : Keypad.Call) :
    ∃ w, S.answer? v c = some ((k.answer c).1, w) ∧ S.bytes w = (k.answer c).2.codes := by
  cases c with
  | press code =>
      obtain ⟨w, hpress, hbytes⟩ := press?_of_codes hS h code
      exact ⟨w, by rw [answer?, hpress]; rfl, hbytes⟩
  | consume code =>
      obtain ⟨w, hconsume, hbytes⟩ := consume?_of_codes hS h code
      exact ⟨w, by rw [answer?, hconsume]; rfl, hbytes⟩
  | pop =>
      obtain ⟨hpopped, hcodes⟩ := k.answer_codes .pop
      obtain ⟨w, hpop, hbytes⟩ := pop?_of_codes hS h
      exact ⟨w, by rw [answer?, hpop, hpopped]; rfl, by rw [hbytes, hcodes]; rfl⟩
  | clear => exact ⟨S.clear v, rfl, hS.bytes_clear v⟩

end Lawful

/-- Setting the flags of some codes one after another. -/
lemma foldlM_set {codes : List UInt8} (h : ∀ code ∈ codes, code.toNat < 16)
    (flags : Vector Bool 16) :
    ∃ out : Vector Bool 16, codes.foldlM (fun flags code =>
        if h : code.toNat < 16 then some (flags.set code.toNat true h) else none) flags = some out ∧
      ∀ (i : ℕ) (hi : i < 16), out[i] = (flags[i] || codes.any (·.toNat == i)) := by
  induction codes generalizing flags with
  | nil => exact ⟨flags, rfl, by simp⟩
  | cons code rest ih =>
      have hlt := h code List.mem_cons_self
      obtain ⟨out, hout, hget⟩ :=
        ih (fun other hother => h other (List.mem_cons_of_mem code hother))
          (flags.set code.toNat true hlt)
      refine ⟨out, ?_, fun i hi => ?_⟩
      · rw [List.foldlM_cons, dif_pos hlt]
        exact hout
      · rw [hget, Vector.getElem_set, List.any_cons]
        by_cases hcode : code.toNat = i
        · simp [hcode]
        · simp [hcode, beq_false_of_ne hcode]

/-- Every pending code has its place among the flags. -/
theorem flags?_of_codes (h : S.bytes v = k.codes) :
    (S.flags? v).map Vector.toList = some k.states := by
  have hcodes : ∀ code ∈ k.codes, code.toNat < 16 := fun code => Keypad.lt_of_mem_codes
  obtain ⟨out, hout, hget⟩ := foldlM_set hcodes (Vector.replicate 16 false)
  rw [flags?, h, hout, Option.map_some, Keypad.states]
  refine congrArg some (List.ext_getElem (by simp) fun i hi _ => ?_)
  have hlt : i < 16 := by simpa using hi
  have hmem : (k.codes.any (·.toNat == i)) = decide (⟨i, hlt⟩ ∈ k.pending) := by
    rw [Bool.eq_iff_iff, decide_eq_true_eq, List.any_eq_true]
    constructor
    · rintro ⟨code, hcode, hval⟩
      obtain ⟨key, hkey, rfl⟩ := List.mem_map.mp hcode
      have heq := Keypad.code_eq_iff.mp (rfl : key.code = key.code)
      rw [beq_iff_eq, ← heq] at hval
      exact (Fin.ext hval : key = ⟨i, hlt⟩) ▸ hkey
    · intro hkey
      refine ⟨_, List.mem_map_of_mem hkey, ?_⟩
      rw [beq_iff_eq, ← Keypad.code_eq_iff.mp rfl]
  have hget' := hget i hlt
  rw [Vector.getElem_replicate, Bool.false_or, hmem] at hget'
  rw [Vector.getElem_toList, List.getElem_ofFn]
  exact hget'

end Slots

/-! ### Cells in a row -/

/-- Sixteen cells, of which the first ones are in use. -/
structure Cells where
  /-- The cells. -/
  cells : Vector UInt8 16
  /-- How many of them are in use. -/
  length : ℕ
  /-- There are no others. -/
  fits : length ≤ 16

namespace Cells

/-- The byte in a cell. -/
def cell (c : Cells) (i : ℕ) : UInt8 := c.cells[i]?.getD 0

/-- The bytes of the cells in use. -/
def bytes (c : Cells) : List UInt8 := c.cells.toList.take c.length

/-- Puts a byte into the first cell that is not in use. -/
def push? (c : Cells) (byte : UInt8) : Option Cells :=
  if h : c.length < 16 then some ⟨c.cells.set c.length byte h, c.length + 1, h⟩ else none

/-- Takes out the byte of a cell in use. The bytes behind it move up by one cell, and the last of
these cells is zero afterwards. -/
def remove? (c : Cells) (i : ℕ) : Option (UInt8 × Cells) :=
  if i < c.length then
    let moved := Vector.ofFn fun j : Fin 16 =>
      if j < i then c.cell j
      else if j + 1 < c.length then c.cell (j + 1)
      else if j + 1 = c.length then 0
      else c.cell j
    some (c.cell i, ⟨moved, c.length - 1, (Nat.sub_le _ _).trans c.fits⟩)
  else none

/-- Arrays of sixteen bytes. Clearing one leaves the bytes where they are, and cells that are not in
use do not count in comparisons. -/
def slots : Slots Cells where
  empty := ⟨Vector.replicate 16 0, 0, Nat.zero_le _⟩
  bytes := bytes
  push? := push?
  remove? := remove?
  clear c := { c with length := 0, fits := Nat.zero_le _ }
  same c d := c.bytes == d.bytes

lemma getElem?_bytes (c : Cells) (i : ℕ) :
    c.bytes[i]? = if i < c.length then some (c.cell i) else none := by
  rw [bytes, List.getElem?_take]
  split_ifs with h
  · have hlt : i < 16 := h.trans_le c.fits
    simp [cell, hlt]
  · rfl

@[simp] lemma length_bytes (c : Cells) : c.bytes.length = c.length := by
  simp [bytes, c.fits]

lemma bytes_push? (c : Cells) (byte : UInt8) :
    (c.push? byte).map bytes = if c.bytes.length < 16 then some (c.bytes ++ [byte]) else none := by
  rw [length_bytes, push?]
  split_ifs with h
  · refine congrArg some (List.ext_getElem? fun i => ?_)
    rw [getElem?_bytes, List.getElem?_append, length_bytes, getElem?_bytes]
    rcases lt_trichotomy i c.length with hi | rfl | hi
    · have hne : c.length ≠ i := by omega
      simp [cell, hi, hne, Nat.lt_succ_of_lt hi]
    · simp [cell, h]
    · have hout : ¬ i < c.length + 1 := by omega
      have hin : ¬ i < c.length := by omega
      have hbehind : [byte][i - c.length]? = none := List.getElem?_eq_none (by simp; omega)
      rw [if_neg hout, if_neg hin, hbehind]
  · rfl

lemma bytes_remove? (c : Cells) (i : ℕ) :
    (c.remove? i).map (Prod.map id bytes) =
      c.bytes[i]?.map fun byte => (byte, c.bytes.eraseIdx i) := by
  rw [remove?, getElem?_bytes]
  split_ifs with h
  · refine congrArg some (Prod.ext rfl (List.ext_getElem? fun j => ?_))
    -- cells in front of `i` stay, those behind it move up, and what the others hold does not count
    have hfits := c.fits
    show (bytes ⟨_, _, _⟩)[j]? = (c.bytes.eraseIdx i)[j]?
    rw [getElem?_bytes, List.getElem?_eraseIdx, getElem?_bytes, getElem?_bytes]
    by_cases hj : j + 1 < c.length
    · have hlt : j < 16 := by omega
      have hle : j < c.length - 1 := by omega
      have hin : j < c.length := by omega
      by_cases hji : j < i <;> simp [cell, hlt, hle, hj, hji, hin]
    · have hle : ¬ j < c.length - 1 := by omega
      have hji : ¬ j < i := by omega
      simp [hle, hji, hj]
  · rfl

/-- They keep what is promised of such arrays. -/
theorem lawful : slots.Lawful 16 where
  bytes_empty := rfl
  bytes_push := bytes_push?
  bytes_remove := bytes_remove?
  bytes_clear _ := rfl
  same_iff _ _ := beq_iff_eq

end Cells

/-! ### Runs of calls -/

namespace Keypad

/-- A keypad that has answered some calls holds what is left in the queue. -/
lemma run_codes (calls : List Call) :
    (Calls.run answer empty calls).1 = (Calls.run inQueue [] calls).1 ∧
      (Calls.run answer empty calls).2.codes = (Calls.run inQueue [] calls).2 := by
  have hstep : ∀ (k : Keypad) (l : List UInt8), ∀ c ∈ calls, k.codes = l →
      ∃ next, some (k.answer c) = some ((inQueue l c).1, next) ∧
        next.codes = (inQueue l c).2 := by
    rintro k _ c - rfl
    obtain ⟨hreply, hcodes⟩ := k.answer_codes c
    exact ⟨(k.answer c).2, by rw [← hreply], hcodes⟩
  obtain ⟨last, hrun, hlast⟩ := Calls.run?_of_simulates hstep (rfl : empty.codes = [])
  rw [Calls.run?_eq_run fun _ _ _ => rfl, Option.some.injEq] at hrun
  rw [hrun]
  exact ⟨rfl, hlast⟩

lemma eq_of_codes {j k : Keypad} (h : j.codes = k.codes) : j = k :=
  ext_pending (List.map_injective_iff.mpr code_injective h)

end Keypad

/-- A keypad on a host answers every call, as the keypad does. -/
lemma Slots.run?_answer? {V : Type} {S : Slots V} (hS : S.Lawful 16) (calls : List Keypad.Call) :
    ∃ v, Calls.run? S.answer? S.empty calls = some ((Calls.run Keypad.answer .empty calls).1, v) ∧
      S.bytes v = (Calls.run Keypad.answer .empty calls).2.codes := by
  have hstep : ∀ v (k : Keypad), ∀ c ∈ calls, S.bytes v = k.codes →
      ∃ w, S.answer? v c = some ((k.answer c).1, w) ∧ S.bytes w = (k.answer c).2.codes :=
    fun _ _ c _ h => Slots.answer?_of_codes hS h c
  exact Calls.run?_of_simulates hstep hS.bytes_empty

/-- The keypad is a queue of distinct keys. After any calls to a new keypad the pending codes are
those of a list that takes a code in at its end if it belongs to a key and is not there yet, gives
one away from wherever it is, and hands out the first one; the answers are the same as well. The
codes are distinct and belong to keys, so there are never more than sixteen, and the states of the
keys tell which they are. A keypad on a host, which keeps the codes in an array with sixteen places,
finds a place for each of them and each of the flags, and gives the same answers. Whatever calls
have led to the same codes, they have led to the same keypad. -/
theorem keypad_is_a_queue {V : Type} (S : Slots V) (hS : S.Lawful 16)
    (calls : List Keypad.Call) :
    let k := (Calls.run Keypad.answer .empty calls).2
    let pending := (Calls.run Keypad.inQueue [] calls).2
    k.codes = pending ∧
    (Calls.run Keypad.answer .empty calls).1 = (Calls.run Keypad.inQueue [] calls).1 ∧
    pending.Nodup ∧ (∀ code ∈ pending, code.toNat < 16) ∧ pending.length ≤ 16 ∧
    (∀ code : UInt8, code.toNat < 16 →
      k.states[code.toNat]? = some (decide (code ∈ pending))) ∧
    (∃ v, Calls.run? S.answer? S.empty calls = some ((Calls.run Keypad.inQueue [] calls).1, v) ∧
      S.bytes v = pending ∧ (S.flags? v).map Vector.toList = some k.states) ∧
    ∀ other, (Calls.run Keypad.inQueue [] other).2 = pending →
      (Calls.run Keypad.answer .empty other).2 = k ∧
      ∀ replies replies' v w, Calls.run? S.answer? S.empty calls = some (replies, v) →
        Calls.run? S.answer? S.empty other = some (replies', w) → S.same v w = true := by
  intro k pending
  obtain ⟨hreplies, hcodes⟩ : _ ∧ k.codes = pending := Keypad.run_codes calls
  obtain ⟨v, hrun, hbytes⟩ := Slots.run?_answer? hS calls
  refine ⟨hcodes, hreplies, hcodes ▸ k.nodup_codes, ?_, hcodes ▸ k.length_codes_le, ?_, ?_, ?_⟩
  · intro code hcode
    exact Keypad.lt_of_mem_codes (hcodes ▸ hcode : code ∈ k.codes)
  · intro code hcode
    rw [Keypad.getElem?_states hcode, hcodes]
  · exact ⟨v, by rw [hrun, hreplies], hbytes.trans hcodes, Slots.flags?_of_codes hbytes⟩
  · intro other hother
    obtain ⟨-, hcodes'⟩ := Keypad.run_codes other
    obtain ⟨w, hrun', hbytes'⟩ := Slots.run?_answer? hS other
    have hsame : (Calls.run Keypad.answer .empty other).2 = k :=
      Keypad.eq_of_codes (hcodes'.trans (hother.trans hcodes.symm))
    refine ⟨hsame, fun replies replies' v' w' hv hw => ?_⟩
    cases hrun.symm.trans hv
    cases hrun'.symm.trans hw
    rw [hS.same_iff, hbytes, hbytes', hsame]

/-- Presses that come twice or belong to no key, a code that is taken from the middle and one that
is not there: what is left is the same as after a single press. -/
theorem keypad_is_a_queue_of_cells :
    let calls : List Keypad.Call :=
      [.press 3, .press 7, .press 3, .press 200, .press 1, .consume 7, .consume 9, .pop]
    Cells.slots.Lawful 16 ∧ (Calls.run Keypad.inQueue [] calls).2 = [1] ∧
      (∃ v, Calls.run? Cells.slots.answer? Cells.slots.empty calls = some
          ([.done, .done, .done, .done, .done, .found true, .found false, .popped (some 3)], v) ∧
        Cells.slots.bytes v = [1]) ∧
      ∀ replies replies' v w,
        Calls.run? Cells.slots.answer? Cells.slots.empty calls = some (replies, v) →
        Calls.run? Cells.slots.answer? Cells.slots.empty [.press 1] = some (replies', w) →
        Cells.slots.same v w = true := by
  intro calls
  obtain ⟨-, -, -, -, -, -, ⟨v, hrun, hbytes, -⟩, hsame⟩ :=
    keypad_is_a_queue Cells.slots Cells.lawful calls
  exact ⟨Cells.lawful, rfl, ⟨v, hrun, hbytes⟩, (hsame [.press 1] rfl).2⟩

end ChipEight
