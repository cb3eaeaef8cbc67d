/-!
The keypad: sixteen keys, and the presses that no instruction has taken yet.

Presses queue up in the order in which they happened, each key at most once. `pending` is the
view of a keypad; the lemmas below say what each operation does to it.
-/

namespace ChipEight

/-- A key of the keypad. -/
abbrev Key := Fin 16

/-- The key of a key code; the keypad has no key for codes of sixteen and above. -/
def Key.ofCode? (code : UInt8) : Option Key :=
  if h : code.toNat < 16 then some ⟨code.toNat, h⟩ else none

/-- The code of a key. -/
def Key.code (key : Key) : UInt8 := UInt8.ofNat key.val

/-- The pending key presses. -/
structure Keypad where
  /-- The pending keys, the oldest press first. -/
  pending : List Key
  /-- No key is pending twice. -/
  nodup : pending.Nodup
deriving DecidableEq

namespace Keypad

/-- No pending key. -/
def empty : Keypad := ⟨[], .nil⟩

/-- Whether no key is pending. -/
def isEmpty (k : Keypad) : Bool := k.pending.isEmpty

/-- Queues a key; one that is pending already keeps its place. -/
def insert (k : Keypad) (key : Key) : Keypad :=
  if h : key ∈ k.pending then k
  else ⟨k.pending ++ [key], by
    rw [List.nodup_append]
    refine ⟨k.nodup, by simp, fun a ha b hb e => h ?_⟩
    rw [List.mem_singleton] at hb
    exact hb ▸ e ▸ ha⟩

/-- Presses the key of a code; a code without a key is ignored. -/
def press (k : Keypad) (code : UInt8) : Keypad :=
  match Key.ofCode? code with
  | some key => k.insert key
  | none => k

/-- Whether the key of a code is pending. -/
def holds (k : Keypad) (code : UInt8) : Bool := k.pending.any fun key => key.val == code.toNat

/-- Takes the key of a code away, wherever it stands in the queue. -/
def release (k : Keypad) (code : UInt8) : Keypad :=
  ⟨k.pending.filter fun key => key.val != code.toNat, k.nodup.filter _⟩

/-- Takes the key of a code if it is pending, and tells whether it was. -/
def consume (k : Keypad) (code : UInt8) : Bool × Keypad := (k.holds code, k.release code)

/-- Takes the key pressed first, if any is pending. -/
def popEarliest (k : Keypad) : Option (Key × Keypad) :=
  match k with
  | ⟨[], _⟩ => none
  | ⟨key :: rest, h⟩ => some (key, ⟨rest, h.tail⟩)

/-- Forgets all presses. -/
def clear (_ : Keypad) : Keypad := empty

/-- For each key in order, whether it is pending. -/
def states (k : Keypad) : List Bool := List.ofFn fun key : Key => decide (key ∈ k.pending)

/-! ### The view of a keypad -/

@[ext] theorem ext_pending {j k : Keypad} (h : j.pending = k.pending) : j = k := by
  cases j
  cases k
  simpa using h

@[simp] theorem pending_empty : empty.pending = [] := rfl

@[simp] theorem insert_of_mem {k : Keypad} {key : Key} (h : key ∈ k.pending) :
    k.insert key = k := by
  simp [insert, h]

theorem pending_insert_of_not_mem {k : Keypad} {key : Key} (h : key ∉ k.pending) :
    (k.insert key).pending = k.pending ++ [key] := by
  simp [insert, h]

theorem press_eq_insert {k : Keypad} {code : UInt8} {key : Key}
    (h : Key.ofCode? code = some key) : k.press code = k.insert key := by
  simp [press, h]

theorem press_eq_self {k : Keypad} {code : UInt8} (h : Key.ofCode? code = none) :
    k.press code = k := by
  simp [press, h]

theorem popEarliest_eq_some_iff {k rest : Keypad} {key : Key} :
    k.popEarliest = some (key, rest) ↔ k.pending = key :: rest.pending := by
  obtain ⟨pending, h⟩ := k
  cases pending with
  | nil => simp [popEarliest]
  | cons first pending =>
    simp only [popEarliest, Option.some.injEq, Prod.mk.injEq, List.cons.injEq]
    exact and_congr_right fun _ => ⟨congrArg Keypad.pending, fun e => ext_pending e⟩

theorem popEarliest_eq_none_iff {k : Keypad} : k.popEarliest = none ↔ k.pending = [] := by
  obtain ⟨pending, h⟩ := k
  cases pending <;> simp [popEarliest]

@[simp] theorem pending_release (k : Keypad) (code : UInt8) :
    (k.release code).pending = k.pending.filter fun key => key.val != code.toNat := rfl

/-- Releasing a key that is not pending changes nothing. -/
theorem release_eq_self {k : Keypad} {code : UInt8} (h : k.holds code = false) :
    k.release code = k := by
  apply ext_pending
  rw [pending_release, List.filter_eq_self]
  intro key hkey
  have := List.any_eq_false.mp h key hkey
  simpa using this

end Keypad

end ChipEight
