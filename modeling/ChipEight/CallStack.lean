import ChipEight.Fault

/-!
The call stack: at most sixteen addresses to return to.

The bound is part of the type, so a stack that was built at all is within it.
-/

namespace ChipEight

/-- The addresses to return to, the newest first. -/
structure CallStack where
  /-- The addresses, the newest first. -/
  frames : List Nat
  /-- There are at most sixteen of them. -/
  length_le : frames.length ≤ 16
deriving DecidableEq

namespace CallStack

/-- No address. -/
def empty : CallStack := ⟨[], by decide⟩

/-- The number of addresses. -/
def depth (s : CallStack) : Nat := s.frames.length

/-- The addresses, the oldest first. -/
def toList (s : CallStack) : List Nat := s.frames.reverse

/-- The stack of some addresses, the oldest first; `none` if there are too many. -/
def ofList? (addresses : List Nat) : Option CallStack :=
  if h : addresses.length ≤ 16 then some ⟨addresses.reverse, by simpa using h⟩ else none

/-- Puts an address on top, if there is room. -/
def push (s : CallStack) (address : Nat) : Except StackFault CallStack :=
  if h : s.frames.length < 16 then .ok ⟨address :: s.frames, h⟩ else .error .full

/-- Takes the newest address, if there is one. -/
def pop (s : CallStack) : Except StackFault (Nat × CallStack) :=
  match s with
  | ⟨[], _⟩ => .error .empty
  | ⟨address :: rest, h⟩ => .ok (address, ⟨rest, Nat.le_of_succ_le h⟩)

@[simp] theorem toList_empty : empty.toList = [] := rfl

@[simp] theorem length_toList (s : CallStack) : s.toList.length = s.depth := by
  simp [toList, depth]

@[ext] theorem ext_toList {s t : CallStack} (h : s.toList = t.toList) : s = t := by
  cases s
  cases t
  simpa [toList] using h

theorem push_eq_ok_iff {s t : CallStack} {address : Nat} :
    s.push address = .ok t ↔ s.depth < 16 ∧ t.toList = s.toList ++ [address] := by
  unfold push depth
  split
  · next h =>
    rw [Except.ok.injEq]
    refine ⟨fun e => ⟨h, by simp [← e, toList]⟩, fun ⟨_, e⟩ => ext_toList ?_⟩
    rw [e]
    simp [toList]
  · next h => simp [h]

theorem push_eq_error_iff {s : CallStack} {address : Nat} {cause : StackFault} :
    s.push address = .error cause ↔ s.depth = 16 ∧ cause = .full := by
  have := s.length_le
  unfold push depth
  split
  · next h => simp; omega
  · next h =>
    have h16 : s.frames.length = 16 := by omega
    simp [h16, eq_comm]

theorem pop_eq_ok_iff {s t : CallStack} {address : Nat} :
    s.pop = .ok (address, t) ↔ s.toList = t.toList ++ [address] := by
  obtain ⟨frames, hs⟩ := s
  obtain ⟨rest, ht⟩ := t
  cases frames with
  | nil => simp [pop, toList]
  | cons a l => simp [pop, toList, and_comm, eq_comm]

/-- Pushing puts the address in front of the frames. -/
theorem frames_of_push {s t : CallStack} {address : Nat} (h : s.push address = .ok t) :
    t.frames = address :: s.frames := by
  have := (push_eq_ok_iff.mp h).2
  simpa [toList] using congrArg List.reverse this

/-- Popping takes the address from the front of the frames. -/
theorem frames_of_pop {s t : CallStack} {address : Nat} (h : s.pop = .ok (address, t)) :
    s.frames = address :: t.frames := by
  simpa [toList] using congrArg List.reverse (pop_eq_ok_iff.mp h)

theorem pop_eq_error_iff {s : CallStack} {cause : StackFault} :
    s.pop = .error cause ↔ s.depth = 0 ∧ cause = .empty := by
  obtain ⟨frames, hs⟩ := s
  cases frames with
  | nil => simp [pop, depth, eq_comm]
  | cons a l => simp [pop, depth]

end CallStack

end ChipEight
