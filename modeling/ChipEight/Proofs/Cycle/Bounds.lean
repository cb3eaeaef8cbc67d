import Mathlib.Tactic
import ChipEight.Proofs.Cycle.Program
import ChipEight.Proofs.InPlace.Agreement

/-!
What stays bounded in a run, and why a host with 64-bit words never comes to grief in it.

The counter can leave the memory, by a jump with an offset at its end or by a skip, but not by
much: the next fetch fails from there. The index register has no bound of its own and grows by
at most a byte a cycle.

* `Bounded`: the bounds after a number of cycles. They carry each other: the counter is bounded
  because the frames are, and the frames because a word was fetched before the call.
* `bounded_boot`, `Bounded.act`: a booted machine has them, and every action keeps them.
* `not_overflows_of_bounded`, `actAll_of_bounded`: within the bounds no sum leaves the words of a
  host, so a run in place is the run.
* `bounds_of_run`: all of it, for every run from the boot on.
-/

namespace ChipEight

namespace Machine

/-- The bounds that hold after `n` cycles. -/
structure Bounded (n : Nat) (m : Machine) : Prop where
  /-- Frames are counters behind a word that was fetched. -/
  frames : ∀ frame ∈ m.stack.frames, 2 ≤ frame ∧ frame ≤ 4096
  /-- The farthest jump is to the last address plus a byte. -/
  counter : m.counter ≤ 4350
  /-- Each cycle adds a byte at most. -/
  index : m.index ≤ 4096 + 255 * n

variable {n : Nat} {m : Machine}

lemma bounded_boot (rom : Rom) (config : Config) (random : RandomSource) :
    Bounded 0 (boot rom config random) where
  frames := by
    intro frame h
    cases h
  counter := by
    show Memory.programStart ≤ 4350
    decide
  index := Nat.zero_le _

lemma Bounded.fetched {word : Opcode} (hb : Bounded n m)
    (hfetch : m.memory.fetch m.counter = .ok word) : Bounded (n + 1) (m.fetched word) where
  frames := hb.frames
  counter := by
    have hcounter := (fetch_eq_ok_iff.mp hfetch).1
    show m.counter + 2 ≤ 4350
    omega
  index := by
    have hindex := hb.index
    show m.index ≤ 4096 + 255 * (n + 1)
    omega

section Execute

variable {i : Instruction Register} {e : Execution}

/-- A call pushes the counter behind it, and no other instruction adds a frame. -/
lemma Bounded.frames_of_execute (hb : Bounded n m) (hcounter : 2 ≤ m.counter ∧ m.counter ≤ 4096)
    (hexecute : m.execute i = .ok e) :
    ∀ frame ∈ e.machine.stack.frames, 2 ≤ frame ∧ frame ≤ 4096 := by
  rw [Machine.frames_of_execute hexecute]
  cases i with
  | ret => exact fun frame h => hb.frames frame (List.mem_of_mem_tail h)
  | call target =>
      intro frame h
      rcases List.mem_cons.mp h with rfl | h
      · exact hcounter
      · exact hb.frames frame h
  | _ => exact hb.frames

/-- Jumps go to an address, to an address plus a byte, or to a frame. -/
lemma Bounded.counter_of_execute (hb : Bounded n m) (hcounter : 2 ≤ m.counter ∧ m.counter ≤ 4096)
    (haddress : ∀ address, i.address? = some address → address < 4096)
    (hexecute : m.execute i = .ok e) : e.move.apply m.counter ≤ 4350 := by
  rw [move_of_execute hexecute]
  cases i with
  | ret =>
      obtain ⟨address, stack, hpop, -⟩ := execute_ret_ok hexecute
      have hframes := CallStack.frames_of_pop hpop
      have hframe := hb.frames address (by simp [hframes])
      simp only [moveOf, hframes, List.headD_cons, Movement.apply_jump]
      omega
  | jump target =>
      have htarget := haddress target rfl
      show target ≤ 4350
      omega
  | call target =>
      have htarget := haddress target rfl
      show target ≤ 4350
      omega
  | jumpOffset base =>
      have hbase := haddress base rfl
      have hoffset := (m.reg .first).toNat_lt
      show base + (m.reg .first).toNat ≤ 4350
      omega
  | skip test expected =>
      cases hskip : (m.ask test).1 == expected <;>
        simp only [moveOf, hskip, Movement.skipIf, Movement.apply, if_true, Bool.false_eq_true,
          if_false] <;> omega
  | awaitKey x =>
      cases hempty : m.keypad.isEmpty <;>
        simp only [moveOf, hempty, Movement.apply, hcounter.1, if_true, Bool.false_eq_true,
          if_false] <;> omega
  | _ =>
      show m.counter ≤ 4350
      omega

/-- No instruction moves the index register by more than a byte, unless to an address. -/
lemma Bounded.index_of_execute (hb : Bounded n m)
    (haddress : ∀ address, i.address? = some address → address < 4096)
    (hexecute : m.execute i = .ok e) : e.machine.index ≤ 4096 + 255 * (n + 1) := by
  have hindex := hb.index
  rw [Machine.index_of_execute hexecute]
  cases i with
  | setIndex address =>
      have h := haddress address rfl
      show address ≤ _
      omega
  | addToIndex x =>
      have h := (m.reg x).toNat_lt
      show m.index + (m.reg x).toNat ≤ _
      omega
  | pointToGlyph x =>
      have h := (m.reg x).toNat_lt
      show Font.address (m.reg x).toNat ≤ _
      unfold Font.address Font.glyphSize
      omega
  | storeRegisters x =>
      have h := x.isLt
      show m.index + (x.val + 1) ≤ _
      omega
  | loadRegisters x =>
      have h := x.isLt
      show m.index + (x.val + 1) ≤ _
      omega
  | _ =>
      show m.index ≤ _
      omega

end Execute

/-- A cycle keeps the bounds, also when it fails. -/
theorem Bounded.cycle (hb : Bounded n m) : Bounded (n + 1) m.cycle.machine := by
  have hindex := hb.index
  cases m.cycleCases with
  | unfetched cause hfetch hcycle =>
      rw [hcycle]
      exact ⟨hb.frames, hb.counter, by show m.index ≤ _; omega⟩
  | undecoded word hfetch hdecode hcycle =>
      rw [hcycle]
      exact hb.fetched hfetch
  | refused word i fault hfetch hdecode hexecute hcycle =>
      rw [hcycle]
      exact hb.fetched hfetch
  | executed word i e hfetch hdecode hexecute hcycle =>
      have hle := (fetch_eq_ok_iff.mp hfetch).1
      have hcounter : 2 ≤ (m.fetched word).counter ∧ (m.fetched word).counter ≤ 4096 := by
        show 2 ≤ m.counter + 2 ∧ m.counter + 2 ≤ 4096
        omega
      have haddress : ∀ address, i.address? = some address → address < 4096 :=
        fun _ => Instruction.address_lt_of_decode hdecode
      have hmoved := (fixed_of_execute hexecute).2.2.1
      have hfetched : Bounded n (m.fetched word) :=
        ⟨hb.frames, (hb.fetched hfetch).counter, hb.index⟩
      rw [hcycle]
      refine ⟨hfetched.frames_of_execute hcounter hexecute, ?_,
        hfetched.index_of_execute haddress hexecute⟩
      show e.move.apply e.machine.counter ≤ 4350
      rw [hmoved]
      exact hfetched.counter_of_execute hcounter haddress hexecute

/-- Every action keeps the bounds. -/
theorem Bounded.act (hb : Bounded n m) (a : Action) : Bounded (n + a.weight) (m.act a) := by
  cases a with
  | cycle => exact hb.cycle
  | _ => exact ⟨hb.frames, hb.counter, hb.index⟩

/-- Every run keeps the bounds. -/
theorem Bounded.actAll (hb : Bounded n m) (actions : List Action) :
    Bounded (n + Action.cycles actions) (m.actAll actions) :=
  actAll_induction (P := Bounded) (fun _ _ a h => h.act a) hb actions

/-! ### Runs in place -/

/-- The index register takes more than `2 ^ 54` cycles to come near the end of the words. -/
lemma not_overflows_of_bounded (hb : Bounded n m) (hn : n < 2 ^ 54) : ¬ m.Overflows := by
  rintro ⟨-, x, -, hspan⟩
  have hindex := hb.index
  have hx := (m.reg x).toNat_lt
  rw [Movement.span] at hspan
  omega

lemma act_of_bounded (hb : Bounded n m) (hn : n < 2 ^ 54) (a : Action) :
    InPlace.act a m = .done () (m.act a) := by
  cases a with
  | press code => exact InPlace.pressKey_apply code m
  | cycle =>
      have hcycle := InPlace.cycle_of_not_overflows (not_overflows_of_bounded hb hn)
      simp [InPlace.act, hcycle, Machine.act]
  | _ => rfl

/-- A run in place is the run, as long as there are fewer than `2 ^ 54` cycles. -/
theorem actAll_of_bounded (hb : Bounded n m) (actions : List Action)
    (hn : n + Action.cycles actions < 2 ^ 54) :
    InPlace.actAll actions m = .done () (m.actAll actions) := by
  induction actions generalizing n m with
  | nil => rfl
  | cons a rest ih =>
      rw [Action.cycles_cons, ← Nat.add_assoc] at hn
      have hact := act_of_bounded hb (by omega) a
      simp [InPlace.actAll, hact, ih (Bounded.act hb a) hn]

end Machine

/-- However a machine is used after booting, its stack, its counter and its pending keys stay
within their bounds, its index register grows by at most a byte a cycle, and no run of fewer than
`2 ^ 54` cycles makes a host trap. -/
theorem bounds_of_run (rom : Rom) (config : Config) (random : RandomSource)
    (actions : List Action) :
    let start := Machine.boot rom config random
    let m := start.actAll actions
    (m.stack.depth ≤ 16 ∧ ∀ frame ∈ m.stack.toList, 2 ≤ frame ∧ frame ≤ 4096) ∧
      m.counter ≤ 4350 ∧
      ((m.keypad.pending.map Fin.val).Nodup ∧ ∀ code ∈ m.keypad.pending.map Fin.val, code < 16) ∧
      m.index ≤ 4096 + 255 * Action.cycles actions ∧
      (Action.cycles actions < 2 ^ 54 → InPlace.actAll actions start = .done () m) := by
  intro start m
  have hstart : start.Bounded 0 := Machine.bounded_boot rom config random
  have hb : m.Bounded (0 + Action.cycles actions) := hstart.actAll actions
  have hframes : ∀ frame ∈ m.stack.toList, 2 ≤ frame ∧ frame ≤ 4096 :=
    fun frame h => hb.frames frame (List.mem_reverse.mp h)
  have hnodup : (m.keypad.pending.map Fin.val).Nodup :=
    m.keypad.nodup.map Fin.val_injective
  have hlt : ∀ code ∈ m.keypad.pending.map Fin.val, code < 16 := by
    intro code h
    obtain ⟨key, -, rfl⟩ := List.mem_map.mp h
    exact key.isLt
  rw [Nat.zero_add] at hb
  refine ⟨⟨m.stack.length_le, hframes⟩, hb.counter, ⟨hnodup, hlt⟩, hb.index, ?_⟩
  intro hn
  exact Machine.actAll_of_bounded hstart actions (by omega)

/-- A program that calls a subroutine, in which it adds the largest byte to the index register, with
a key pressed in between: the machine has one frame, one pending key and its index register at 255,
and a host runs it without a trap. -/
theorem bounds_of_run_in_subroutine :
    let rom : Rom := ⟨"BOUNDS", [0x60, 0xFF, 0x22, 0x06, 0x00, 0x00, 0xF0, 0x1E], by decide⟩
    let start := Machine.boot rom {} (.cycling #[])
    let actions : List Action := [.cycle, .cycle, .press 5, .cycle]
    let m := start.actAll actions
    (m.stack.toList = [0x204] ∧ m.counter = 0x208 ∧ m.index = 255 ∧
        m.keypad.pending.map Fin.val = [5]) ∧
      m.counter ≤ 4350 ∧ m.index ≤ 4096 + 255 * 3 ∧ Action.cycles actions < 2 ^ 54 ∧
      InPlace.actAll actions start = .done () m := by
  intro rom start actions m
  have hparts : m.stack.toList = [0x204] ∧ m.counter = 0x208 ∧ m.index = 255 ∧
      m.keypad.pending.map Fin.val = [5] := by
    have hprogram : start.HoldsProgram rom := Machine.holdsProgram_of_image rfl
    subst m start actions rom
    rw [Machine.actAll_of_readRun hprogram rfl]
    exact ⟨rfl, rfl, rfl, rfl⟩
  obtain ⟨-, hcounter, -, hindex, hhost⟩ := bounds_of_run rom {} (.cycling #[]) actions
  have hcycles : Action.cycles actions < 2 ^ 54 := by decide
  exact ⟨hparts, hcounter, hindex, hcycles, hhost hcycles⟩

end ChipEight
