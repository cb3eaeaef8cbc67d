import Mathlib.Tactic
import ChipEight.Proofs.Cycle.Step
import ChipEight.Proofs.InPlace.Basic
import ChipEight.Proofs.Screen.Drawing

/-!
The machine in place does what the machine does.

* `readMemory_apply`, `writeMemory_apply`: the host's check of a range, made in words, is the
  exact one.
* `drawRows_apply`: the two loops of a drawing toggle the points that the sprite covers.
* `execute_numbered`: an instruction in place ends as the instruction does, and leaves the
  machine untouched if it ends in a fault.
* `cycle_of_not_overflows`, `cycle_of_overflows`: so does a cycle, and the only sum that can trap
  it is that of the index register and a register.
-/

namespace ChipEight

namespace InPlace

/-! ### Running computations -/

section Computations

variable {α β : Type}

@[simp] lemma pure_apply (value : α) (m : Machine) :
    (pure value : InPlace α) m = .done value m := rfl

@[simp] lemma bind_apply (first : InPlace α) (next : α → InPlace β) (m : Machine) :
    (first >>= next) m =
      match first m with
      | .done value k => next value k
      | .fault cause k => .fault cause k
      | .trap => .trap := rfl

@[simp] lemma get_apply (m : Machine) : get m = .done m m := rfl

@[simp] lemma modify_apply (f : Machine → Machine) (m : Machine) :
    modify f m = .done () (f m) := rfl

@[simp] lemma fail_apply (cause : Fault) (m : Machine) :
    (fail cause : InPlace α) m = .fault cause m := rfl

@[simp] lemma trap_apply (m : Machine) : (trap : InPlace α) m = .trap := rfl

end Computations

/-- The numbers that come up beside the index register are far from the end of the words. -/
lemma lt_span {n : Nat} (h : n ≤ 0x10000) : n < Movement.span :=
  Nat.lt_of_le_of_lt h (by decide)

lemma fit_of_lt {n : Nat} (h : n < Movement.span) (m : Machine) : fit n m = .done n m := by
  rw [fit, if_pos h]
  rfl

lemma fit_of_le {n : Nat} (h : Movement.span ≤ n) (m : Machine) : fit n m = .trap := by
  rw [fit, if_neg (Nat.not_lt.mpr h)]
  rfl

@[simp] lemma register_val (x : Register) (m : Machine) :
    register x.val m = .done (m.reg x) m := by
  simp [register, Machine.reg, Registers.get]

@[simp] lemma setRegister_val (x : Register) (value : UInt8) (m : Machine) :
    setRegister x.val value m = .done () (m.setReg x value) := by
  simp [setRegister]

lemma setRegister_flag (value : UInt8) (m : Machine) :
    setRegister 15 value m = .done () (m.setReg .flag value) :=
  setRegister_val .flag value m

/-! ### Memory -/

/-- The end of a range inside the memory fits into a word. -/
lemma end_lt_span {address length : Nat} (h : Memory.Contains address length) :
    address + length < Movement.span :=
  lt_span (h.trans (by decide))

/-- The check in words is the exact one: an end that does not fit lies outside. -/
lemma checkRange_apply (address length : Nat) (m : Machine) :
    checkRange address length m =
      if Memory.Contains address length then .done () m
      else .fault (.memory ⟨address, length⟩) m := by
  by_cases h : Memory.Contains address length
  · rw [checkRange, if_pos ⟨end_lt_span h, h⟩, if_pos h]
    rfl
  · rw [checkRange, if_neg fun hin => h hin.2, if_neg h]
    rfl

lemma readMemory_apply (address length : Nat) (m : Machine) :
    readMemory address length m =
      match m.memory.read address length with
      | .ok bytes => .done bytes m
      | .error cause => .fault (.memory cause) m := by
  by_cases h : Memory.Contains address length
  · have hstop : address + length ≤ 4096 := h
    simp [readMemory, checkRange_apply, Memory.read, h, fit_of_lt (end_lt_span h), hstop]
  · simp [readMemory, checkRange_apply, Memory.read, h]

lemma writeMemory_apply (address : Nat) (bytes : List UInt8) (m : Machine) :
    writeMemory address bytes m =
      match m.memory.write address bytes with
      | .ok memory => .done () { m with memory := memory }
      | .error cause => .fault (.memory cause) m := by
  by_cases h : Memory.Contains address bytes.length
  · have hstop : address + bytes.length ≤ 4096 := h
    simp [writeMemory, checkRange_apply, Memory.write, h, fit_of_lt (end_lt_span h), hstop]
  · simp [writeMemory, checkRange_apply, Memory.write, h]

/-! ### Keys -/

/-- The array of keys has a place for every key: the pending ones are distinct. -/
lemma length_pending_lt {k : Keypad} {key : Key} (h : key ∉ k.pending) :
    k.pending.length < 16 := by
  have hnodup : (key :: k.pending).Nodup := List.nodup_cons.mpr ⟨h, k.nodup⟩
  have hcard := hnodup.length_le_card
  rw [List.length_cons, Fintype.card_fin] at hcard
  omega

lemma pressKey_apply (code : UInt8) (m : Machine) : pressKey code m = .done () (m.press code) := by
  cases hcode : Key.ofCode? code with
  | none => simp [pressKey, Machine.press, Keypad.press, hcode]
  | some key =>
      by_cases hmem : key ∈ m.keypad.pending
      · simp [pressKey, Machine.press, Keypad.press, hcode, hmem]
      · have hlength := length_pending_lt hmem
        simp [pressKey, Machine.press, Keypad.press, hcode, hmem, hlength]

/-! ### Drawing -/

/-- The machine in the middle of a drawing: the flag register tells whether a pixel was hit. -/
def drawn (m : Machine) (d : Drawing) : Machine :=
  { m with screen := d.screen, registers := m.registers.setFlag d.collided }

/-- Writing a one over the flag of a drawing notes a hit. -/
lemma setFlag_set_flag (r : Registers) (before : Bool) :
    (r.setFlag before).set .flag 1 = r.setFlag true := by
  ext x
  rw [Registers.get_set, Registers.get_setFlag, Registers.get_setFlag]
  split <;> rfl

/-- Changing one pixel in place toggles the point. -/
lemma plot_apply (m : Machine) (d : Drawing) (u v : Nat) :
    plot u v (drawn m d) = .done () (drawn m (d.toggle (u, v))) := by
  cases hlit : d.screen.lit u v <;>
    simp [plot, drawn, hlit, Drawing.toggle, setRegister_flag, Machine.setReg, setFlag_set_flag]

/-- The inner loop toggles the points of the set columns. -/
lemma drawRow_apply {x y i : Nat} (row : UInt8) (hx : x < 256) (hy : y + i < Movement.span)
    (m : Machine) (columns : List Nat) (hc : ∀ column ∈ columns, column < 8) (d : Drawing) :
    drawRow x y i row columns (drawn m d) =
      .done (columns.any (Sprite.bit row))
        (drawn m (((columns.filter (Sprite.bit row)).map fun column =>
          (x + column, y + i)).foldl Drawing.toggle d)) := by
  induction columns generalizing d with
  | nil => rfl
  | cons column rest ih =>
      have hrest : ∀ c ∈ rest, c < 8 := fun c h => hc c (List.mem_cons_of_mem _ h)
      have hcolumn : column < 8 := hc column List.mem_cons_self
      have hu : x + column < Movement.span := lt_span (by omega)
      cases hbit : Sprite.bit row column with
      | false => simp [drawRow, hbit, ih hrest]
      | true => simp [drawRow, hbit, fit_of_lt hu, fit_of_lt hy, plot_apply, ih hrest]

/-- The outer loop toggles the points of the sprite. -/
lemma drawRows_apply {x y : Nat} (hx : x < 256) (m : Machine) (sprite : Sprite) (i : Nat)
    (hy : y + i + sprite.length < Movement.span) (d : Drawing) :
    drawRows x y i sprite (drawn m d) =
      .done (sprite.any (· != 0))
        (drawn m ((Sprite.points x (y + i) sprite).foldl Drawing.toggle d)) := by
  induction sprite generalizing i d with
  | nil => rfl
  | cons row rest ih =>
      rw [List.length_cons] at hy
      have hc : ∀ column ∈ List.range 8, column < 8 := fun _ => List.mem_range.mp
      have hrow := drawRow_apply row hx (show y + i < Movement.span by omega) m _ hc d
      rw [Sprite.any_bit_eq] at hrow
      have hrest := ih (i + 1) (by omega)
      rw [← Nat.add_assoc] at hrest
      simp [drawRows, hrow, hrest, Sprite.points, Sprite.columns]

/-! ### Instructions -/

/-- How an instruction in place is to end, given what executing it came to. -/
def ofExecution (m : Machine) : Except Fault Execution → Ending (Movement × Operation)
  | .ok e => .done (e.move, e.operation) e.machine
  | .error cause => .fault cause m

/-- The index register and a register have a sum that does not fit into a word. -/
def Overflows (m : Machine) (i : Instruction Register) : Prop :=
  ∃ x, i = .addToIndex x ∧ Movement.span ≤ m.index + (m.reg x).toNat

variable {m : Machine} {i : Instruction Register}

lemma execute_draw (x y : Register) (height : Nat) :
    execute (Instruction.numbered (.draw x y height)) m =
      ofExecution m (m.execute (.draw x y height)) := by
  have hx := (m.reg x).toNat_lt
  have hy := (m.reg y).toNat_lt
  cases hread : m.memory.read m.index height with
  | error cause =>
      simp [execute, Instruction.numbered, Instruction.map, readMemory_apply, Machine.execute,
        ofExecution, hread]
  | ok sprite =>
      have hlength : sprite.length ≤ 4096 := by
        obtain ⟨hin, rfl⟩ := Memory.read_eq_ok_iff.mp hread
        rw [Memory.length_slice]
        exact (Nat.le_add_left height m.index).trans hin
      have hfit : (m.reg y).toNat + 0 + sprite.length < Movement.span := lt_span (by omega)
      have hdraw := drawRows_apply hx m sprite 0 hfit ⟨m.screen, false⟩
      have hstart : m.setReg .flag 0 = drawn m ⟨m.screen, false⟩ := rfl
      have hrun : execute (Instruction.numbered (.draw x y height)) m =
          .done (.stay, if sprite.any (· != 0) then .draw else .none)
            (drawn m (m.screen.draw (m.reg x).toNat (m.reg y).toNat sprite)) := by
        simp only [execute, Instruction.numbered, Instruction.map, bind_apply, register_val,
          get_apply, readMemory_apply, hread, setRegister_flag, hstart, hdraw, pure_apply]
        rfl
      simp only [hrun, Machine.execute, hread, ofExecution, drawn]

lemma execute_storeRegisters (x : Register) :
    execute (Instruction.numbered (.storeRegisters x)) m =
      ofExecution m (m.execute (.storeRegisters x)) := by
  cases hwrite : m.memory.write m.index (m.registers.upTo x) with
  | error cause =>
      simp [execute, Instruction.numbered, Instruction.map, registersUpTo, writeMemory_apply,
        Machine.execute, ofExecution, hwrite]
  | ok memory =>
      have hin := (Memory.write_eq_ok_iff.mp hwrite).1
      rw [Registers.length_upTo, Memory.Contains] at hin
      have hlength : x.val + 1 < Movement.span := lt_span (by omega)
      have hindex : m.index + (x.val + 1) < Movement.span := lt_span (by omega)
      simp [execute, Instruction.numbered, Instruction.map, registersUpTo, writeMemory_apply,
        Machine.execute, ofExecution, hwrite, fit_of_lt hlength, fit_of_lt hindex]

lemma execute_loadRegisters (x : Register) :
    execute (Instruction.numbered (.loadRegisters x)) m =
      ofExecution m (m.execute (.loadRegisters x)) := by
  have hlength : x.val + 1 < Movement.span := lt_span (by omega)
  cases hread : m.memory.read m.index (x + 1) with
  | error cause =>
      simp [execute, Instruction.numbered, Instruction.map, readMemory_apply, Machine.execute,
        ofExecution, hread, fit_of_lt hlength]
  | ok bytes =>
      obtain ⟨hin, rfl⟩ := Memory.read_eq_ok_iff.mp hread
      rw [Memory.Contains] at hin
      have hindex : m.index + (x.val + 1) < Movement.span := lt_span (by omega)
      simp [execute, Instruction.numbered, Instruction.map, readMemory_apply, Machine.execute,
        ofExecution, hread, fit_of_lt hlength, fit_of_lt hindex, setRegistersUpTo]

/-- An instruction in place ends as the instruction does, and one that ends in a fault leaves the
machine as it was: no update comes before the check that fails. -/
theorem execute_numbered (haddress : ∀ address, i.address? = some address → address < 4096)
    (hoverflow : ¬ Overflows m i) : execute i.numbered m = ofExecution m (m.execute i) := by
  cases i with
  | clear => rfl
  | ret =>
      cases hpop : m.stack.pop <;>
        simp [execute, Instruction.numbered, Instruction.map, Machine.execute, ofExecution, hpop]
  | call target =>
      cases hpush : m.stack.push m.counter <;>
        simp [execute, Instruction.numbered, Instruction.map, Machine.execute, ofExecution, hpush]
  | jumpOffset base =>
      have hbase := haddress base rfl
      have hv := (m.reg .first).toNat_lt
      have hfit : base + (m.reg .first).toNat < Movement.span := lt_span (by omega)
      have hfirst : register 0 m = .done (m.reg .first) m := register_val .first m
      simp [execute, Instruction.numbered, Instruction.map, Machine.execute, ofExecution, hfirst,
        fit_of_lt hfit]
  | skip test expected =>
      cases test <;>
        simp [execute, ask, Instruction.numbered, Instruction.map, Test.map, Machine.execute,
          Machine.ask, ofExecution, Keypad.consume]
  | arithmetic operation x y =>
      cases hflag : operation.flag? (m.reg x) (m.reg y) <;>
        simp [execute, combine, Instruction.numbered, Instruction.map, Machine.execute,
          Machine.combine, ofExecution, setRegister_flag, Machine.setReg, Registers.setFlag, hflag]
  | draw x y height => exact execute_draw x y height
  | awaitKey x =>
      cases hpop : m.keypad.popEarliest <;>
        simp [execute, Instruction.numbered, Instruction.map, Machine.execute, ofExecution,
          Machine.setReg, hpop]
  | addToIndex x =>
      have hfit : m.index + (m.reg x).toNat < Movement.span := by
        by_contra h
        exact hoverflow ⟨x, rfl, Nat.not_lt.mp h⟩
      simp [execute, Instruction.numbered, Instruction.map, Machine.execute, ofExecution,
        fit_of_lt hfit]
  | pointToGlyph x =>
      have hv := (m.reg x).toNat_lt
      have haddr : Font.address (m.reg x).toNat = (m.reg x).toNat * 5 := rfl
      have hfit : Font.address (m.reg x).toNat < Movement.span := lt_span (by omega)
      simp [execute, Instruction.numbered, Instruction.map, Machine.execute, ofExecution,
        fit_of_lt hfit]
  | storeDigits x =>
      cases hwrite : m.memory.write m.index (Machine.decimalDigits (m.reg x)) <;>
        simp [execute, Instruction.numbered, Instruction.map, writeMemory_apply, Machine.execute,
          ofExecution, hwrite]
  | storeRegisters x => exact execute_storeRegisters x
  | loadRegisters x => exact execute_loadRegisters x
  | _ =>
      simp [execute, Instruction.numbered, Instruction.map, Machine.execute, ofExecution,
        Machine.setReg]

/-! ### Cycles -/

lemma move_apply {movement : Movement} {m : Machine} (hfit : m.counter + 2 < Movement.span)
    (hrewind : 2 ≤ m.counter) :
    move movement m = .done () { m with counter := movement.apply m.counter } := by
  cases movement with
  | stay => rfl
  | skip => simp [move, fit_of_lt hfit]
  | rewind => simp [move, Movement.apply, hrewind]
  | jump target => rfl

variable {word : Opcode}

lemma fetch_of_error {cause : OpcodeFault} (hfetch : m.memory.fetch m.counter = .error cause) :
    fetch { m with dirty := false } = .fault (.opcode cause) { m with dirty := false } := by
  simp [fetch, hfetch]

lemma fetch_of_ok (hfetch : m.memory.fetch m.counter = .ok word) :
    fetch { m with dirty := false } = .done word (m.fetched word) := by
  have hcounter := (Machine.fetch_eq_ok_iff.mp hfetch).1
  have hfit : m.counter + Opcode.size < Movement.span :=
    lt_span (by rw [Opcode.size]; omega)
  simp [fetch, hfetch, fit_of_lt hfit, Machine.fetched]

/-- What follows after an instruction that was not refused. -/
lemma step_of_execute {e : Execution} (hfetch : m.memory.fetch m.counter = .ok word)
    (hdecode : Instruction.decode? word = some i) (hexecute : (m.fetched word).execute i = .ok e)
    (hrun : execute i.numbered (m.fetched word) = .done (e.move, e.operation) e.machine) :
    step { m with dirty := false } =
      .done e.operation
        { e.machine with
          counter := e.move.apply e.machine.counter
          dirty := e.operation == .draw } := by
  have hcounter := (Machine.fetch_eq_ok_iff.mp hfetch).1
  obtain ⟨-, -, hmoved, hdirty, -⟩ := Machine.fixed_of_execute hexecute
  change e.machine.counter = m.counter + 2 at hmoved
  change e.machine.dirty = false at hdirty
  have hfit : e.machine.counter + 2 < Movement.span := lt_span (by omega)
  have hrewind : 2 ≤ e.machine.counter := by omega
  by_cases hdraw : e.operation = .draw
  · simp [step, fetch_of_ok hfetch, hdecode, hrun, move_apply hfit hrewind, hdraw]
  · have hno : (e.operation == .draw) = false := by simp [hdraw]
    simp [step, fetch_of_ok hfetch, hdecode, hrun, move_apply hfit hrewind, hdraw, hno, hdirty]

end InPlace

/-- The next cycle adds a register to the index register, and the sum does not fit into a
word. -/
def Machine.Overflows (m : Machine) : Prop :=
  m.counter ≤ 0xFFE ∧ ∃ x, Instruction.decode? m.nextWord = some (.addToIndex x) ∧
    Movement.span ≤ m.index + (m.reg x).toNat

namespace InPlace

/-- An instruction that is due can only trap in a cycle that overflows. -/
lemma execute_fetched {m : Machine} {word : Opcode} {i : Instruction Register}
    (h : ¬ m.Overflows) (hfetch : m.memory.fetch m.counter = .ok word)
    (hdecode : Instruction.decode? word = some i) :
    execute i.numbered (m.fetched word) =
      ofExecution (m.fetched word) ((m.fetched word).execute i) := by
  refine execute_numbered (fun _ => Instruction.address_lt_of_decode hdecode) ?_
  rintro ⟨x, rfl, hspan⟩
  obtain ⟨hcounter, rfl⟩ := Machine.fetch_eq_ok_iff.mp hfetch
  exact h ⟨hcounter, x, hdecode, hspan⟩

/-- A cycle in place ends as the cycle does, with the same machine, whether it fails or not. -/
theorem cycle_of_not_overflows {m : Machine} (h : ¬ m.Overflows) :
    cycle m = .done m.cycle.result m.cycle.machine := by
  cases m.cycleCases with
  | unfetched cause hfetch hcycle =>
      have hstep : step { m with dirty := false } =
          .fault (.opcode cause) { m with dirty := false } := by
        simp [step, fetch_of_error hfetch]
      simp only [cycle, hstep, hcycle, Machine.crash]
  | undecoded word hfetch hdecode hcycle =>
      have hstep : step { m with dirty := false } =
          .fault (.opcode (.unsupported word)) (m.fetched word) := by
        simp [step, fetch_of_ok hfetch, hdecode]
      simp only [cycle, hstep, hcycle, Machine.crash]
  | refused word i fault hfetch hdecode hexecute hcycle =>
      have hrun := execute_fetched h hfetch hdecode
      rw [hexecute] at hrun
      have hstep : step { m with dirty := false } = .fault fault (m.fetched word) := by
        simp [step, fetch_of_ok hfetch, hdecode, hrun, ofExecution]
      simp only [cycle, hstep, hcycle, Machine.crash]
  | executed word i e hfetch hdecode hexecute hcycle =>
      have hrun := execute_fetched h hfetch hdecode
      rw [hexecute] at hrun
      have hstep := step_of_execute hfetch hdecode hexecute hrun
      simp only [cycle, hstep, hcycle, Machine.settle]

/-- A cycle whose sum does not fit is a trap. -/
theorem cycle_of_overflows {m : Machine} (h : m.Overflows) : cycle m = .trap := by
  obtain ⟨hcounter, x, hdecode, hspan⟩ := h
  have hfetch : m.memory.fetch m.counter = .ok m.nextWord :=
    Machine.fetch_eq_ok_iff.mpr ⟨hcounter, rfl⟩
  have hfit : fit (m.index + (m.reg x).toNat) (m.fetched m.nextWord) = .trap := fit_of_le hspan _
  have hindex : (m.fetched m.nextWord).index = m.index := rfl
  have hreg : (m.fetched m.nextWord).reg x = m.reg x := rfl
  simp [cycle, step, fetch_of_ok hfetch, hdecode, Instruction.numbered, Instruction.map, execute,
    hindex, hreg, hfit]

end InPlace

end ChipEight
