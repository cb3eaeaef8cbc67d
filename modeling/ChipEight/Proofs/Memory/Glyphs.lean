import Mathlib.Tactic
import ChipEight.Proofs.Cycle.Frame
import ChipEight.Proofs.Memory.Origin

/-!
How long the font lasts.

The font is ordinary memory. No program can be loaded over it, but a program can store over it,
and what it stores there is drawn in the place of the glyph.

* `Store.Covers`, `lastByte?_eq_none_iff`: the addresses a store writes to.
* `Font.glyph`, `slice_eq_glyph`: the rows of a glyph, and what is read at its address as long as
  they stand there.
* `byteAt_font`: the bytes of the font after any run.
* `draws_glyph`: where the index register points to a glyph, drawing five rows draws it;
  `draws_first_glyph` is what a machine draws that is still as it booted.
* `font_lasts_until_stored_over`: each byte of the font lasts until something is stored over it,
  and a digit is drawn with its glyph as long as the bytes of the glyph last.
* `font_is_stored_over`: nothing keeps a program from storing over the font.
-/

namespace ChipEight

/-! ### What a store covers -/

namespace Store

/-- Whether a store writes to an address. -/
def Covers (s : Store) (a : ℕ) : Prop := s.address ≤ a ∧ a < s.address + s.bytes.length

lemma byte?_eq_none_iff {s : Store} {a : ℕ} : s.byte? a = none ↔ ¬ s.Covers a := by
  rw [byte?, Covers]
  split
  · rw [List.getElem?_eq_none_iff]
    omega
  · simp only [true_iff]
    omega

/-- Several stores leave an address alone exactly if none of them covers it. -/
lemma lastByte?_eq_none_iff {stores : List Store} {a : ℕ} :
    lastByte? stores a = none ↔ ∀ s ∈ stores, ¬ s.Covers a := by
  simp only [lastByte?, List.findSome?_eq_none_iff, List.mem_reverse, byte?_eq_none_iff]

end Store

/-! ### Glyphs -/

namespace Font

/-- The rows of the glyph of a digit. -/
def glyph (digit : ℕ) : Sprite := (glyphs.drop (address digit)).take glyphSize

/-- No glyph is empty. -/
lemma any_glyph {digit : ℕ} (h : digit ≤ 0xF) : (glyph digit).any (· != 0) = true := by
  interval_cases digit <;> rfl

end Font

/-- Reading at the address of a glyph reads the glyph, as long as its bytes stand there. -/
lemma Memory.slice_eq_glyph {m : Memory} {digit : ℕ} (h : digit ≤ 0xF)
    (hrows : ∀ row < 5, m.byteAt (5 * digit + row) = Font.glyphs.getD (5 * digit + row) 0) :
    m.slice (Font.address digit) 5 = Font.glyph digit := by
  have haddress : Font.address digit = 5 * digit := Nat.mul_comm digit 5
  have hlength : Font.glyphs.length = 80 := rfl
  rw [Font.glyph, haddress]
  refine List.ext_getElem ?_ fun row hleft hright => ?_
  · rw [length_slice, List.length_take, List.length_drop, hlength, Font.glyphSize]
    omega
  · rw [length_slice] at hleft
    rw [List.getElem_take, List.getElem_drop]
    simp only [slice, List.getElem_map, List.getElem_range]
    rw [hrows row hleft, List.getD_eq_getElem]

namespace Machine

variable {m : Machine}

/-- A register that is stored stands at its place behind the index register. -/
lemma byteAt_storeRegisters {x y : Register} (h : m.executed? = some (.storeRegisters x))
    (hy : y ≤ x) :
    m.cycle.machine.memory.byteAt (m.index + y) = m.reg y := by
  obtain ⟨e, hexecute, -⟩ := execute_of_executed h
  obtain ⟨memory, hwrite, -⟩ := execute_storeRegisters_ok hexecute
  have hfits : m.index + (m.registers.upTo x).length ≤ 4096 :=
    (Memory.write_eq_ok_iff.mp hwrite).1
  rw [Registers.length_upTo] at hfits
  rw [Fin.le_def] at hy
  rw [memory_of_executed h]
  refine (Memory.byteAt_overlay m.memory m.index (m.registers.upTo x) (by omega)).trans ?_
  rw [if_pos (Nat.le_add_right _ _), Nat.add_sub_cancel_left, Registers.getElem?_upTo,
    if_pos (Fin.le_def.mpr hy), Option.getD_some, reg]

/-- After any run a byte of the font is that of the last store over it, or its own. -/
lemma byteAt_font (rom : Rom) (config : Config) (random : RandomSource) (run : List Action) {a : ℕ}
    (ha : a < 80) :
    ((boot rom config random).actAll run).memory.byteAt a =
      (Store.lastByte? ((boot rom config random).stores run) a).getD (Font.glyphs.getD a 0) := by
  have hbooted : (boot rom config random).memory.byteAt a = Font.glyphs.getD a 0 := by
    rw [boot, rom.byteAt_image_eq (by omega), if_pos ha]
  rw [memory_actAll, Memory.byteAt_replay _ _ (by omega), hbooted]

lemma index_of_pointToGlyph {x : Register} (h : m.executed? = some (.pointToGlyph x)) :
    m.cycle.machine.index = Font.address (m.reg x).toNat :=
  index_of_executed h

/-- A machine that has not written to its memory has all glyphs in it. -/
lemma rows_of_image {rom : Rom} {digit : ℕ} (hmemory : m.memory = rom.image)
    (hdigit : digit ≤ 0xF) :
    ∀ row < 5, m.memory.byteAt (5 * digit + row) = Font.glyphs.getD (5 * digit + row) 0 := by
  intro row hrow
  rw [hmemory, rom.byteAt_image_eq (by omega), if_pos (by omega)]

/-- Where the index register points to a glyph, drawing five rows draws the glyph, as long as its
bytes stand in memory. -/
lemma draws_glyph {digit : ℕ} {u v : Register} (hindex : m.index = Font.address digit)
    (hdigit : digit ≤ 0xF)
    (hrows : ∀ row < 5, m.memory.byteAt (5 * digit + row) = Font.glyphs.getD (5 * digit + row) 0)
    (hcounter : m.counter ≤ 0xFFE) (hdecode : Instruction.decode? m.nextWord = some (.draw u v 5)) :
    m.cycle.result = .ok .draw ∧
      m.cycle.machine.screen =
        (m.screen.draw (m.reg u).toNat (m.reg v).toNat (Font.glyph digit)).screen := by
  have hsprite : m.memory.slice m.index 5 = Font.glyph digit := by
    rw [hindex, Memory.slice_eq_glyph hdigit hrows]
  have hdraws : m.executed? = some (.draw u v 5) := by
    refine executed?_of_extent hcounter hdecode rfl ?_
    rw [hindex, Font.address, Font.glyphSize]
    omega
  constructor
  · refine (result_of_executed hdraws).trans ?_
    show Except.ok (if (m.memory.slice m.index 5).any (· != 0) then _ else _) = _
    rw [hsprite, if_pos (Font.any_glyph hdigit)]
  · refine (screen_of_executed hdraws).trans ?_
    show (m.screen.draw _ _ (m.memory.slice m.index 5)).screen = _
    rw [hsprite]
    rfl

/-- A machine that is still as it booted draws the first glyph in the corner. -/
lemma draws_first_glyph {rom : Rom} (hmemory : m.memory = rom.image) (hindex : m.index = 0)
    (hscreen : m.screen = .blank) (hreg : m.reg .first = 0)
    (h : m.executed? = some (.draw .first .first 5)) :
    m.cycle.result = .ok .draw ∧
      m.cycle.machine.screen = (Framebuffer.blank.draw 0 0 (Font.glyph 0)).screen := by
  have hpoints : m.index = Font.address 0 := hindex
  obtain ⟨hresult, hdrawn⟩ := draws_glyph hpoints (by decide) (rows_of_image hmemory (by decide))
    (counter_le_of_executed h) (decode_of_executed h)
  refine ⟨hresult, ?_⟩
  rw [hdrawn, hscreen, hreg]
  rfl

end Machine

/-- The corner is a pixel of the first glyph. -/
lemma Framebuffer.lit_first_glyph :
    (blank.draw 0 0 (Font.glyph 0)).screen.lit 0 0 = true := by
  rw [lit_draw, lit_blank]
  decide

/-- The font lasts until something is stored over it. After any run each of the 80 cells it takes
holds what the last store over the cell left there, and its byte of the font if there is none. So
if the run has pointed to the glyph of a digit, the index register holds that address, and nothing
was stored over the glyph, an instruction that draws five rows draws the glyph. -/
theorem font_lasts_until_stored_over (rom : Rom) (config : Config) (random : RandomSource)
    (run : List Action) :
    let start := Machine.boot rom config random
    let stores := start.stores run
    let m := start.actAll run
    (∀ a < 80, m.memory.byteAt a = (Store.lastByte? stores a).getD (Font.glyphs.getD a 0)) ∧
    (∀ a < 80, (∀ s ∈ stores, ¬ s.Covers a) → m.memory.byteAt a = Font.glyphs.getD a 0) ∧
    (∀ front x rest, run = front ++ .cycle :: rest →
      let k := start.actAll front
      let digit := (k.reg x).toNat
      k.executed? = some (.pointToGlyph x) → digit ≤ 0xF →
      m.index = k.cycle.machine.index →
      (∀ s ∈ stores, ∀ row < 5, ¬ s.Covers (5 * digit + row)) →
      ∀ u v, m.counter ≤ 0xFFE → Instruction.decode? m.nextWord = some (.draw u v 5) →
        m.cycle.result = .ok .draw ∧
          m.cycle.machine.screen =
            (m.screen.draw (m.reg u).toNat (m.reg v).toNat (Font.glyph digit)).screen) := by
  intro start stores m
  have hbytes : ∀ a < 80, m.memory.byteAt a =
      (Store.lastByte? stores a).getD (Font.glyphs.getD a 0) :=
    fun a ha => Machine.byteAt_font rom config random run ha
  have hkept : ∀ a < 80, (∀ s ∈ stores, ¬ s.Covers a) →
      m.memory.byteAt a = Font.glyphs.getD a 0 := by
    intro a ha hclear
    rw [hbytes a ha, Store.lastByte?_eq_none_iff.mpr hclear, Option.getD_none]
  refine ⟨hbytes, hkept, ?_⟩
  intro front x rest hrun k digit hpoints hdigit hindex hclear u v
  rw [Machine.index_of_pointToGlyph hpoints] at hindex
  exact Machine.draws_glyph hindex hdigit fun row hrow => hkept _ (by omega) fun s hs =>
    hclear s hs row hrow

/-- A program that stores a zero over the last row of the last glyph and then points to the first
one. A key is pressed, and the index register is set once more, to the same address, before the
program draws: it draws the first glyph. -/
theorem font_lasts_until_stored_over_at_last_row :
    let rom : Rom :=
      ⟨"GLYPH", [0xA0, 0x4F, 0xF0, 0x55, 0xF0, 0x29, 0xA0, 0x00, 0xD0, 0x05], by decide⟩
    let start := Machine.boot rom {} (.cycling #[])
    let front : List Action := [.cycle, .cycle]
    let rest : List Action := [.press 7, .cycle]
    let k := start.actAll front
    let m := start.actAll (front ++ .cycle :: rest)
    start.stores (front ++ .cycle :: rest) = [⟨0x4F, [0]⟩] ∧
      m.memory.byteAt 0x4F = 0 ∧ m.memory.byteAt 0x4E = 0x80 ∧
      k.executed? = some (.pointToGlyph .first) ∧
      k.cycle.machine.executed rest = [.setIndex 0] ∧
      m.cycle.result = .ok .draw ∧
      m.cycle.machine.screen =
        (m.screen.draw (m.reg .first).toNat (m.reg .first).toNat (Font.glyph 0)).screen := by
  intro rom start front rest k m
  -- what the machine executes and stores, as the text of the program tells
  obtain ⟨hpoints, hsets, hstores, hdigit, hindex, hfetch, hdecode⟩ :
      k.executed? = some (.pointToGlyph .first) ∧
        (start.actAll [.cycle, .cycle, .cycle]).executed rest = [.setIndex 0] ∧
        start.stores (front ++ .cycle :: rest) = [⟨0x4F, [0]⟩] ∧
        k.reg .first = 0 ∧ m.index = 0 ∧ m.counter ≤ 0xFFE ∧ m.nextWord = 0xD005 := by
    have hprogram : start.HoldsProgram rom := Machine.holdsProgram_of_image rfl
    subst k m start front rest rom
    refine ⟨Machine.executed?_of_readRun hprogram rfl rfl,
      (Machine.executed_after_readRun hprogram rfl rfl).trans rfl, ?_, ?_, ?_,
      Machine.nextWord_of_readRun hprogram rfl rfl⟩
    · exact (Machine.stores_of_readRun hprogram rfl).trans rfl
    · rw [Machine.actAll_of_readRun hprogram rfl]
      rfl
    · rw [Machine.actAll_of_readRun hprogram rfl]
      rfl
  obtain ⟨hbytes, -, hdrawn⟩ :=
    font_lasts_until_stored_over rom {} (.cycling #[]) (front ++ .cycle :: rest)
  have hthree : k.cycle.machine = start.actAll [.cycle, .cycle, .cycle] := rfl
  rw [← hthree] at hsets
  rw [hstores] at hbytes
  refine ⟨hstores, hbytes 0x4F (by decide), hbytes 0x4E (by decide), hpoints, hsets, ?_⟩
  have hkept : m.index = k.cycle.machine.index := by
    rw [hindex, Machine.index_of_pointToGlyph hpoints, hdigit]
    rfl
  have hclear : ∀ s ∈ start.stores (front ++ .cycle :: rest), ∀ row < 5,
      ¬ s.Covers (5 * (0 : UInt8).toNat + row) := by
    intro s hs row hrow hcovers
    rw [hstores, List.mem_singleton] at hs
    rw [hs] at hcovers
    have hle : 0x4F ≤ 5 * 0 + row := hcovers.1
    omega
  have hdraws := hdrawn front .first rest rfl hpoints
  rw [show (Machine.boot rom {} (.cycling #[])).actAll front = k from rfl,
    show (Machine.boot rom {} (.cycling #[])).actAll (front ++ .cycle :: rest) = m from rfl,
    hdigit] at hdraws
  exact hdraws (by decide) hkept hclear .first .first hfetch (by rw [hdecode]; rfl)

/-- Nothing keeps a program from storing over the font: one whose first word stores a register
does so in its first cycle. -/
theorem font_is_stored_over :
    let rom : Rom := ⟨"STORE", [0xF0, 0x55], by decide⟩
    let start := Machine.boot rom {} (.cycling #[])
    start.memory.byteAt 0 = 0xF0 ∧ (start.actAll [.cycle]).memory.byteAt 0 = 0 ∧
      ¬ ∀ run, ∀ a < 80, (start.actAll run).memory.byteAt a = Font.glyphs.getD a 0 := by
  intro rom start
  have hword : start.nextWord = 0xF055 := (Machine.nextWord_boot rfl _ _).trans (by decide)
  have hstores : start.executed? = some (.storeRegisters .first) :=
    Machine.executed?_of_extent (by decide) (by rw [hword]; rfl) rfl (by decide)
  have hzero : (start.actAll [.cycle]).memory.byteAt 0 = 0 := by
    have hstored := Machine.byteAt_storeRegisters hstores (le_refl Register.first)
    have hindex : start.index + (Register.first : ℕ) = 0 := rfl
    have hreg : start.reg .first = 0 := rfl
    rw [hindex, hreg] at hstored
    rw [Machine.actAll_cons, Machine.actAll_nil, Machine.act, hstored]
  refine ⟨rom.byteAt_image_eq (by decide), hzero, fun hfont => ?_⟩
  have hkept := hfont [.cycle] 0 (by decide)
  rw [hzero] at hkept
  exact absurd hkept (by decide)

end ChipEight
