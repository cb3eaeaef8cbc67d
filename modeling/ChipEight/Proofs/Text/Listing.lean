import Mathlib.Tactic
import ChipEight.Proofs.InPlace.Basic
import ChipEight.Proofs.Text.Reading
import ChipEight.Trace

/-!
Listings and trace lines can be read back.

Many instructions have the same mnemonic, eleven of them that of a load, so it takes the operands to
tell them apart. The operands are read first, one by one, each by what it begins with. Then few
instructions are left, and no two of them have the same mnemonic.

* `Place`, `Operand`, `Instruction.parts`: operands as data, and those of an instruction.
* `Operand.read?`, `read?_text`: an operand read back from its text. A register begins with a `V`,
  a byte and an address with `0x` and go on with two digits and with more, a height begins with a
  digit, and everything else is the name of a place.
* `Instruction.line_inj`, `mnemonic_parts_of_text`: the mnemonic and the operands are read off a
  listing, because no mnemonic has a blank in it and no operand a comma.
* `Instruction.withParts`, `nodup_mnemonics`: all instructions with some operands, and that their
  mnemonics differ.
* `Instruction.text_injective`, `TraceRecord.text_injective`: listings and trace lines, for
  registers that can be told from their numbers.
* `trace_line_identifies_record`: both, for arbitrary numbers and for registers.
-/

namespace ChipEight

open Text

/-! ### Operands -/

/-- A place that has a name of its own in listings. -/
inductive Place where
  /-- The index register. -/
  | index
  /-- The memory that the index register points to. -/
  | memory
  /-- The delay timer. -/
  | delay
  /-- The sound timer. -/
  | sound
  /-- The keypad. -/
  | key
  /-- The glyphs. -/
  | glyph
  /-- The decimal digits. -/
  | digits

namespace Place

/-- The name of a place. -/
def name : Place → String
  | index => "I"
  | memory => "[I]"
  | delay => "DT"
  | sound => "ST"
  | key => "K"
  | glyph => "F"
  | digits => "B"

/-- The places. -/
def all : List Place := [index, memory, delay, sound, key, glyph, digits]

end Place

/-- An operand of an instruction. -/
inductive Operand where
  /-- A register, by its number. -/
  | register (number : ℕ)
  /-- A byte. -/
  | byte (value : UInt8)
  /-- An address. -/
  | address (value : ℕ)
  /-- The height of a sprite. -/
  | height (rows : ℕ)
  /-- A place with a name of its own. -/
  | place (place : Place)

namespace Operand

/-- An operand as listings have it. -/
def text : Operand → String
  | register number => Instruction.registerText number
  | byte value => Instruction.byteText value
  | address value => Instruction.addressText value
  | height rows => toString rows
  | place p => p.name

/-- The operand that some characters stand for. -/
def read? : List Char → Option Operand
  | 'V' :: digits => (Hex.value? digits).map register
  | '0' :: 'x' :: digits =>
    (Hex.value? digits).map fun n =>
      if digits.length = 2 then byte (UInt8.ofNat n) else address n
  | c :: rest =>
    if c.isDigit then some (height (Nat.ofDigitChars 10 (c :: rest) 0))
    else (Place.all.find? fun p => p.name.toList == c :: rest).map place
  | [] => none

lemma length_digits_le {n : ℕ} (h : n < 256) : (Hex.digits n).length ≤ 2 := by
  rw [Hex.digits]
  split_ifs with hlt
  · simp
  · rw [Hex.digits, if_pos (by omega)]
    simp

/-- A byte always has two digits. -/
lemma length_padded_byte (value : UInt8) : (Hex.padded 2 value.toNat).length = 2 := by
  have hle := length_digits_le value.toNat_lt
  rw [Hex.padded, List.length_append, List.length_replicate]
  omega

/-- An address always has more. -/
lemma length_padded_address (value : ℕ) : (Hex.padded 3 value).length ≠ 2 := by
  rw [Hex.padded, List.length_append, List.length_replicate]
  omega

/-- The first digit of a decimal tells what it is, because no decimal begins with `0x`. -/
lemma read?_of_isDigit {cs : List Char} (hne : cs ≠ []) (hdigits : ∀ c ∈ cs, c.isDigit = true) :
    read? cs = some (height (Nat.ofDigitChars 10 cs 0)) := by
  unfold read?
  split
  · exact absurd (hdigits 'V' List.mem_cons_self) (by decide)
  · exact absurd (hdigits 'x' (List.mem_cons_of_mem _ List.mem_cons_self)) (by decide)
  · next c rest _ _ => rw [if_pos (hdigits c List.mem_cons_self)]
  · exact absurd rfl hne

theorem read?_text (o : Operand) : read? o.text.toList = some o := by
  cases o with
  | register number =>
      have htext : (register number).text.toList = 'V' :: Hex.digits number := by
        simp [text, Instruction.registerText, RegisterName.number]
      rw [htext, read?, Hex.value?_digits, Option.map_some]
  | byte value =>
      have htext : (byte value).text.toList = '0' :: 'x' :: Hex.padded 2 value.toNat := by
        simp [text, Instruction.byteText, Hex.numeral]
      rw [htext, read?, Hex.value?_padded, Option.map_some, if_pos (length_padded_byte value),
        UInt8.ofNat_toNat]
  | address value =>
      have htext : (address value).text.toList = '0' :: 'x' :: Hex.padded 3 value := by
        simp [text, Instruction.addressText, Hex.numeral]
      rw [htext, read?, Hex.value?_padded, Option.map_some, if_neg (length_padded_address value)]
  | height rows =>
      have htext : (height rows).text.toList = Nat.toDigits 10 rows := Nat.toList_repr
      rw [htext, read?_of_isDigit Nat.toDigits_ne_nil, Nat.ofDigitChars_ten_toDigits]
      exact fun c hc => Nat.isDigit_of_mem_toDigits (by decide) (by decide) hc
  | place p => cases p <;> rfl

lemma text_injective : Function.Injective text := by
  intro o p h
  have hread := congrArg (fun s => read? s.toList) h
  simpa only [read?_text, Option.some.injEq] using hread

/-- No operand has a comma in its text. -/
lemma consists_text (o : Operand) : Consists (· != ',') o.text := by
  have hhex : ∀ cs : List Char, (∀ c ∈ cs, isHexDigit c = true) → ∀ c ∈ cs, (c != ',') = true := by
    intro cs hcs c hc
    rw [bne_iff_ne]
    rintro rfl
    exact absurd (hcs _ hc) (by decide)
  have hnumeral : ∀ width n, Consists (· != ',') (Hex.numeral width n) := by
    intro width n
    rw [numeral_eq, consists_append]
    exact ⟨by simp [Consists], fun c hc =>
      hhex _ (fun _ => isHexDigit_of_mem_padded) c (by simpa using hc)⟩
  cases o with
  | register number =>
      refine consists_append.mpr ⟨by simp [Consists], fun c hc => ?_⟩
      exact hhex _ (fun _ => isHexDigit_of_mem_digits) c (by simpa using hc)
  | byte value => exact hnumeral 2 value.toNat
  | address value => exact hnumeral 3 value
  | height rows =>
      intro c hc
      rw [bne_iff_ne]
      rintro rfl
      exact absurd (consists_decimal rows _ hc) (by decide)
  | place p => cases p <;> simp [Consists, text, Place.name]

end Operand

namespace Instruction

/-! ### The parts of a listing -/

section Parts

variable {ρ : Type} [RegisterName ρ]

/-- A register as an operand. -/
def part (x : ρ) : Operand := .register (RegisterName.number x)

/-- The operands of an instruction in the order of the listing. -/
def parts : Instruction ρ → List Operand
  | clear => []
  | ret => []
  | jump target => [.address target]
  | call target => [.address target]
  | jumpOffset base => [.register 0, .address base]
  | skip (.byte x value) _ => [part x, .byte value]
  | skip (.register x y) _ => [part x, part y]
  | skip (.key x) _ => [part x]
  | setRegister x value => [part x, .byte value]
  | addConstant x value => [part x, .byte value]
  | arithmetic _ x y => [part x, part y]
  | setIndex address => [.place .index, .address address]
  | random x mask => [part x, .byte mask]
  | draw x y height => [part x, part y, .height height]
  | getDelay x => [part x, .place .delay]
  | awaitKey x => [part x, .place .key]
  | setDelay x => [.place .delay, part x]
  | setSound x => [.place .sound, part x]
  | addToIndex x => [.place .index, part x]
  | pointToGlyph x => [.place .glyph, part x]
  | storeDigits x => [.place .digits, part x]
  | storeRegisters x => [.place .memory, part x]
  | loadRegisters x => [part x, .place .memory]

lemma operands_eq (i : Instruction ρ) : i.operands = i.parts.map Operand.text := by
  cases i with
  | skip test expected => cases test <;> rfl
  | jumpOffset base =>
      have hfirst : "V0" = (Operand.register 0).text := by
        simp [Operand.text, registerText, RegisterName.number, Hex.digits, Hex.digitChar]
      rw [operands, hfirst]
      rfl
  | _ => rfl

end Parts

/-! ### The parts read off a listing -/

/-- No mnemonic has a blank in it. -/
lemma consists_mnemonic {ρ : Type} (i : Instruction ρ) : Consists (· != ' ') i.mnemonic := by
  cases i with
  | skip test expected =>
      cases test <;> cases expected <;> simp [Consists, mnemonic, Test.mnemonic]
  | arithmetic operation x y =>
      cases operation <;> simp [Consists, mnemonic, Arithmetic.mnemonic]
  | _ => simp [Consists, mnemonic]

/-- A mnemonic alone is no listing with operands, because these come after a blank. -/
lemma line_nil_ne {m m' o : String} {os : List String} (hm : Consists (· != ' ') m) :
    line m [] ≠ line m' (o :: os) := by
  intro h
  have hm' : m = m' ++ " " ++ ", ".intercalate (o :: os) := h
  rw [hm'] at hm
  exact absurd (hm ' ' (by simp)) (by decide)

/-- The mnemonic ends at the first blank, and the operands at the commas behind it. -/
lemma line_inj {m m' : String} {os os' : List String} (hm : Consists (· != ' ') m)
    (hm' : Consists (· != ' ') m') (hos : ∀ o ∈ os, Consists (· != ',') o)
    (hos' : ∀ o ∈ os', Consists (· != ',') o) (h : line m os = line m' os') :
    m = m' ∧ os = os' := by
  cases os with
  | nil =>
      cases os' with
      | nil => exact ⟨h, rfl⟩
      | cons o' os' => exact absurd h (line_nil_ne hm)
  | cons o os =>
      cases os' with
      | nil => exact absurd h.symm (line_nil_ne hm')
      | cons o' os' =>
          have hline : m ++ (" " ++ ", ".intercalate (o :: os)) =
              m' ++ (" " ++ ", ".intercalate (o' :: os')) := by
            simpa only [line, String.append_assoc] using h
          have hstops (s : String) : Stops (· != ' ') (" " ++ s) :=
            stops_append ' ' (by simp) (by decide)
          obtain ⟨hmm, hrest⟩ := append_inj_of_stops hm hm' (hstops _) (hstops _) hline
          exact ⟨hmm, intercalate_inj ',' (by simp) (by decide) hos hos' (List.cons_ne_nil _ _)
            (List.cons_ne_nil _ _) ((String.append_right_inj " ").mp hrest)⟩

/-- A listing determines the mnemonic and the operands. -/
lemma mnemonic_parts_of_text {ρ : Type} [RegisterName ρ] {i j : Instruction ρ}
    (h : i.text = j.text) : i.mnemonic = j.mnemonic ∧ i.parts = j.parts := by
  have hcomma (k : Instruction ρ) : ∀ o ∈ k.operands, Consists (· != ',') o := by
    rw [operands_eq]
    intro o ho
    obtain ⟨part, -, rfl⟩ := List.mem_map.mp ho
    exact part.consists_text
  obtain ⟨hmnemonic, hoperands⟩ :=
    line_inj (consists_mnemonic i) (consists_mnemonic j) (hcomma i) (hcomma j) h
  rw [operands_eq, operands_eq] at hoperands
  exact ⟨hmnemonic, List.map_injective_iff.mpr Operand.text_injective hoperands⟩

/-! ### The instructions with the same operands -/

/-- The operations on two registers. -/
def operations : List Arithmetic :=
  [.copy, .or, .and, .xor, .add, .sub, .shiftRight, .subReverse, .shiftLeft]

/-- All instructions that have some operands. -/
def withParts : List Operand → List (Instruction ℕ)
  | [] => [clear, ret]
  | [.address target] => [jump target, call target]
  | [.register x] => [skip (.key x) true, skip (.key x) false]
  | [.register _, .address base] => [jumpOffset base]
  | [.register x, .byte value] =>
    [skip (.byte x value) true, skip (.byte x value) false, setRegister x value,
      addConstant x value, random x value]
  | [.register x, .register y] =>
    skip (.register x y) true :: skip (.register x y) false ::
      operations.map fun operation => arithmetic operation x y
  | [.register x, .register y, .height rows] => [draw x y rows]
  | [.place .index, .address address] => [setIndex address]
  | [.register x, .place .delay] => [getDelay x]
  | [.register x, .place .key] => [awaitKey x]
  | [.register x, .place .memory] => [loadRegisters x]
  | [.place .delay, .register x] => [setDelay x]
  | [.place .sound, .register x] => [setSound x]
  | [.place .index, .register x] => [addToIndex x]
  | [.place .glyph, .register x] => [pointToGlyph x]
  | [.place .digits, .register x] => [storeDigits x]
  | [.place .memory, .register x] => [storeRegisters x]
  | _ => []

lemma mem_withParts (i : Instruction ℕ) : i ∈ withParts i.parts := by
  cases i with
  | skip test expected =>
      cases test <;> cases expected <;> simp [parts, part, withParts, RegisterName.number]
  | arithmetic operation x y =>
      cases operation <;> simp [parts, part, withParts, operations, RegisterName.number]
  | _ => simp [parts, part, withParts, RegisterName.number]

/-- Instructions with the same operands have different mnemonics. -/
theorem nodup_mnemonics (ps : List Operand) : ((withParts ps).map mnemonic).Nodup := by
  unfold withParts
  split <;> simp [operations, mnemonic, Test.mnemonic, Arithmetic.mnemonic]

/-! ### Listings and lines -/

section Named

variable {ρ σ : Type}

lemma mnemonic_map (f : ρ → σ) (i : Instruction ρ) : (i.map f).mnemonic = i.mnemonic := by
  cases i with
  | skip test expected => cases test <;> cases expected <;> rfl
  | _ => rfl

/-- Registers can be given their names back. -/
lemma leftInverse_map {f : ρ → σ} {g : σ → ρ} (h : Function.LeftInverse g f) :
    Function.LeftInverse (map g) (map f) := by
  intro i
  cases i with
  | skip test expected => cases test <;> simp [map, Test.map, h.eq]
  | _ => simp [map, h.eq]

variable [RegisterName ρ]

lemma parts_map_number (i : Instruction ρ) : (i.map RegisterName.number).parts = i.parts := by
  cases i with
  | skip test expected => cases test <;> rfl
  | _ => rfl

/-- A listing determines the instruction, if the registers can be told from their numbers. -/
theorem text_injective {named : ℕ → ρ} (hnamed : Function.LeftInverse named RegisterName.number) :
    Function.Injective (text : Instruction ρ → String) := by
  intro i j h
  obtain ⟨hmnemonic, hparts⟩ := mnemonic_parts_of_text h
  have hi : i.map RegisterName.number ∈ withParts i.parts :=
    parts_map_number i ▸ mem_withParts (i.map RegisterName.number)
  have hj : j.map RegisterName.number ∈ withParts i.parts :=
    hparts ▸ parts_map_number j ▸ mem_withParts (j.map RegisterName.number)
  refine (leftInverse_map hnamed).injective (List.inj_on_of_nodup_map (nodup_mnemonics _) hi hj ?_)
  rw [mnemonic_map, mnemonic_map, hmnemonic]

end Named

end Instruction

/-- A line of a trace determines the record, if the registers can be told from their numbers. -/
theorem TraceRecord.text_injective {ρ : Type} [RegisterName ρ] {named : ℕ → ρ}
    (hnamed : Function.LeftInverse named RegisterName.number) :
    Function.Injective (TraceRecord.text : TraceRecord ρ → String) := by
  rintro ⟨address, opcode, instruction⟩ ⟨address', opcode', instruction'⟩ h
  -- no digit is a blank
  have hblank : isHexDigit ' ' = false := by decide
  simp only [TraceRecord.text, String.append_assoc] at h
  obtain ⟨rfl, hrest⟩ := numeral_separator_inj ' ' (by simp) hblank h
  obtain ⟨hopcode, htext⟩ := numeral_separator_inj ' ' (by simp) hblank hrest
  rw [UInt16.toNat_inj.mp hopcode, Instruction.text_injective hnamed htext]

/-- A line of a trace identifies its record: records with equal lines are equal, whatever their
addresses and words are, and for listings alone the same. It does not matter how large the numbers
of the registers, the addresses and the heights in an instruction are: neither the many loads nor
anything else with a common mnemonic can be confused. The same with the registers that there are. -/
theorem trace_line_identifies_record :
    Function.Injective (TraceRecord.text : TraceRecord ℕ → String) ∧
    Function.Injective (Instruction.text : Instruction ℕ → String) ∧
    Function.Injective (TraceRecord.text : TraceRecord Register → String) ∧
    Function.Injective (Instruction.text : Instruction Register → String) := by
  have hnumber : Function.LeftInverse (id : ℕ → ℕ) RegisterName.number := fun _ => rfl
  have hregister : Function.LeftInverse (Fin.ofNat 16) (RegisterName.number : Register → ℕ) :=
    Fin.ofNat_val_eq_self
  exact ⟨TraceRecord.text_injective hnumber, Instruction.text_injective hnumber,
    TraceRecord.text_injective hregister, Instruction.text_injective hregister⟩

end ChipEight
