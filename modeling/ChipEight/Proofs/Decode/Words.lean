import Mathlib.Tactic
import ChipEight.Proofs.Decode.Patterns

/-!
How instructions are written.

The table of patterns says which words there are, and this one says what each of them stands for:
a word is written for an instruction if it fits the pattern of the instruction and has its
operands in the places that the pattern leaves open.

* `Arithmetic.pattern`, `Test.pattern`: the patterns of the register operations and of the skips.
* `Opcode.Returns`, `Opcode.Clears`: the documented words for the two instructions without
  operands, and the undocumented ones that are taken for them.
* `Spelled`, `documented_of_spelled`: the table. Beyond these two instructions it names documented
  words only.
* `decode?_eq_some_iff`: a word is decoded to the instruction it is written for, and to no other.
-/

namespace ChipEight

/-! ### The table -/

/-- The last digit of the words for a register operation. -/
def Arithmetic.digit : Arithmetic → Nat
  | copy => 0x0
  | or => 0x1
  | and => 0x2
  | xor => 0x3
  | add => 0x4
  | sub => 0x5
  | shiftRight => 0x6
  | subReverse => 0x7
  | shiftLeft => 0xE

/-- The pattern of a register operation. -/
def Arithmetic.pattern : Arithmetic → String
  | copy => "8XY0"
  | or => "8XY1"
  | and => "8XY2"
  | xor => "8XY3"
  | add => "8XY4"
  | sub => "8XY5"
  | shiftRight => "8XY6"
  | subReverse => "8XY7"
  | shiftLeft => "8XYE"

/-- The pattern of the skip that wants a test to come out in the given way. -/
def Test.pattern {ρ : Type} (test : Test ρ) (expected : Bool) : String :=
  match test, expected with
  | byte _ _, true => "3XNN"
  | byte _ _, false => "4XNN"
  | register _ _, true => "5XY_"
  | register _ _, false => "9XY_"
  | key _, true => "EX9E"
  | key _, false => "EXA1"

/-- Whether a word has the operands of a test. -/
def Test.Operands (word : Opcode) : Test Register → Prop
  | byte x value => word.x = x ∧ word.nn = value
  | register x y => word.x = x ∧ word.y = y
  | key x => word.x = x

namespace Opcode

/-- Whether a word returns: the documented word for it does, and so do the undocumented words
that end in the same byte. -/
def Returns (word : Opcode) : Prop :=
  word.Fits "00EE" ∨ ¬ Instruction.Documented word ∧ word.nn = 0xEE

/-- Whether a word clears the screen: the documented words for it do, and so do the undocumented
words whose third digit is the same. -/
def Clears (word : Opcode) : Prop :=
  (word.Fits "00E_" ∨ ¬ Instruction.Documented word ∧ word.y.val = 0xE) ∧ word.nn ≠ 0xEE

end Opcode

namespace Instruction

/-- Whether a word is written for an instruction. -/
def Spelled (word : Opcode) : Instruction Register → Prop
  | clear => word.Clears
  | ret => word.Returns
  | jump target => word.Fits "1NNN" ∧ word.nnn = target
  | call target => word.Fits "2NNN" ∧ word.nnn = target
  | jumpOffset base => word.Fits "BNNN" ∧ word.nnn = base
  | skip test expected => word.Fits (test.pattern expected) ∧ test.Operands word
  | setRegister x value => word.Fits "6XNN" ∧ word.x = x ∧ word.nn = value
  | addConstant x value => word.Fits "7XNN" ∧ word.x = x ∧ word.nn = value
  | arithmetic operation x y => word.Fits operation.pattern ∧ word.x = x ∧ word.y = y
  | setIndex address => word.Fits "ANNN" ∧ word.nnn = address
  | random x mask => word.Fits "CXNN" ∧ word.x = x ∧ word.nn = mask
  | draw x y height => word.Fits "DXYN" ∧ word.x = x ∧ word.y = y ∧ word.n = height
  | getDelay x => word.Fits "FX07" ∧ word.x = x
  | awaitKey x => word.Fits "FX0A" ∧ word.x = x
  | setDelay x => word.Fits "FX15" ∧ word.x = x
  | setSound x => word.Fits "FX18" ∧ word.x = x
  | addToIndex x => word.Fits "FX1E" ∧ word.x = x
  | pointToGlyph x => word.Fits "FX29" ∧ word.x = x
  | storeDigits x => word.Fits "FX33" ∧ word.x = x
  | storeRegisters x => word.Fits "FX55" ∧ word.x = x
  | loadRegisters x => word.Fits "FX65" ∧ word.x = x

variable {word : Opcode} {i : Instruction Register}

lemma documented_of_fits {pattern : String} (h : word.Fits pattern) (hmem : pattern ∈ patterns) :
    Documented word := ⟨pattern, hmem, h⟩

/-- Every word in the table is documented, but for those that return or clear the screen. -/
lemma documented_of_spelled (h : i.Spelled word) (hret : i ≠ .ret) (hclear : i ≠ .clear) :
    Documented word := by
  cases i with
  | ret => exact absurd rfl hret
  | clear => exact absurd rfl hclear
  | skip test expected =>
      refine documented_of_fits h.1 ?_
      cases test <;> cases expected <;> simp [Test.pattern, patterns]
  | arithmetic operation x y =>
      refine documented_of_fits h.1 ?_
      cases operation <;> decide
  | _ => exact documented_of_fits h.1 (by decide)

/-! ### Decoding against the table -/

lemma ofLowByte?_eq_some_iff {byte : UInt8} :
    ofLowByte? byte = some i ↔
      i = .ret ∧ byte = 0xEE ∨ i = .clear ∧ byte.toNat / 16 = 14 ∧ byte ≠ 0xEE := by
  rw [ofLowByte?]
  split_ifs with hret hclear
  · simp [hret, eq_comm]
  · simp [hret, hclear, eq_comm]
  · simp [hret, hclear]

lemma ofDigit?_eq_some_iff {d : Nat} {operation : Arithmetic} :
    Arithmetic.ofDigit? d = some operation ↔ d = operation.digit := by
  constructor
  · intro h
    unfold Arithmetic.ofDigit? at h
    split at h <;> cases h <;> rfl
  · rintro rfl
    cases operation <;> rfl

lemma fits_arithmetic_iff {operation : Arithmetic} :
    word.Fits operation.pattern ↔ word.family = 8 ∧ word.n = operation.digit := by
  cases operation <;>
  · simp [Arithmetic.pattern, Arithmetic.digit, Opcode.Fits, Opcode.digits, Hex.digitValue?]
    omega

lemma fits_return_iff : word.Fits "00EE" ↔ word.family = 0 ∧ word.x.val = 0 ∧ word.nn = 0xEE := by
  rw [← UInt8.toNat_inj, show (0xEE : UInt8).toNat = 0xEE from rfl, toNat_nn_eq_iff]
  simp [Opcode.Fits, Opcode.digits, Hex.digitValue?]
  omega

lemma fits_clear_iff :
    word.Fits "00E_" ↔ word.family = 0 ∧ word.x.val = 0 ∧ word.y.val = 14 := by
  simp [Opcode.Fits, Opcode.digits, Hex.digitValue?]
  omega

/-- The last byte decides what an undocumented word is taken for. -/
lemma spelled_of_not_documented (h : ¬ Documented word) :
    i.Spelled word ↔ ofLowByte? word.nn = some i := by
  have hn := word.n_lt
  have hhigh : word.nn.toNat / 16 = 14 ↔ word.y.val = 14 := by
    rw [toNat_nn]
    omega
  have hfits : ∀ pattern ∈ patterns, ¬ word.Fits pattern := fun pattern hmem hfits =>
    h (documented_of_fits hfits hmem)
  rw [ofLowByte?_eq_some_iff, hhigh]
  constructor
  · intro hspelled
    by_cases hret : i = .ret
    · subst hret
      exact .inl ⟨rfl, (hspelled.resolve_left (hfits _ (by decide))).2⟩
    by_cases hclear : i = .clear
    · subst hclear
      exact .inr ⟨rfl, (hspelled.1.resolve_left (hfits _ (by decide))).2, hspelled.2⟩
    exact absurd (documented_of_spelled hspelled hret hclear) h
  · rintro (⟨rfl, hbyte⟩ | ⟨rfl, hy, hbyte⟩)
    · exact .inr ⟨h, hbyte⟩
    · exact ⟨.inr ⟨h, hy⟩, hbyte⟩

/-- A documented word is written for what it is decoded to. -/
lemma spelled_of_decode (h : Documented word) (hi : decode? word = some i) : i.Spelled word := by
  have hn := word.n_lt
  rw [decode?] at hi
  split at hi
  case h_8 hf =>
    obtain ⟨operation, hoperation⟩ : ∃ operation, Arithmetic.ofDigit? word.n = some operation := by
      rw [← Option.ne_none_iff_exists', ne_eq, ofDigit?_eq_none_iff hn, not_not]
      exact (documented_eight_iff hf).mp h
    rw [hoperation] at hi
    cases hi
    exact ⟨fits_arithmetic_iff.mpr ⟨hf, ofDigit?_eq_some_iff.mp hoperation⟩, rfl, rfl⟩
  case h_14 hf =>
    obtain hb | hb := (documented_fourteen_iff hf).mp h <;>
    · simp only [ofKeyByte?, hb, Option.some_or] at hi
      cases hi
      rw [toNat_nn_eq_iff] at hb
      simp [Spelled, Test.pattern, Test.Operands, Opcode.Fits, Opcode.digits, Hex.digitValue?, hf,
        ← hb.1, ← hb.2]
  case h_15 hf =>
    have hb := (documented_fifteen_iff hf).mp h
    simp only [deviceBytes, List.mem_cons, List.not_mem_nil, or_false] at hb
    rcases hb with hb | hb | hb | hb | hb | hb | hb | hb | hb <;>
    · simp only [ofDeviceByte?, hb, Option.some_or] at hi
      cases hi
      rw [toNat_nn_eq_iff] at hb
      simp [Spelled, Opcode.Fits, Opcode.digits, Hex.digitValue?, hf, ← hb.1, ← hb.2]
  case h_16 =>
    have hf : word.family = 0 := by
      have hlt := word.family_lt
      by_contra hne
      grind
    obtain ⟨hx, hy⟩ := (documented_zero_iff hf).mp h
    rcases ofLowByte?_eq_some_iff.mp hi with ⟨rfl, hbyte⟩ | ⟨rfl, -, hbyte⟩
    · exact .inl (fits_return_iff.mpr ⟨hf, hx, hbyte⟩)
    · exact ⟨.inl (fits_clear_iff.mpr ⟨hf, hx, hy⟩), hbyte⟩
  all_goals
    next hf =>
      cases hi
      simp [Spelled, Test.pattern, Test.Operands, Opcode.Fits, Opcode.digits, Hex.digitValue?, hf]

/-- A documented word is decoded to what it is written for. -/
lemma decode_of_spelled (h : Documented word) (hi : i.Spelled word) : decode? word = some i := by
  cases i with
  | clear =>
      obtain ⟨hf, -, hy⟩ := fits_clear_iff.mp (hi.1.resolve_right fun hstray => hstray.1 h)
      have hn := word.n_lt
      simp only [decode?, hf]
      refine ofLowByte?_eq_some_iff.mpr (.inr ⟨rfl, ?_, hi.2⟩)
      rw [toNat_nn]
      omega
  | ret =>
      obtain ⟨hf, -, hbyte⟩ := fits_return_iff.mp (hi.resolve_right fun hstray => hstray.1 h)
      simp only [decode?, hf]
      exact ofLowByte?_eq_some_iff.mpr (.inl ⟨rfl, hbyte⟩)
  | skip test expected =>
      cases test <;> cases expected <;>
      · simp [Spelled, Test.pattern, Test.Operands, Opcode.Fits, Opcode.digits,
          Hex.digitValue?] at hi
        simp [decode?, ofKeyByte?, toNat_nn, ← hi.1, ← hi.2]
  | arithmetic operation x y =>
      obtain ⟨hfits, rfl, rfl⟩ := hi
      obtain ⟨hf, hdigit⟩ := fits_arithmetic_iff.mp hfits
      simp only [decode?, hf, ofDigit?_eq_some_iff.mpr hdigit]
  | _ =>
      simp [Spelled, Opcode.Fits, Opcode.digits, Hex.digitValue?] at hi
      simp [decode?, ofDeviceByte?, toNat_nn, ← hi.1, ← hi.2]

/-- A word is decoded to the instruction it is written for, and to no other. -/
theorem decode?_eq_some_iff : decode? word = some i ↔ i.Spelled word := by
  by_cases h : Documented word
  · exact ⟨spelled_of_decode h, decode_of_spelled h⟩
  · rw [decode?_of_not_documented h, spelled_of_not_documented h]

end Instruction

end ChipEight
