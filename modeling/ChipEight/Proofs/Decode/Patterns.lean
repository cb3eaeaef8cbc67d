import ChipEight.Proofs.Cycle.Faults

/-!
The documented words, and the words that are decoded beyond them.

The instruction set is documented as a table of patterns such as `8XY4`: a digit stands for
itself and every other letter for any digit. Decoding follows the table except that the last
resort, `ofLowByte?`, looks at the last two digits only.

* `patterns`, `Documented`: the table, and the words that have one of its patterns.
* `decode?_of_documented`: every documented word is decoded.
* `decode?_of_not_documented`: what becomes of an undocumented word is up to its last byte.
* `rejects_iff`: a cycle rejects its word exactly if the word is undocumented and its third
  digit is not `E`; the undocumented words whose third digit is `E` return or clear the screen.
* `stray_word_is_not_rejected`: one of these is `80E8`, which clears the screen.
-/

namespace ChipEight

/-! ### The table of patterns -/

/-- The four digits of a word. -/
def Opcode.digits (word : Opcode) : List Nat := [word.family, word.x, word.y, word.n]

/-- A word fits a pattern if it has all digits that the pattern fixes. -/
def Opcode.Fits (word : Opcode) (pattern : String) : Prop :=
  List.Forall₂ (fun place digit => (Hex.digitValue? place).all (· == digit)) pattern.toList
    word.digits

instance (word : Opcode) (pattern : String) : Decidable (word.Fits pattern) :=
  inferInstanceAs (Decidable (List.Forall₂
    (fun place digit => (Hex.digitValue? place).all (· == digit)) pattern.toList word.digits))

/-- Whether a word fits one of some patterns. -/
def Opcode.FitsOneOf (word : Opcode) (patterns : List String) : Prop :=
  ∃ pattern ∈ patterns, word.Fits pattern

instance (word : Opcode) (patterns : List String) : Decidable (word.FitsOneOf patterns) :=
  inferInstanceAs (Decidable (∃ pattern ∈ patterns, word.Fits pattern))

lemma Opcode.fitsOneOf_of_fits {word : Opcode} {pattern : String} {patterns : List String}
    (h : word.Fits pattern) (hmem : pattern ∈ patterns) : word.FitsOneOf patterns :=
  ⟨pattern, hmem, h⟩

namespace Instruction

/-- The documented patterns. -/
def patterns : List String :=
  ["00E_", "00EE", "1NNN", "2NNN", "3XNN", "4XNN", "5XY_", "6XNN", "7XNN",
   "8XY0", "8XY1", "8XY2", "8XY3", "8XY4", "8XY5", "8XY6", "8XY7", "8XYE", "9XY_",
   "ANNN", "BNNN", "CXNN", "DXYN", "EX9E", "EXA1",
   "FX07", "FX0A", "FX15", "FX18", "FX1E", "FX29", "FX33", "FX55", "FX65"]

/-- A word is documented if it fits one of the patterns. -/
def Documented (word : Opcode) : Prop := ∃ pattern ∈ patterns, word.Fits pattern

variable {word : Opcode}

lemma toNat_nn (word : Opcode) : word.nn.toNat = 16 * word.y + word.n := by
  simp only [Opcode.nn, Opcode.y, Opcode.n, UInt16.toNat_toUInt8]
  omega

lemma toNat_nn_eq_iff {byte : Nat} :
    word.nn.toNat = byte ↔ byte / 16 = word.y.val ∧ byte % 16 = word.n := by
  have hn := word.n_lt
  rw [toNat_nn]
  omega

lemma documented_zero_iff (h : word.family = 0) :
    Documented word ↔ word.x.val = 0 ∧ word.y.val = 14 := by
  simp [Documented, patterns, Opcode.Fits, Opcode.digits, Hex.digitValue?, h]
  omega

lemma documented_eight_iff (h : word.family = 8) :
    Documented word ↔ word.n ≤ 7 ∨ word.n = 14 := by
  simp [Documented, patterns, Opcode.Fits, Opcode.digits, Hex.digitValue?, h]
  omega

lemma documented_fourteen_iff (h : word.family = 14) :
    Documented word ↔ word.nn.toNat = 0x9E ∨ word.nn.toNat = 0xA1 := by
  simp only [toNat_nn_eq_iff]
  simp [Documented, patterns, Opcode.Fits, Opcode.digits, Hex.digitValue?, h]

/-- The last bytes of the documented `F` words. -/
def deviceBytes : List Nat := [0x07, 0x0A, 0x15, 0x18, 0x1E, 0x29, 0x33, 0x55, 0x65]

lemma documented_fifteen_iff (h : word.family = 15) :
    Documented word ↔ word.nn.toNat ∈ deviceBytes := by
  simp only [deviceBytes, List.mem_cons, List.not_mem_nil, or_false, toNat_nn_eq_iff]
  simp [Documented, patterns, Opcode.Fits, Opcode.digits, Hex.digitValue?, h]

/-- In the other families every word is documented. -/
lemma documented_of_family (h1 : 1 ≤ word.family) (h13 : word.family ≤ 13)
    (h8 : word.family ≠ 8) : Documented word := by
  interval_cases hf : word.family
  case «8» => exact absurd rfl h8
  all_goals simp [Documented, patterns, Opcode.Fits, Opcode.digits, Hex.digitValue?, hf]

/-- The families that are documented in part. -/
lemma family_of_not_documented (h : ¬ Documented word) :
    word.family = 0 ∨ word.family = 8 ∨ word.family = 14 ∨ word.family = 15 := by
  have hlt := word.family_lt
  by_contra hf
  push Not at hf
  exact h (documented_of_family (by omega) (by omega) hf.2.1)

/-! ### The parts of the decoder -/

lemma ofLowByte?_eq_none_iff {byte : UInt8} :
    ofLowByte? byte = none ↔ byte.toNat / 16 ≠ 14 := by
  rw [ofLowByte?]
  split_ifs with hret hclear
  · simp [hret]
  · simp [hclear]
  · simp [hclear]

lemma ofDigit?_eq_none_iff {d : Nat} (hd : d < 16) :
    Arithmetic.ofDigit? d = none ↔ ¬ (d ≤ 7 ∨ d = 14) := by
  interval_cases d <;> simp [Arithmetic.ofDigit?]

lemma ofKeyByte?_eq_none_iff {x : Register} {byte : UInt8} :
    ofKeyByte? x byte = none ↔ ¬ (byte.toNat = 0x9E ∨ byte.toNat = 0xA1) := by
  rw [ofKeyByte?]
  split <;> simp_all

lemma ofDeviceByte?_eq_none_iff {x : Register} {byte : UInt8} :
    ofDeviceByte? x byte = none ↔ byte.toNat ∉ deviceBytes := by
  rw [ofDeviceByte?, deviceBytes]
  split <;> simp_all

/-! ### Decoding against the table -/

/-- An undocumented word is decoded by its last byte, whatever stands before it. -/
theorem decode?_of_not_documented (h : ¬ Documented word) :
    decode? word = ofLowByte? word.nn := by
  rcases family_of_not_documented h with hf | hf | hf | hf
  · simp only [decode?, hf]
  · rw [documented_eight_iff hf] at h
    simp only [decode?, hf, (ofDigit?_eq_none_iff word.n_lt).mpr h]
  · rw [documented_fourteen_iff hf] at h
    simp only [decode?, hf, ofKeyByte?_eq_none_iff.mpr h, Option.none_or]
  · rw [documented_fifteen_iff hf] at h
    simp only [decode?, hf, ofDeviceByte?_eq_none_iff.mpr h, Option.none_or]

/-- A documented word is decoded, and clears or returns only if it starts with two zeros. -/
theorem decode?_of_documented (h : Documented word) :
    ∃ i, decode? word = some i ∧
      (i = .clear ∨ i = .ret → word.family = 0 ∧ word.x.val = 0) := by
  have hlt := word.family_lt
  interval_cases hf : word.family
  case «0» =>
    obtain ⟨hx, hy⟩ := (documented_zero_iff hf).mp h
    have hlow : ofLowByte? word.nn ≠ none := by
      have hn := word.n_lt
      rw [ne_eq, ofLowByte?_eq_none_iff, toNat_nn]
      omega
    obtain ⟨i, hi⟩ := Option.ne_none_iff_exists'.mp hlow
    exact ⟨i, by simp only [decode?, hf, hi], fun _ => ⟨rfl, hx⟩⟩
  case «8» =>
    have hdigit : Arithmetic.ofDigit? word.n ≠ none := by
      rw [ne_eq, ofDigit?_eq_none_iff word.n_lt, not_not]
      exact (documented_eight_iff hf).mp h
    obtain ⟨operation, ho⟩ := Option.ne_none_iff_exists'.mp hdigit
    simp [decode?, hf, ho]
  case «14» =>
    obtain hb | hb := (documented_fourteen_iff hf).mp h <;>
      simp [decode?, hf, ofKeyByte?, hb]
  case «15» =>
    have hb := (documented_fifteen_iff hf).mp h
    simp only [deviceBytes, List.mem_cons, List.not_mem_nil, or_false] at hb
    rcases hb with hb | hb | hb | hb | hb | hb | hb | hb | hb <;>
      simp [decode?, hf, ofDeviceByte?, hb]
  all_goals simp [decode?, hf]

/-- Decoding fails exactly for the undocumented words whose third digit is not `E`. -/
theorem decode?_eq_none_iff :
    decode? word = none ↔ ¬ Documented word ∧ word.y.val ≠ 0xE := by
  by_cases h : Documented word
  · obtain ⟨i, hi, -⟩ := decode?_of_documented h
    simp [h, hi]
  · have hn := word.n_lt
    rw [decode?_of_not_documented h, ofLowByte?_eq_none_iff, toNat_nn]
    simp only [h, not_false_eq_true, true_and]
    omega

end Instruction

/-! ### Rejected words -/

open Instruction

/-- The cycle of a machine fails because the word at the counter stands for no instruction. -/
def Machine.Rejects (m : Machine) : Prop :=
  ∃ crash, m.cycle.result = .error crash ∧ crash.fault = .opcode (.unsupported m.nextWord)

lemma Machine.rejects_iff_decode {m : Machine} (h : m.counter ≤ 0xFFE) :
    m.Rejects ↔ decode? m.nextWord = none := by
  rw [Rejects, error_iff_fails]
  constructor
  · intro hfails
    cases hfails with
    | decode _ hdecode => exact hdecode
  · exact .decode h

/-- The high byte of a word that starts with two zeros. -/
lemma toNat_lt_of_zeros {word : Opcode} (hfamily : word.family = 0) (hx : word.x.val = 0) :
    word.toNat < 0x100 := by
  rw [Opcode.family] at hfamily
  simp only [Opcode.x] at hx
  omega

/-- A cycle rejects its word exactly if the word is undocumented and its third digit is not `E`.
An undocumented word whose third digit is `E` returns if it ends in `EE`, and clears the screen
otherwise. The high byte of a documented word that does either is zero. -/
theorem rejects_iff (m : Machine) (h : m.counter ≤ 0xFFE) :
    (m.Rejects ↔ ¬ Documented m.nextWord ∧ m.nextWord.y.val ≠ 0xE) ∧
      (¬ Documented m.nextWord → m.nextWord.y.val = 0xE →
        decode? m.nextWord = some (if m.nextWord.nn = 0xEE then .ret else .clear)) ∧
      (Documented m.nextWord → ∀ i, decode? m.nextWord = some i → i = .clear ∨ i = .ret →
        m.nextWord.toNat < 0x100) := by
  refine ⟨?_, ?_, ?_⟩
  · rw [Machine.rejects_iff_decode h, decode?_eq_none_iff]
  · intro hundocumented hy
    rw [decode?_of_not_documented hundocumented, ofLowByte?]
    have hn := m.nextWord.n_lt
    have hhigh : m.nextWord.nn.toNat / 16 = 14 := by
      rw [toNat_nn, hy]
      omega
    split_ifs <;> rfl
  · intro hdocumented i hi hkind
    obtain ⟨j, hj, hzeros⟩ := decode?_of_documented hdocumented
    cases hi.symm.trans hj
    obtain ⟨hfamily, hx⟩ := hzeros hkind
    exact toNat_lt_of_zeros hfamily hx

/-- The word `8008` is rejected. -/
theorem rejects_iff_at_unknown_arithmetic :
    let rom : Rom := ⟨"UNKNOWN", [0x80, 0x08], by decide⟩
    let m := Machine.boot rom {} (.cycling #[])
    m.counter ≤ 0xFFE ∧ m.Rejects := by
  intro rom m
  have hword : m.nextWord = Opcode.ofBytes 0x80 0x08 := Machine.nextWord_boot rfl _ _
  have hcounter : m.counter ≤ 0xFFE := by decide
  refine ⟨hcounter, (rejects_iff m hcounter).1.mpr ?_⟩
  rw [hword]
  exact ⟨fun hd => absurd ((documented_eight_iff (by decide)).mp hd) (by decide), by decide⟩

/-- The word `80E8` has none of the patterns, and the cycle does not reject it but clears the
screen. -/
theorem stray_word_is_not_rejected :
    let rom : Rom := ⟨"STRAY", [0x80, 0xE8], by decide⟩
    let m := Machine.boot rom {} (.cycling #[])
    m.counter ≤ 0xFFE ∧ m.nextWord = 0x80E8 ∧ ¬ Documented m.nextWord ∧ ¬ m.Rejects ∧
      m.cycle.result = .ok .clear := by
  intro rom m
  have hword : m.nextWord = Opcode.ofBytes 0x80 0xE8 := Machine.nextWord_boot rfl _ _
  have hstray : m.nextWord = 0x80E8 := hword.trans (by decide)
  have hcounter : m.counter ≤ 0xFFE := by decide
  have hfetch : m.memory.fetch m.counter = .ok 0x80E8 :=
    Machine.fetch_eq_ok_iff.mpr ⟨hcounter, hstray⟩
  have hresult : m.cycle.result = .ok .clear := by
    rw [Machine.cycle, hfetch]
    rfl
  refine ⟨hcounter, hstray, ?_, ?_, hresult⟩
  · rw [hstray]
    exact fun hd => absurd ((documented_eight_iff (by decide)).mp hd) (by decide)
  · rintro ⟨crash, hcrash, -⟩
    rw [hresult] at hcrash
    cases hcrash

end ChipEight
