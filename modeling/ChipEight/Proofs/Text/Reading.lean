import Mathlib.Data.List.Basic
import ChipEight.Text.Hex

/-!
Reading a text back piece by piece.

A number is written without a mark at its end: it goes on as long as there are digits. So what a
number is followed by decides whether it can be read back, and `Stops` names the condition: the
text that follows does not begin with another digit. Under it `numeral_append_inj` and
`decimal_append_inj` split equal texts behind equal numbers, and `numeral_separator_inj` and
`decimal_separator_inj` behind a fixed text that follows these.

* `Consists` and `Stops` are the two halves of the argument, the kind of character that a piece
  is made of and a rest that does not begin with it; `append_inj_of_stops` puts them together.
* `lines` cuts a text at its line feeds, `OneLine` says that there is none. A text that was put
  together from lines falls apart into them again (`lines_intercalate`), even if some of these
  contain line feeds themselves, and nothing is lost by the cutting (`lines_injective`).
-/

namespace ChipEight

namespace Text

/-! ### Pieces of one kind of character -/

/-- The text has characters of one kind only. -/
def Consists (kind : Char → Bool) (s : String) : Prop := ∀ c ∈ s.toList, kind c = true

/-- The text does not begin with a character of the kind. -/
def Stops (kind : Char → Bool) (s : String) : Prop := ∀ c ∈ s.toList.head?, kind c = false

section Kind

variable {kind : Char → Bool}

@[simp] theorem consists_append {s t : String} :
    Consists kind (s ++ t) ↔ Consists kind s ∧ Consists kind t := by
  simp only [Consists, String.toList_append, List.forall_mem_append]

/-- The first character of a text decides whether the kind goes on. -/
theorem stops_of_head (c : Char) {s : String} (hs : s.toList.head? = some c)
    (hc : kind c = false) : Stops kind s := by
  intro d hd
  rw [hs, Option.mem_some_iff] at hd
  exact hd ▸ hc

theorem stops_append (c : Char) {s t : String} (hs : s.toList.head? = some c)
    (hc : kind c = false) : Stops kind (s ++ t) := by
  refine stops_of_head c ?_ hc
  rw [String.toList_append, List.head?_append, hs, Option.some_or]

theorem consists_join {ss : List String} (h : ∀ s ∈ ss, Consists kind s) :
    Consists kind (String.join ss) := by
  intro c hc
  simp only [String.toList_join, List.mem_flatMap] at hc
  obtain ⟨s, hs, hc⟩ := hc
  exact h s hs c hc

/-- The piece at the front of a text is all that there is before the kind of character changes. -/
theorem takeWhile_append_of_stops {w s : String} (hw : Consists kind w) (hs : Stops kind s) :
    (w ++ s).toList.takeWhile kind = w.toList := by
  have hstop : s.toList.takeWhile kind = [] := by
    cases hl : s.toList with
    | nil => rfl
    | cons c rest =>
      have hc : kind c = false := hs c (by simp [hl])
      simp [hc]
  rw [String.toList_append, List.takeWhile_append_of_pos hw, hstop, List.append_nil]

/-- Two texts are split at the same place if their front pieces are of one kind of character and
their rests do not go on with it. -/
theorem append_inj_of_stops {v w s t : String} (hv : Consists kind v) (hw : Consists kind w)
    (hs : Stops kind s) (ht : Stops kind t) (h : v ++ s = w ++ t) : v = w ∧ s = t := by
  have hvw : v = w := String.toList_inj.mp <| calc
    v.toList = (v ++ s).toList.takeWhile kind := (takeWhile_append_of_stops hv hs).symm
    _ = (w ++ t).toList.takeWhile kind := by rw [h]
    _ = w.toList := takeWhile_append_of_stops hw ht
  subst hvw
  exact ⟨rfl, (String.append_right_inj v).mp h⟩

/-- Texts of one kind of character that were put together with separators between them can be told
apart again, if the separator begins with a character of another kind. -/
theorem intercalate_inj {separator : String} (c : Char)
    (hseparator : separator.toList.head? = some c) (hc : kind c = false) {ss ts : List String}
    (hss : ∀ s ∈ ss, Consists kind s) (hts : ∀ t ∈ ts, Consists kind t) (hne : ss ≠ [])
    (hne' : ts ≠ []) (h : separator.intercalate ss = separator.intercalate ts) : ss = ts := by
  -- a text is followed by a separator, or by nothing if it is the last one
  have hstops : ∀ rest : String, Stops kind (separator ++ rest) := fun rest =>
    stops_append c hseparator hc
  have hmem : ∀ s rest : String, c ∈ (s ++ separator ++ rest).toList := fun s rest => by
    simp [List.mem_of_mem_head? (Option.mem_def.mpr hseparator)]
  induction ss generalizing ts with
  | nil => exact absurd rfl hne
  | cons s ss ih =>
    obtain ⟨t, ts, rfl⟩ := List.exists_cons_of_ne_nil hne'
    obtain ⟨hs, hssRest⟩ := List.forall_mem_cons.mp hss
    obtain ⟨ht, htsRest⟩ := List.forall_mem_cons.mp hts
    rcases eq_or_ne ss [] with rfl | hss' <;> rcases eq_or_ne ts [] with rfl | hts'
    · rw [String.intercalate_singleton, String.intercalate_singleton] at h
      rw [h]
    · rw [String.intercalate_singleton, String.intercalate_cons_of_ne_nil hts'] at h
      exact absurd (hs c (h ▸ hmem t _)) (by simp [hc])
    · rw [String.intercalate_singleton, String.intercalate_cons_of_ne_nil hss'] at h
      exact absurd (ht c (h ▸ hmem s _)) (by simp [hc])
    · rw [String.intercalate_cons_of_ne_nil hss', String.intercalate_cons_of_ne_nil hts',
        String.append_assoc, String.append_assoc] at h
      obtain ⟨rfl, hrest⟩ := append_inj_of_stops hs ht (hstops _) (hstops _) h
      rw [ih hssRest htsRest hss' hts' ((String.append_right_inj separator).mp hrest)]

end Kind

/-! ### Numbers -/

/-- Whether a character is a hexadecimal digit. -/
def isHexDigit (c : Char) : Bool := (Hex.digitValue? c).isSome

theorem isHexDigit_digitChar {d : Nat} (hd : d < 16) : isHexDigit (Hex.digitChar d) = true := by
  simp [isHexDigit, Hex.digitValue?_digitChar hd]

theorem isHexDigit_of_mem_digits {n : Nat} {c : Char} (hc : c ∈ Hex.digits n) :
    isHexDigit c = true := by
  fun_induction Hex.digits n with
  | case1 n h =>
    rw [List.mem_singleton] at hc
    exact hc ▸ isHexDigit_digitChar h
  | case2 n h ih =>
    rw [List.mem_append, List.mem_singleton] at hc
    rcases hc with hc | rfl
    · exact ih hc
    · exact isHexDigit_digitChar (Nat.mod_lt n (by decide))

theorem isHexDigit_of_mem_padded {width n : Nat} {c : Char} (hc : c ∈ Hex.padded width n) :
    isHexDigit c = true := by
  rw [Hex.padded, List.mem_append] at hc
  rcases hc with hc | hc
  · exact List.eq_of_mem_replicate hc ▸ isHexDigit_digitChar (d := 0) (by decide)
  · exact isHexDigit_of_mem_digits hc

theorem numeral_eq (width n : Nat) :
    Hex.numeral width n = "0x" ++ String.ofList (Hex.padded width n) :=
  String.toList_inj.mp (by simp [Hex.numeral])

/-- Numerals of one width that stand in front of equal texts are equal, and so are the rests. -/
theorem numeral_append_inj {width m n : Nat} {s t : String} (hs : Stops isHexDigit s)
    (ht : Stops isHexDigit t) (h : Hex.numeral width m ++ s = Hex.numeral width n ++ t) :
    m = n ∧ s = t := by
  have hdigits (k : Nat) : Consists isHexDigit (String.ofList (Hex.padded width k)) := fun c hc =>
    isHexDigit_of_mem_padded (by simpa using hc)
  rw [numeral_eq, numeral_eq, String.append_assoc, String.append_assoc,
    String.append_right_inj] at h
  obtain ⟨hpadded, hrest⟩ := append_inj_of_stops (hdigits m) (hdigits n) hs ht h
  have hnumeral : Hex.numeral width m = Hex.numeral width n := by
    rw [numeral_eq, numeral_eq, hpadded]
  exact ⟨Hex.numeral_inj hnumeral, hrest⟩

/-- A text between a numeral and the rest is read over with the numeral, if it does not begin with
a digit. -/
theorem numeral_separator_inj {width m n : Nat} {separator s t : String} (c : Char)
    (hseparator : separator.toList.head? = some c) (hc : isHexDigit c = false)
    (h : Hex.numeral width m ++ (separator ++ s) = Hex.numeral width n ++ (separator ++ t)) :
    m = n ∧ s = t := by
  obtain ⟨hmn, hrest⟩ :=
    numeral_append_inj (stops_append c hseparator hc) (stops_append c hseparator hc) h
  exact ⟨hmn, (String.append_right_inj separator).mp hrest⟩

theorem consists_decimal (n : Nat) : Consists Char.isDigit (toString n) := by
  intro c hc
  rw [Nat.toString_eq_repr, Nat.toList_repr] at hc
  exact Nat.isDigit_of_mem_toDigits (by decide) (by decide) hc

theorem decimal_injective : Function.Injective (toString : Nat → String) := by
  intro m n h
  have hdigits : Nat.toDigits 10 m = Nat.toDigits 10 n := by
    rw [← Nat.toList_repr, ← Nat.toList_repr, ← Nat.toString_eq_repr, ← Nat.toString_eq_repr, h]
  calc
    m = Nat.ofDigitChars 10 (Nat.toDigits 10 m) 0 := Nat.ofDigitChars_ten_toDigits.symm
    _ = Nat.ofDigitChars 10 (Nat.toDigits 10 n) 0 := by rw [hdigits]
    _ = n := Nat.ofDigitChars_ten_toDigits

/-- Decimals that stand in front of equal texts are equal, and so are the rests. -/
theorem decimal_append_inj {m n : Nat} {s t : String} (hs : Stops Char.isDigit s)
    (ht : Stops Char.isDigit t) (h : toString m ++ s = toString n ++ t) : m = n ∧ s = t := by
  obtain ⟨hmn, hst⟩ := append_inj_of_stops (consists_decimal m) (consists_decimal n) hs ht h
  exact ⟨decimal_injective hmn, hst⟩

theorem decimal_separator_inj {m n : Nat} {separator s t : String} (c : Char)
    (hseparator : separator.toList.head? = some c) (hc : Char.isDigit c = false)
    (h : toString m ++ (separator ++ s) = toString n ++ (separator ++ t)) :
    m = n ∧ s = t := by
  obtain ⟨hmn, hrest⟩ :=
    decimal_append_inj (stops_append c hseparator hc) (stops_append c hseparator hc) h
  exact ⟨hmn, (String.append_right_inj separator).mp hrest⟩

/-! ### Lines -/

/-- Whether a character is no line feed. -/
def isInLine (c : Char) : Bool := c != '\n'

/-- The text has no line feed. -/
def OneLine (s : String) : Prop := Consists isInLine s

@[simp] theorem oneLine_append {s t : String} : OneLine (s ++ t) ↔ OneLine s ∧ OneLine t :=
  consists_append

theorem oneLine_of_not_mem {s : String} (hs : '\n' ∉ s.toList) : OneLine s := fun _ hc =>
  bne_iff_ne.mpr fun hfeed => hs (hfeed ▸ hc)

theorem oneLine_join {ss : List String} (h : ∀ s ∈ ss, OneLine s) : OneLine (String.join ss) :=
  consists_join h

theorem oneLine_numeral (width n : Nat) : OneLine (Hex.numeral width n) := by
  have hdigit (c : Char) (hc : isHexDigit c = true) : isInLine c = true := by
    rw [isInLine, bne_iff_ne]
    rintro rfl
    exact absurd hc (by decide)
  rw [numeral_eq, oneLine_append]
  refine ⟨oneLine_of_not_mem (by simp), fun c hc => hdigit c ?_⟩
  exact isHexDigit_of_mem_padded (by simpa using hc)

theorem oneLine_decimal (n : Nat) : OneLine (toString n) := by
  intro c hc
  rw [isInLine, bne_iff_ne]
  rintro rfl
  exact absurd (consists_decimal n _ hc) (by decide)

/-- The text cut at its line feeds. -/
def lines (s : String) : List String := (s.toList.splitOn '\n').map String.ofList

theorem lines_of_oneLine {s : String} (hs : OneLine s) : lines s = [s] := by
  have hmem : '\n' ∉ s.toList := fun h => absurd (hs _ h) (by decide)
  rw [lines, List.splitOn_eq_singleton hmem, List.map_singleton, String.ofList_toList]

theorem lines_append (s t : String) : lines (s ++ "\n" ++ t) = lines s ++ lines t := by
  have hlist : (s ++ "\n" ++ t).toList = s.toList ++ '\n' :: t.toList := by simp
  rw [lines, hlist, List.splitOn_append_cons_self, List.map_append]
  rfl

/-- A text put together from lines falls apart into them, each cut at its own line feeds. -/
theorem lines_intercalate {ss : List String} (hss : ss ≠ []) :
    lines ("\n".intercalate ss) = ss.flatMap lines := by
  induction ss with
  | nil => exact absurd rfl hss
  | cons s rest ih =>
    by_cases hrest : rest = []
    · subst hrest
      simp
    · rw [String.intercalate_cons_of_ne_nil hrest, lines_append, ih hrest, List.flatMap_cons]

theorem flatMap_lines_of_oneLine {ss : List String} (h : ∀ s ∈ ss, OneLine s) :
    ss.flatMap lines = ss := by
  induction ss with
  | nil => rfl
  | cons s rest ih =>
    obtain ⟨hs, hrest⟩ := List.forall_mem_cons.mp h
    rw [List.flatMap_cons, lines_of_oneLine hs, ih hrest, List.singleton_append]

/-- No text is lost by cutting it into lines. -/
theorem lines_injective : Function.Injective lines := by
  intro s t h
  have hsplit : s.toList.splitOn '\n' = t.toList.splitOn '\n' :=
    List.map_injective_iff.mpr (fun _ _ => String.ofList_injective) h
  refine String.toList_inj.mp ?_
  calc
    s.toList = ['\n'].intercalate (s.toList.splitOn '\n') := (List.intercalate_splitOn _).symm
    _ = ['\n'].intercalate (t.toList.splitOn '\n') := by rw [hsplit]
    _ = t.toList := List.intercalate_splitOn _

end Text

end ChipEight
