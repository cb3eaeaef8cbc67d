import Mathlib.Data.List.Basic
import ChipEight.Dump.Layout
import ChipEight.Proofs.Text.Reading

/-!
Rows of values can be read back.

A row of numbers and a row of flags are laid out alike, a label and then the values as some
writer has them, and `rowLine` is that layout. `rowLines_injective` reads the rows of any list
back, provided that the writer loses nothing; the two writers are `items` and `flags`. The
labels are not needed to tell the values apart, but they stand in front and have to be read
over (`label_append_inj`).
-/

namespace ChipEight.Dump

open Text

variable {α : Type}

/-! ### Pieces -/

theorem map_snd_numbered (first : Nat) (pieces : List (List α)) :
    (numbered first pieces).map Prod.snd = pieces := by
  induction pieces generalizing first with
  | nil => rfl
  | cons piece rest ih => rw [numbered, List.map_cons, ih]

theorem length_numbered (first : Nat) (pieces : List (List α)) :
    (numbered first pieces).length = pieces.length := by
  rw [← List.length_map (f := Prod.snd), map_snd_numbered]

/-- The number of pieces, the shorter one at the end included. -/
theorem length_chunks {size : Nat} (hsize : 0 < size) (items : List α) :
    (chunks size items).length = (items.length + size - 1) / size := by
  fun_induction chunks size items with
  | case1 items h =>
    obtain rfl : items = [] := h.resolve_right (Nat.ne_of_gt hsize)
    rw [List.length_nil, List.length_nil, Nat.div_eq_of_lt (by omega)]
  | case2 items h ih =>
    have hpos : 0 < items.length := List.length_pos_iff.mpr fun hnil => h (.inl hnil)
    rw [List.length_cons, ih, List.length_drop]
    rcases Nat.lt_or_ge items.length size with hlt | hge
    · rw [Nat.div_eq_of_lt (by omega), Nat.div_eq_of_lt_le (k := 1) (by omega) (by omega)]
    · rw [← Nat.add_div_right _ hsize]
      congr 1
      omega

/-! ### Labels and lines -/

theorem label_append_inj {first last first' last' : Nat} {s t : String}
    (h : label first last ++ s = label first' last' ++ t) :
    first = first' ∧ last = last' ∧ s = t := by
  simp only [label, String.append_assoc] at h
  obtain ⟨hfirst, h⟩ := numeral_separator_inj ' ' (by simp) (by decide) h
  obtain ⟨hlast, h⟩ := numeral_separator_inj ' ' (by simp) (by decide) h
  exact ⟨hfirst, hlast, h⟩

theorem valueLine_injective : Function.Injective valueLine := by
  intro m n h
  exact Hex.numeral_inj ((String.append_right_inj indent).mp h)

theorem oneLine_indent : OneLine indent := oneLine_of_not_mem (by simp [indent])

theorem oneLine_label (first last : Nat) : OneLine (label first last) := by
  simp only [label, oneLine_append, oneLine_numeral, true_and, and_true]
  exact ⟨oneLine_of_not_mem (by simp), oneLine_of_not_mem (by simp)⟩

theorem oneLine_valueLine (value : Nat) : OneLine (valueLine value) :=
  oneLine_append.mpr ⟨oneLine_indent, oneLine_numeral 4 value⟩

/-! ### Rows in general -/

section RowLine

variable (write : List α → String)

/-- The line of a numbered row, whose values are written in some way. -/
def rowLine (row : Nat × List α) : String :=
  indent ++ label row.1 (row.1 + row.2.length - 1) ++ write row.2

/-- The lines of some values, eight a row. -/
def rowLines (values : List α) : List String :=
  (numbered 0 (chunks 8 values)).map (rowLine write)

theorem length_rowLines (values : List α) :
    (rowLines write values).length = (values.length + 7) / 8 := by
  rw [rowLines, List.length_map, length_numbered, length_chunks (by decide)]
  rfl

variable {write}

theorem rowLine_injective (hwrite : Function.Injective write) :
    Function.Injective (rowLine write) := by
  intro row row' h
  simp only [rowLine, String.append_assoc, String.append_right_inj] at h
  obtain ⟨hfirst, -, hvalues⟩ := label_append_inj h
  exact Prod.ext hfirst (hwrite hvalues)

/-- The lines of some values determine these, whatever their number, if a single row does. -/
theorem rowLines_injective (hwrite : Function.Injective write) :
    Function.Injective (rowLines write) := by
  intro xs ys h
  have hnumbered : numbered 0 (chunks 8 xs) = numbered 0 (chunks 8 ys) :=
    List.map_injective_iff.mpr (rowLine_injective hwrite) h
  have hchunks : chunks 8 xs = chunks 8 ys := by
    rw [← map_snd_numbered 0 (chunks 8 xs), hnumbered, map_snd_numbered]
  calc
    xs = (chunks 8 xs).flatten := (flatten_chunks (by decide) xs).symm
    _ = (chunks 8 ys).flatten := by rw [hchunks]
    _ = ys := flatten_chunks (by decide) ys

theorem oneLine_of_mem_rowLines (hwrite : ∀ row, OneLine (write row)) {values : List α}
    {line : String} (hline : line ∈ rowLines write values) : OneLine line := by
  obtain ⟨row, -, rfl⟩ := List.mem_map.mp hline
  simp only [rowLine, oneLine_append]
  exact ⟨⟨oneLine_indent, oneLine_label _ _⟩, hwrite _⟩

end RowLine

/-! ### Numbers -/

/-- Numbers, each after a blank. -/
def items (values : List Nat) : String :=
  String.join (values.map fun value => " " ++ Hex.numeral 4 value)

theorem items_cons (value : Nat) (rest : List Nat) :
    items (value :: rest) = " " ++ (Hex.numeral 4 value ++ items rest) := by
  simp only [items, List.map_cons, String.join_cons, String.append_assoc]

/-- Behind a number there is the blank of the next one, or nothing. -/
theorem stops_items (values : List Nat) : Stops isHexDigit (items values) := by
  cases values with
  | nil => simp [items, Stops]
  | cons value rest =>
    rw [items_cons]
    exact stops_append ' ' (by simp) (by decide)

theorem items_injective : Function.Injective items := by
  intro xs
  induction xs with
  | nil =>
    intro ys h
    cases ys with
    | nil => rfl
    | cons y ys => simpa [items_cons, items] using congrArg String.toList h
  | cons x xs ih =>
    intro ys h
    cases ys with
    | nil => simpa [items_cons, items] using congrArg String.toList h
    | cons y ys =>
      rw [items_cons, items_cons, String.append_right_inj] at h
      obtain ⟨rfl, hrest⟩ := numeral_append_inj (stops_items xs) (stops_items ys) h
      rw [ih hrest]

theorem oneLine_items (values : List Nat) : OneLine (items values) := by
  refine oneLine_join fun s hs => ?_
  obtain ⟨value, -, rfl⟩ := List.mem_map.mp hs
  exact oneLine_append.mpr ⟨oneLine_of_not_mem (by simp), oneLine_numeral 4 value⟩

theorem length_numberRows (values : List Nat) :
    (numberRows values).length = (values.length + 7) / 8 :=
  length_rowLines items values

theorem numberRows_injective : Function.Injective numberRows :=
  rowLines_injective items_injective

theorem oneLine_of_mem_numberRows {values : List Nat} {line : String}
    (hline : line ∈ numberRows values) : OneLine line :=
  oneLine_of_mem_rowLines oneLine_items hline

/-! ### Flags -/

theorem flags_cons_cons (flag next : Bool) (rest : List Bool) :
    flags (flag :: next :: rest) =
      (if flag then "true   " else "false  ") ++ flags (next :: rest) := rfl

theorem flags_injective : Function.Injective flags := by
  intro xs
  induction xs with
  | nil =>
    intro ys h
    cases ys with
    | nil => rfl
    | cons y ys =>
      have hlist := congrArg String.toList h
      cases ys <;> cases y <;> simp [flags] at hlist
  | cons x xs ih =>
    intro ys h
    have hlist := congrArg String.toList h
    match xs, ys with
    | xs, [] => cases xs <;> cases x <;> simp [flags] at hlist
    | [], [y] => cases x <;> cases y <;> simp [flags] at hlist ⊢
    -- the last flag of a row is the only one without blanks behind it
    | [], y :: z :: ys => cases x <;> cases y <;> simp [flags] at hlist
    | w :: xs, [y] => cases x <;> cases y <;> simp [flags] at hlist
    | w :: xs, y :: z :: ys =>
      have hxy : x = y ∧ flags (w :: xs) = flags (z :: ys) := by
        cases x <;> cases y <;>
          simp [flags_cons_cons, String.toList_inj] at hlist ⊢ <;> exact hlist
      rw [hxy.1, ih hxy.2]

theorem oneLine_flags (values : List Bool) : OneLine (flags values) := by
  induction values with
  | nil => exact oneLine_of_not_mem (by simp [flags])
  | cons flag rest ih =>
    cases rest with
    | nil => exact oneLine_of_not_mem (by cases flag <;> simp [flags])
    | cons next rest =>
      rw [flags_cons_cons, oneLine_append]
      exact ⟨oneLine_of_not_mem (by cases flag <;> simp), ih⟩

/-- The flags of a row behind the blank that sets them off from the label. -/
def flagItems (row : List Bool) : String := " " ++ flags row

theorem flagRows_eq (values : List Bool) : flagRows values = rowLines flagItems values :=
  List.map_congr_left fun row _ => by simp only [rowLine, flagItems, String.append_assoc]

theorem length_flagRows (values : List Bool) :
    (flagRows values).length = (values.length + 7) / 8 := by
  rw [flagRows_eq, length_rowLines]

theorem flagRows_injective : Function.Injective flagRows := by
  have hitems : Function.Injective flagItems := fun row row' h =>
    flags_injective ((String.append_right_inj " ").mp h)
  intro xs ys h
  rw [flagRows_eq, flagRows_eq] at h
  exact rowLines_injective hitems h

theorem oneLine_of_mem_flagRows {values : List Bool} {line : String}
    (hline : line ∈ flagRows values) : OneLine line := by
  rw [flagRows_eq] at hline
  exact oneLine_of_mem_rowLines
    (fun row => oneLine_append.mpr ⟨oneLine_of_not_mem (by simp), oneLine_flags row⟩) hline

end ChipEight.Dump
