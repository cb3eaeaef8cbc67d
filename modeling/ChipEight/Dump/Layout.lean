import ChipEight.Text.Hex

/-!
The layout of dumps: lists of values in numbered rows.

A row starts with the numbers of its first and its last value. `numberRows` and `flagRows` lay
out eight values a row; the rows of memory, which differ, are in `ChipEight.Dump.MemoryRows`.
-/

namespace ChipEight.Dump

variable {α : Type}

/-- What stands before every value and every row. -/
def indent : String := "\t\t"

/-- Cuts a list into pieces of a positive size; only the last piece may be shorter. -/
def chunks (size : Nat) (items : List α) : List (List α) :=
  if _h : items = [] ∨ size = 0 then []
  else items.take size :: chunks size (items.drop size)
termination_by items.length
decreasing_by
  have : 0 < items.length := List.length_pos_iff.mpr (by simp_all)
  simp only [List.length_drop]
  omega

/-- Puts before each piece the number of its first value, counting on from `first`. -/
def numbered (first : Nat) : List (List α) → List (Nat × List α)
  | [] => []
  | piece :: rest => (first, piece) :: numbered (first + piece.length) rest

/-- The numbers of the first and the last value of a row. -/
def label (first last : Nat) : String :=
  Hex.numeral 4 first ++ " - " ++ Hex.numeral 4 last ++ " :"

/-- A value on a line of its own. -/
def valueLine (value : Nat) : String := indent ++ Hex.numeral 4 value

/-- Numbers, eight a row. -/
def numberRows (values : List Nat) : List String :=
  (numbered 0 (chunks 8 values)).map fun (first, row) =>
    indent ++ label first (first + row.length - 1) ++
      String.join (row.map fun value => " " ++ Hex.numeral 4 value)

/-- The flags of a row, as wide as a number but for the last. -/
def flags : List Bool → String
  | [] => ""
  | [flag] => if flag then "true" else "false"
  | flag :: rest => (if flag then "true   " else "false  ") ++ flags rest

/-- Flags, eight a row. -/
def flagRows (values : List Bool) : List String :=
  (numbered 0 (chunks 8 values)).map fun (first, row) =>
    indent ++ label first (first + row.length - 1) ++ " " ++ flags row

/-- Nothing is lost by cutting. -/
theorem flatten_chunks {size : Nat} (hs : 0 < size) (items : List α) :
    (chunks size items).flatten = items := by
  fun_induction chunks size items with
  | case1 items h =>
    rcases h with rfl | h
    · rfl
    · omega
  | case2 items h ih => simp [ih]

end ChipEight.Dump
