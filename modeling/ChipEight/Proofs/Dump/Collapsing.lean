import Mathlib.Tactic
import ChipEight.Proofs.Dump.Tiling

/-!
The rows of a memory, address by address.

`rows` cuts the bytes into pieces and collapses zero rows from the back. A host goes through the
addresses instead and looks back: it reads the words of a row from the memory, and a zero row takes
over the last row so far if that one is zero too. Both give the same rows, because putting a row in
front and putting one behind do not disturb each other.

* `word?`, `rowAt`, `Row.append`, `scan`: the rows as a host finds them.
* `numbered_chunks`, `Row.ofBytes_slice`: the pieces of a memory by their addresses, and the row of
  a piece as the row at its address.
* `Row.append_prepend`, `scan_eq_rows`: both directions agree.
* `Row.Apart`, `isChain_rows`: no two neighbours are collapsed.
* `Tiles.isChain`, `Tiles.getElem?_flatMap_bytes`: what a tiling says of neighbours, and of the byte
  at an address.
* `Row.Shows`, `memory_rows_tile`: the rows cover the memory, and each of them shows what stands at
  its addresses.
-/

namespace ChipEight

namespace Dump

/-! ### Rows as a host finds them -/

/-- The word at an address, if both of its bytes are there. -/
def word? (bytes : List UInt8) (address : ℕ) : Option Opcode :=
  bytes[address]?.bind fun high => bytes[address + 1]?.map (Opcode.ofBytes high)

/-- The last address of the row that begins at an address. -/
def lastAt (bytes : List UInt8) (first : ℕ) : ℕ := min (first + 15) (bytes.length - 1)

/-- The eight words of the row that begins at an address. A word that does not begin before the last
address of the row is left zero. -/
def wordsAt (bytes : List UInt8) (first : ℕ) : List Opcode :=
  (List.range 8).map fun k =>
    if first + 2 * k < lastAt bytes first then (word? bytes (first + 2 * k)).getD 0 else 0

/-- The row that begins at an address. -/
def rowAt (bytes : List UInt8) (first : ℕ) : Row :=
  if (wordsAt bytes first).all (· == 0) then .zeros first (lastAt bytes first)
  else .words first (lastAt bytes first) (wordsAt bytes first)

/-- Puts a row behind others; a zero row takes over a zero row at their end. -/
def Row.append (rows : List Row) (row : Row) : List Row :=
  match rows.getLast?, row with
  | some (zeros first _), zeros _ last => rows.dropLast ++ [zeros first last]
  | _, _ => rows ++ [row]

/-- The rows of some bytes, from the front. -/
def scan (bytes : List UInt8) : List Row :=
  ((List.range ((bytes.length + 15) / 16)).map fun k => rowAt bytes (16 * k)).foldl Row.append []

/-! ### Pieces by their addresses -/

/-- All pieces begin at multiples of the size. -/
lemma numbered_chunks {α : Type} {size : ℕ} (start : ℕ) (items : List α) :
    numbered start (chunks size items) =
      (List.range (chunks size items).length).map fun k =>
        (start + size * k, (items.drop (size * k)).take size) := by
  fun_induction chunks size items generalizing start with
  | case1 items h => rfl
  | case2 items h ih =>
    rw [numbered, ih, List.length_cons, List.range_succ_eq_map, List.map_cons, List.map_map]
    refine congrArg₂ List.cons (by simp) (List.map_congr_left fun k hk => ?_)
    -- there is another piece only if this one is not short
    have hfull : size ≤ items.length := by
      by_contra! hshort
      rw [List.drop_eq_nil_of_le hshort.le, chunks, dif_pos (.inl rfl)] at hk
      simp at hk
    simp only [Function.comp_apply, List.length_take, Nat.min_eq_left hfull, List.drop_drop,
      Nat.mul_succ, Nat.add_assoc, Nat.add_comm size]

lemma word?_eq_none {bytes : List UInt8} {address : ℕ} (h : bytes.length ≤ address + 1) :
    word? bytes address = none := by
  rw [word?, List.getElem?_eq_none h]
  cases bytes[address]? <;> rfl

/-- A word inside a piece is the one at its address. -/
lemma word?_slice (bytes : List UInt8) (first : ℕ) {k : ℕ} (hk : k < 8) :
    word? ((bytes.drop first).take 16) (2 * k) = word? bytes (first + 2 * k) := by
  have h0 : 2 * k < 16 := by omega
  have h1 : 2 * k + 1 < 16 := by omega
  simp only [word?, List.getElem?_take_of_lt h0, List.getElem?_take_of_lt h1, List.getElem?_drop,
    Nat.add_assoc]

/-- The words of a row are the words of the memory, because there is none that begins at the last
address of the memory or behind it. -/
lemma wordsAt_eq (bytes : List UInt8) (first : ℕ) :
    wordsAt bytes first = (List.range 8).map fun k => (word? bytes (first + 2 * k)).getD 0 := by
  refine List.map_congr_left fun k hk => ite_eq_left_iff.mpr fun hout => ?_
  have hk := List.mem_range.mp hk
  rw [lastAt] at hout
  rw [word?_eq_none (by omega), Option.getD_none]

namespace Row

lemma getElem?_wordsOf (piece : List UInt8) (k : ℕ) :
    (wordsOf piece)[k]? = word? piece (2 * k) := by
  fun_induction wordsOf piece generalizing k with
  | case1 high low rest ih =>
    cases k with
    | zero => rfl
    | succ k => simpa [word?, Nat.mul_succ] using ih k
  | case2 piece h =>
    have hshort : piece.length ≤ 2 * k + 1 := by
      rcases piece with - | ⟨high, - | ⟨low, rest⟩⟩
      · simp
      · simp
      · exact absurd rfl (h high low rest)
    rw [word?_eq_none hshort, List.getElem?_nil]

/-- The words of a piece with zeros behind the end are the words at its address. -/
lemma wordsOf_slice (bytes : List UInt8) (first : ℕ) :
    wordsOf ((bytes.drop first).take 16) ++
        List.replicate (8 - (wordsOf ((bytes.drop first).take 16)).length) 0 =
      wordsAt bytes first := by
  set ws := wordsOf ((bytes.drop first).take 16) with hws
  have hlength : ws.length ≤ 8 := by
    rw [← List.getElem?_eq_none_iff, hws, getElem?_wordsOf]
    exact word?_eq_none (by simp)
  rw [wordsAt_eq]
  refine List.ext_getElem (by simp; omega) fun k hk _ => ?_
  have hk8 : k < 8 := by simp at hk; omega
  have hword : ws[k]? = word? bytes (first + 2 * k) := by
    rw [hws, getElem?_wordsOf, word?_slice bytes first hk8]
  simp only [List.getElem_map, List.getElem_range, ← hword, List.getElem_append,
    List.getElem_replicate]
  split
  · next hlt => rw [List.getElem?_eq_getElem hlt, Option.getD_some]
  · next hge => rw [List.getElem?_eq_none (by omega), Option.getD_none]

/-- The row of a piece is the row at its address. -/
lemma ofBytes_slice {bytes : List UInt8} {first : ℕ} (h : first < bytes.length) :
    ofBytes first ((bytes.drop first).take 16) = rowAt bytes first := by
  have hlast : first + ((bytes.drop first).take 16).length - 1 = lastAt bytes first := by
    rw [lastAt, List.length_take, List.length_drop]
    omega
  have hall : (wordsOf ((bytes.drop first).take 16)).all (· == 0) =
      (wordsAt bytes first).all (· == 0) := by
    rw [← wordsOf_slice, List.all_append, List.all_replicate]
    simp
  simp only [ofBytes, rowAt, hlast, hall, wordsOf_slice]

/-! ### From the front and from the back -/

lemma append_cons_cons (row row' next : Row) (rest : List Row) :
    append (row :: row' :: rest) next = row :: append (row' :: rest) next := by
  simp only [append, List.getLast?_cons_cons, List.dropLast_cons_cons, List.cons_append]
  split <;> rfl

/-- Putting a row in front and putting one behind do not disturb each other. -/
lemma append_prepend (row next : Row) (rest : List Row) :
    append (row.prepend rest) next = row.prepend (append rest next) := by
  rcases rest with - | ⟨middle, - | ⟨middle', rest⟩⟩
  · cases row <;> cases next <;> rfl
  · cases row <;> cases middle <;> cases next <;> rfl
  · rw [append_cons_cons]
    cases row <;> cases middle <;> simp only [prepend, append_cons_cons]

lemma foldl_append_prepend (row : Row) (rest rows : List Row) :
    rows.foldl append (row.prepend rest) = row.prepend (rows.foldl append rest) := by
  induction rows generalizing rest with
  | nil => rfl
  | cons next rows ih => rw [List.foldl_cons, List.foldl_cons, append_prepend, ih]

theorem foldl_append (rows : List Row) : rows.foldl append [] = rows.foldr prepend [] := by
  induction rows with
  | nil => rfl
  | cons row rows ih =>
    have hrow : append [] row = row.prepend [] := by cases row <;> rfl
    rw [List.foldl_cons, hrow, foldl_append_prepend, ih, List.foldr_cons]

end Row

/-- The rows of a memory are put together from the rows at its addresses. -/
lemma rows_eq_foldr (bytes : List UInt8) :
    rows bytes = ((List.range ((bytes.length + 15) / 16)).map fun k =>
      rowAt bytes (16 * k)).foldr Row.prepend [] := by
  rw [rows, numbered_chunks, length_chunks (by decide), List.map_map]
  refine congrArg (List.foldr Row.prepend []) (List.map_congr_left fun k hk => ?_)
  have hk : k < (bytes.length + 15) / 16 := List.mem_range.mp hk
  simp only [Function.comp_apply, Nat.zero_add]
  exact Row.ofBytes_slice (by omega)

theorem scan_eq_rows (bytes : List UInt8) : scan bytes = rows bytes := by
  rw [scan, Row.foldl_append, rows_eq_foldr]

/-! ### Neighbours -/

/-- Two rows are not both collapsed. -/
def Row.Apart (row next : Row) : Prop := ¬(row.isZeros = true ∧ next.isZeros = true)

lemma Row.isChain_prepend {row : Row} {rest : List Row} (h : rest.IsChain Apart) :
    (row.prepend rest).IsChain Apart := by
  unfold prepend
  split
  · next first last first' last' rest =>
    -- the row that is taken over was as much of a zero row
    rw [List.isChain_cons] at h ⊢
    exact h
  · next hmerge =>
    refine List.isChain_cons.mpr ⟨fun next hnext => ?_, h⟩
    obtain ⟨rest, rfl⟩ := List.head?_eq_some_iff.mp hnext
    cases row with
    | words first last ws => exact fun hboth => Bool.false_ne_true hboth.1
    | zeros first last =>
      cases next with
      | words first' last' ws => exact fun hboth => Bool.false_ne_true hboth.2
      | zeros first' last' => exact (hmerge first last first' last' rest rfl rfl).elim

lemma isChain_rows (bytes : List UInt8) : (rows bytes).IsChain Row.Apart := by
  rw [rows_eq_foldr]
  exact List.foldrRecOn _ _ List.isChain_nil fun _ hrest _ _ => Row.isChain_prepend hrest

/-- A row that is not collapsed is the row at its address. -/
lemma Row.mem_of_mem_foldr_prepend {row : Row} (hwords : row.isZeros = false) {rows : List Row}
    (hrow : row ∈ rows.foldr prepend []) : row ∈ rows := by
  induction rows with
  | nil => exact hrow
  | cons first rows ih =>
    rw [List.foldr_cons] at hrow
    unfold prepend at hrow
    split at hrow
    · next hrest =>
      rcases List.mem_cons.mp hrow with rfl | hrow
      · cases hwords
      · exact List.mem_cons_of_mem _ (ih (hrest ▸ List.mem_cons_of_mem _ hrow))
    · rcases List.mem_cons.mp hrow with rfl | hrow
      · exact List.mem_cons_self
      · exact List.mem_cons_of_mem _ (ih hrow)

lemma eq_rowAt_of_mem_rows {bytes : List UInt8} {row : Row} (hrow : row ∈ rows bytes)
    (hwords : row.isZeros = false) : ∃ k, 16 * k < bytes.length ∧ row = rowAt bytes (16 * k) := by
  rw [rows_eq_foldr] at hrow
  obtain ⟨k, hk, rfl⟩ := List.mem_map.mp (Row.mem_of_mem_foldr_prepend hwords hrow)
  have hk : k < (bytes.length + 15) / 16 := List.mem_range.mp hk
  exact ⟨k, by omega, rfl⟩

/-! ### Tilings -/

namespace Tiles

variable {first next : ℕ} {rows : List Row}

lemma isChain (h : Tiles first next rows) :
    rows.IsChain fun row next => next.first = row.last + 1 := by
  induction rows generalizing first with
  | nil => exact List.isChain_nil
  | cons row rest ih =>
    obtain ⟨-, -, hrest⟩ := h
    refine List.isChain_cons.mpr ⟨fun next hnext => ?_, ih hrest⟩
    obtain ⟨rest, rfl⟩ := List.head?_eq_some_iff.mp hnext
    exact hrest.1

lemma first_le_last (h : Tiles first next rows) {row : Row} (hrow : row ∈ rows) :
    first ≤ row.first ∧ row.first ≤ row.last := by
  induction rows generalizing first with
  | nil => cases hrow
  | cons row' rest ih =>
    obtain ⟨hfirst, hlast, hrest⟩ := h
    rcases List.mem_cons.mp hrow with rfl | hrow
    · omega
    · have := ih hrest hrow
      omega

lemma head?_first (h : Tiles first next rows) (hne : rows ≠ []) :
    rows.head?.map Row.first = some first := by
  obtain ⟨row, rest, rfl⟩ := List.exists_cons_of_ne_nil hne
  exact congrArg some h.1

lemma getLast?_last (h : Tiles first next rows) (hne : rows ≠ []) :
    rows.getLast?.map (fun row => row.last + 1) = some next := by
  induction rows generalizing first with
  | nil => exact absurd rfl hne
  | cons row rest ih =>
    obtain ⟨-, -, hrest⟩ := h
    cases rest with
    | nil => exact congrArg some hrest
    | cons row' rest => exact ih hrest (List.cons_ne_nil _ _)

/-- The byte at an address is the one that its row has for it. -/
lemma getElem?_flatMap_bytes (h : Tiles first next rows)
    (hlength : ∀ row ∈ rows, row.bytes.length = row.last + 1 - row.first) {row : Row}
    (hrow : row ∈ rows) {address : ℕ} (hfirst : row.first ≤ address)
    (hlast : address ≤ row.last) :
    (rows.flatMap Row.bytes)[address - first]? = row.bytes[address - row.first]? := by
  induction rows generalizing first with
  | nil => cases hrow
  | cons row' rest ih =>
    obtain ⟨rfl, hle, hrest⟩ := h
    obtain ⟨hlength', hlengthRest⟩ := List.forall_mem_cons.mp hlength
    rw [List.flatMap_cons, List.getElem?_append]
    rcases List.mem_cons.mp hrow with rfl | hrow
    · rw [if_pos (by omega)]
    · have hbefore := (hrest.first_le_last hrow).1
      rw [if_neg (by omega), ← ih hrest hlengthRest hrow]
      congr 1
      omega

end Tiles

lemma tiles_rows (bytes : List UInt8) : Tiles 0 bytes.length (rows bytes) := by
  have htiles := tiles_pieceRows 0 fun piece (hpiece : piece ∈ chunks 16 bytes) =>
    ne_nil_of_mem_chunks hpiece
  rwa [flatten_chunks (by decide), Nat.zero_add] at htiles

lemma rows_ne_nil {bytes : List UInt8} (hne : bytes ≠ []) : rows bytes ≠ [] := by
  intro hnil
  have htiles := tiles_rows bytes
  rw [hnil] at htiles
  exact hne (List.length_eq_zero_iff.mp htiles.symm)

/-! ### What the rows show -/

namespace Row

/-- A row shows the words of the memory at its addresses: it begins at a multiple of sixteen and
ends sixteen bytes later or with the memory, not all of its bytes are zero, and behind the label
there are eight words, zero words behind the end. -/
structure Shows (bytes : List UInt8) (row : Row) : Prop where
  dvd_first : 16 ∣ row.first
  last_add_one : row.last + 1 = min (row.first + 16) bytes.length
  exists_ne_zero : ∃ address byte, row.first ≤ address ∧ address ≤ row.last ∧
    bytes[address]? = some byte ∧ byte ≠ 0
  text_eq : row.text = indent ++ (label row.first row.last ++
    items ((List.range 8).map fun k => ((word? bytes (row.first + 2 * k)).getD 0).toNat))

/-- A word that is not zero has a byte that is not zero. -/
lemma exists_ne_zero_of_word {bytes : List UInt8} {address : ℕ}
    (h : (word? bytes address).getD 0 ≠ 0) :
    address + 1 < bytes.length ∧ ∃ offset byte, offset ≤ 1 ∧
      bytes[address + offset]? = some byte ∧ byte ≠ 0 := by
  obtain ⟨word, hword⟩ : ∃ word, word? bytes address = some word :=
    Option.ne_none_iff_exists'.mp fun hnone => h (by rw [hnone, Option.getD_none])
  rw [hword, Option.getD_some] at h
  simp only [word?, Option.bind_eq_some_iff, Option.map_eq_some_iff] at hword
  obtain ⟨high, hhigh, low, hlow, rfl⟩ := hword
  refine ⟨(List.getElem?_eq_some_iff.mp hlow).1, ?_⟩
  by_cases hzero : high = 0
  · refine ⟨1, low, le_rfl, hlow, fun hlowZero => h ?_⟩
    rw [hzero, hlowZero]
    rfl
  · exact ⟨0, high, zero_le_one, hhigh, hzero⟩

lemma shows_rowAt {bytes : List UInt8} {k : ℕ} (hk : 16 * k < bytes.length)
    (hwords : (rowAt bytes (16 * k)).isZeros = false) : (rowAt bytes (16 * k)).Shows bytes := by
  have hall : ¬(wordsAt bytes (16 * k)).all (· == 0) = true := fun hall => by
    rw [rowAt, if_pos hall] at hwords
    cases hwords
  rw [rowAt, if_neg hall]
  refine ⟨⟨k, rfl⟩, ?_, ?_, ?_⟩
  · simp only [Row.first, Row.last, lastAt]
    omega
  · simp only [wordsAt_eq, List.all_map, List.all_eq_true, Function.comp_apply, beq_iff_eq,
      not_forall] at hall
    obtain ⟨j, hj, hword⟩ := hall
    have hj : j < 8 := List.mem_range.mp hj
    obtain ⟨hlt, offset, byte, hoffset, hbyte, hne⟩ := exists_ne_zero_of_word hword
    refine ⟨_, byte, ?_, ?_, hbyte, hne⟩
    · simp only [Row.first]
      omega
    · simp only [Row.last, lastAt]
      omega
  · rw [Row.text_eq, body, wordsAt_eq, List.map_map]
    rfl

end Row

lemma shows_of_mem_rows {bytes : List UInt8} {row : Row} (hrow : row ∈ rows bytes)
    (hwords : row.isZeros = false) : row.Shows bytes := by
  obtain ⟨k, hk, rfl⟩ := eq_rowAt_of_mem_rows hrow hwords
  exact Row.shows_rowAt hk hwords

/-- A row stands for as many bytes as its label says. -/
lemma length_bytes_of_mem_rows {bytes : List UInt8} {row : Row} (hrow : row ∈ rows bytes) :
    row.bytes.length = row.last + 1 - row.first := by
  cases row with
  | zeros first last => exact List.length_replicate
  | words first last ws =>
    obtain ⟨k, hk, heq⟩ := eq_rowAt_of_mem_rows hrow rfl
    have hshows := shows_of_mem_rows hrow rfl
    have hws : ws.length = 8 := by
      rw [rowAt] at heq
      split at heq
      · cases heq
      · rw [(Row.words.inj heq).2.2, wordsAt, List.length_map, List.length_range]
    have hbytes : (ws.flatMap Opcode.toBytes).length = 16 := by
      simp [List.length_flatMap, Opcode.toBytes, hws]
    have hlast := hshows.last_add_one
    simp only [Row.first, Row.last] at hlast ⊢
    rw [Row.bytes, List.length_take, hbytes]
    omega

/-- A collapsed row covers zero bytes only. -/
lemma getElem?_of_isZeros {bytes : List UInt8} (heven : 2 ∣ bytes.length) {row : Row}
    (hrow : row ∈ rows bytes) (hzeros : row.isZeros = true) {address : ℕ}
    (hfirst : row.first ≤ address) (hlast : address ≤ row.last) : bytes[address]? = some 0 := by
  have hbyte := (tiles_rows bytes).getElem?_flatMap_bytes
    (fun row hrow => length_bytes_of_mem_rows hrow) hrow hfirst hlast
  rw [flatMap_bytes_rows heven, Nat.sub_zero] at hbyte
  rw [hbyte]
  cases row with
  | words first last ws => cases hzeros
  | zeros first last =>
    simp only [Row.first, Row.last] at hfirst hlast ⊢
    rw [Row.bytes, List.getElem?_replicate, if_pos (by omega)]

end Dump

open Dump

/-- The rows of a memory of even length cover it from the first address to the last, each beginning
behind the one before, and no two neighbours are collapsed. A row that is not collapsed shows the
words at its addresses, one of which is not zero, and a collapsed row covers zero bytes only. They
are the rows that a pass over the addresses finds which looks back at the last row. -/
theorem memory_rows_tile (bytes : List UInt8) (hne : bytes ≠ []) (heven : 2 ∣ bytes.length) :
    scan bytes = rows bytes ∧
    (rows bytes).head?.map Row.first = some 0 ∧
    (rows bytes).getLast?.map (fun row => row.last + 1) = some bytes.length ∧
    ((rows bytes).IsChain fun row next => next.first = row.last + 1) ∧
    (rows bytes).IsChain Row.Apart ∧
    ∀ row ∈ rows bytes, row.first ≤ row.last ∧
      (row.isZeros = false → row.Shows bytes) ∧
      (row.isZeros = true → ∀ address, row.first ≤ address → address ≤ row.last →
        bytes[address]? = some 0) := by
  have htiles := tiles_rows bytes
  have hrows := rows_ne_nil hne
  refine ⟨scan_eq_rows bytes, htiles.head?_first hrows, htiles.getLast?_last hrows, htiles.isChain,
    isChain_rows bytes, fun row hrow =>
      ⟨(htiles.first_le_last hrow).2, shows_of_mem_rows hrow, ?_⟩⟩
  exact fun hzeros address => getElem?_of_isZeros heven hrow hzeros

/-- Two zero rows and a short row behind them: the zero rows are one, and the short row is filled up
with zero words. -/
theorem memory_rows_tile_short :
    let bytes := List.replicate 32 0 ++ [0x12, 0x34, 0, 0]
    let row := Row.words 32 35 [0x1234, 0, 0, 0, 0, 0, 0, 0]
    rows bytes = [.zeros 0 31, row] ∧ row.Shows bytes ∧
      ∀ address ≤ 31, bytes[address]? = some 0 := by
  intro bytes row
  obtain ⟨hscan, -, -, -, -, hshow⟩ := memory_rows_tile bytes (by decide) (by decide)
  have hrows : rows bytes = [.zeros 0 31, row] := hscan.symm.trans (by decide)
  rw [hrows] at hshow
  exact ⟨hrows, (hshow row (by simp)).2.1 rfl, fun address hlast =>
    (hshow (.zeros 0 31) (by simp)).2.2 rfl address (Nat.zero_le _) hlast⟩

end ChipEight
