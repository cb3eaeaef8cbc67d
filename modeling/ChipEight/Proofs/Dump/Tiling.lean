import Mathlib.Data.List.Basic
import ChipEight.Dump.MemoryRows
import ChipEight.Proofs.Dump.Rows

/-!
Rows of memory can be read back, collapsed or not.

`Row.bytes` is the range of memory that a row stands for: the bytes of its words, as far as the
label reaches, or as many zeros as the label says. Cutting a range into pieces and writing each
of them as a row keeps the bytes (`bytes_ofBytes`), and so does collapsing a zero row with a
zero row behind it, provided that there is no gap between the two (`flatMap_bytes_prepend`). That
there is none is what `Tiles` says of a whole list of rows, and it is kept by the same steps
(`tiles_prepend`). Induction on the pieces carries both through a memory, which gives
`flatMap_bytes_rows`: the rows of a memory stand for its bytes. As the text of a row determines
the row (`Row.text_injective`), the lines of a memory determine its bytes (`memoryRows_inj`).
-/

namespace ChipEight

/-- The two bytes of a word, the high one first. -/
def Opcode.toBytes (word : Opcode) : List UInt8 :=
  [UInt8.ofNat (word.toNat / 0x100), UInt8.ofNat (word.toNat % 0x100)]

theorem Opcode.toBytes_ofBytes (high low : UInt8) :
    (Opcode.ofBytes high low).toBytes = [high, low] := by
  have hhigh := high.toNat_lt
  have hlow := low.toNat_lt
  have hdiv : (0x100 * high.toNat + low.toNat) / 0x100 = high.toNat := by omega
  have hmod : (0x100 * high.toNat + low.toNat) % 0x100 = low.toNat := by omega
  rw [toBytes, toNat_ofBytes, hdiv, hmod, UInt8.ofNat_toNat, UInt8.ofNat_toNat]

namespace Dump

open Text

/-! ### The bytes of a row -/

namespace Row

/-- The bytes that a row stands for. -/
def bytes : Row → List UInt8
  | words first last ws => (ws.flatMap Opcode.toBytes).take (last + 1 - first)
  | zeros first last => List.replicate (last + 1 - first) 0

theorem flatMap_toBytes_wordsOf {bytes : List UInt8} (heven : 2 ∣ bytes.length) :
    (wordsOf bytes).flatMap Opcode.toBytes = bytes := by
  fun_induction wordsOf bytes with
  | case1 high low rest ih =>
    rw [List.length_cons, List.length_cons] at heven
    rw [List.flatMap_cons, Opcode.toBytes_ofBytes, ih (by omega)]
    rfl
  | case2 bytes h =>
    match bytes with
    | [] => rfl
    | [byte] => simp at heven
    | high :: low :: rest => exact absurd rfl (h high low rest)

/-- Bytes whose words are all zero are all zero. -/
theorem eq_replicate_of_wordsOf {bytes : List UInt8} (heven : 2 ∣ bytes.length)
    (hzero : ∀ word ∈ wordsOf bytes, word = 0) :
    bytes = List.replicate bytes.length 0 := by
  refine List.eq_replicate_iff.mpr ⟨rfl, fun byte hbyte => ?_⟩
  rw [← flatMap_toBytes_wordsOf heven, List.mem_flatMap] at hbyte
  obtain ⟨word, hword, hbyte⟩ := hbyte
  have hbytes : Opcode.toBytes 0 = [0, 0] := by decide
  rw [hzero word hword, hbytes] at hbyte
  simpa using hbyte

/-- The row of some bytes stands for these, whether it shows their words or not. -/
theorem bytes_ofBytes (first : Nat) {piece : List UInt8} (hne : piece ≠ [])
    (heven : 2 ∣ piece.length) : (ofBytes first piece).bytes = piece := by
  have hpos : 0 < piece.length := List.length_pos_iff.mpr hne
  have hlength : first + piece.length - 1 + 1 - first = piece.length := by omega
  rw [ofBytes]
  split
  · next hzero =>
    have hwords : ∀ word ∈ wordsOf piece, word = 0 := by simpa using hzero
    rw [bytes, hlength]
    exact (eq_replicate_of_wordsOf heven hwords).symm
  · rw [bytes, hlength, List.flatMap_append, flatMap_toBytes_wordsOf heven]
    exact List.take_left

@[simp] theorem first_ofBytes (first : Nat) (piece : List UInt8) :
    (ofBytes first piece).first = first := by
  rw [ofBytes]
  split <;> rfl

/-- The row of some bytes ends before the address behind these. -/
theorem last_ofBytes_add_one (first : Nat) {piece : List UInt8} (hne : piece ≠ []) :
    (ofBytes first piece).last + 1 = first + piece.length := by
  have hpos : 0 < piece.length := List.length_pos_iff.mpr hne
  have hlast : (ofBytes first piece).last = first + piece.length - 1 := by
    rw [ofBytes]
    split <;> rfl
  omega

theorem first_le_last_ofBytes (first : Nat) {piece : List UInt8} (hne : piece ≠ []) :
    (ofBytes first piece).first ≤ (ofBytes first piece).last := by
  have hpos : 0 < piece.length := List.length_pos_iff.mpr hne
  have hlast := last_ofBytes_add_one first hne
  rw [first_ofBytes]
  omega

end Row

/-! ### Rows without gaps -/

/-- The rows lie one behind the other, from an address up to but not including another. -/
def Tiles (first next : Nat) : List Row → Prop
  | [] => first = next
  | row :: rest => row.first = first ∧ first ≤ row.last ∧ Tiles (row.last + 1) next rest

section Prepend

variable {row : Row} {rest : List Row} {next : Nat}

/-- Putting a row in front extends the range, with or without collapsing. -/
theorem tiles_prepend (hrow : row.first ≤ row.last) (hrest : Tiles (row.last + 1) next rest) :
    Tiles row.first next (row.prepend rest) := by
  unfold Row.prepend
  split
  · next first last first' last' rest =>
    obtain ⟨hfirst, hlast, hrest⟩ := hrest
    simp only [Row.first, Row.last] at hrow hfirst hlast hrest ⊢
    exact ⟨rfl, by simp only [Row.last]; omega, hrest⟩
  · exact ⟨rfl, hrow, hrest⟩

/-- Putting a row in front puts its bytes in front. Two zero rows can be collapsed because the
second begins where the first ends. -/
theorem flatMap_bytes_prepend (hrow : row.first ≤ row.last)
    (hrest : Tiles (row.last + 1) next rest) :
    (row.prepend rest).flatMap Row.bytes = row.bytes ++ rest.flatMap Row.bytes := by
  unfold Row.prepend
  split
  · next first last first' last' rest =>
    obtain ⟨hfirst, hlast, -⟩ := hrest
    simp only [Row.first, Row.last] at hrow hfirst hlast
    have hlength : last' + 1 - first = (last + 1 - first) + (last' + 1 - first') := by omega
    simp only [List.flatMap_cons, Row.bytes, ← List.append_assoc]
    rw [← List.replicate_add, hlength]
  · rfl

end Prepend

/-! ### The rows of pieces -/

/-- The rows of consecutive pieces, the first of which begins at an address. -/
def pieceRows (first : Nat) (pieces : List (List UInt8)) : List Row :=
  ((numbered first pieces).map fun (first, piece) => Row.ofBytes first piece).foldr
    Row.prepend []

theorem pieceRows_cons (first : Nat) (piece : List UInt8) (rest : List (List UInt8)) :
    pieceRows first (piece :: rest) =
      (Row.ofBytes first piece).prepend (pieceRows (first + piece.length) rest) := rfl

/-- The rows of pieces lie one behind the other, as the pieces do. -/
theorem tiles_pieceRows (first : Nat) {pieces : List (List UInt8)}
    (hne : ∀ piece ∈ pieces, piece ≠ []) :
    Tiles first (first + pieces.flatten.length) (pieceRows first pieces) := by
  induction pieces generalizing first with
  | nil => exact rfl
  | cons piece rest ih =>
    obtain ⟨hpiece, hrest⟩ := List.forall_mem_cons.mp hne
    have htail := ih (first + piece.length) hrest
    rw [← Row.last_ofBytes_add_one first hpiece] at htail
    have htiles := tiles_prepend (Row.first_le_last_ofBytes first hpiece) htail
    rw [Row.first_ofBytes, Row.last_ofBytes_add_one first hpiece] at htiles
    rw [pieceRows_cons, List.flatten_cons, List.length_append, ← Nat.add_assoc]
    exact htiles

/-- The rows of pieces stand for the pieces. -/
theorem flatMap_bytes_pieceRows (first : Nat) {pieces : List (List UInt8)}
    (hne : ∀ piece ∈ pieces, piece ≠ []) (heven : ∀ piece ∈ pieces, 2 ∣ piece.length) :
    (pieceRows first pieces).flatMap Row.bytes = pieces.flatten := by
  induction pieces generalizing first with
  | nil => rfl
  | cons piece rest ih =>
    obtain ⟨hpiece, hrest⟩ := List.forall_mem_cons.mp hne
    obtain ⟨hpieceEven, hrestEven⟩ := List.forall_mem_cons.mp heven
    have htail : Tiles ((Row.ofBytes first piece).last + 1)
        (first + piece.length + rest.flatten.length)
        (pieceRows (first + piece.length) rest) := by
      rw [Row.last_ofBytes_add_one first hpiece]
      exact tiles_pieceRows (first + piece.length) hrest
    calc
      (pieceRows first (piece :: rest)).flatMap Row.bytes
          = (Row.ofBytes first piece).bytes ++
              (pieceRows (first + piece.length) rest).flatMap Row.bytes :=
            flatMap_bytes_prepend (Row.first_le_last_ofBytes first hpiece) htail
      _ = piece ++ rest.flatten := by
            rw [Row.bytes_ofBytes first hpiece hpieceEven, ih _ hrest hrestEven]
      _ = (piece :: rest).flatten := List.flatten_cons.symm

theorem ne_nil_of_mem_chunks {α : Type} {size : Nat} {items piece : List α}
    (hpiece : piece ∈ chunks size items) : piece ≠ [] := by
  fun_induction chunks size items with
  | case1 items h => simp at hpiece
  | case2 items h ih =>
    obtain ⟨hne, hsize⟩ := not_or.mp h
    rcases List.mem_cons.mp hpiece with rfl | hpiece
    · simp [List.take_eq_nil_iff, hne, hsize]
    · exact ih hpiece

/-- A divisor of the size and of the whole length divides the length of every piece. -/
theorem dvd_length_of_mem_chunks {α : Type} {d size : Nat} {items piece : List α}
    (hsize : d ∣ size) (hitems : d ∣ items.length) (hpiece : piece ∈ chunks size items) :
    d ∣ piece.length := by
  fun_induction chunks size items with
  | case1 items h => simp at hpiece
  | case2 items h ih =>
    rcases List.mem_cons.mp hpiece with rfl | hpiece
    · rw [List.length_take]
      rcases Nat.le_total size items.length with hle | hle
      · rwa [Nat.min_eq_left hle]
      · rwa [Nat.min_eq_right hle]
    · refine ih ?_ hpiece
      rw [List.length_drop]
      exact Nat.dvd_sub hitems hsize

/-! ### The rows of a memory -/

theorem rows_eq (bytes : List UInt8) : rows bytes = pieceRows 0 (chunks 16 bytes) := rfl

/-- The rows of a memory stand for its bytes. -/
theorem flatMap_bytes_rows {bytes : List UInt8} (heven : 2 ∣ bytes.length) :
    (rows bytes).flatMap Row.bytes = bytes := by
  rw [rows_eq, flatMap_bytes_pieceRows 0 (fun piece hpiece => ne_nil_of_mem_chunks hpiece)
    (fun piece hpiece => dvd_length_of_mem_chunks (by decide) heven hpiece),
    flatten_chunks (by decide)]

/-! ### Texts -/

namespace Row

/-- What the text of a row shows behind the label. -/
def body : Row → String
  | words _ _ ws => items (ws.map UInt16.toNat)
  | zeros _ _ => " " ++ (Hex.numeral 4 0 ++ (" ... " ++ Hex.numeral 4 0))

theorem text_eq (row : Row) : row.text = indent ++ (label row.first row.last ++ row.body) := by
  cases row with
  | words first last ws =>
    simp only [text, body, items, Row.first, Row.last, List.map_map, String.append_assoc]
    rfl
  | zeros first last => simp only [text, body, Row.first, Row.last, String.append_assoc]

/-- Words never look like a collapsed row. -/
theorem items_ne_body_zeros (values : List Nat) (first last : Nat) :
    items values ≠ (zeros first last).body := by
  intro h
  cases values with
  | nil => simpa [items, body] using congrArg String.toList h
  | cons value rest =>
    have hdots : Stops isHexDigit (" ... " ++ Hex.numeral 4 0) :=
      stops_append ' ' (by simp) (by decide)
    rw [items_cons, body, String.append_right_inj] at h
    obtain ⟨-, hrest⟩ := numeral_append_inj (stops_items rest) hdots h
    cases rest with
    | nil => simpa [items] using congrArg String.toList hrest
    | cons next rest => simpa [items_cons, Hex.numeral] using congrArg String.toList hrest

theorem text_injective : Function.Injective text := by
  intro row row' h
  rw [text_eq, text_eq, String.append_right_inj] at h
  obtain ⟨hfirst, hlast, hbody⟩ := label_append_inj h
  cases row with
  | words first last ws =>
    cases row' with
    | words first' last' ws' =>
      have hws : ws = ws' :=
        List.map_injective_iff.mpr (fun _ _ => UInt16.toNat_inj.mp) (items_injective hbody)
      exact congr (congr (congrArg words hfirst) hlast) hws
    | zeros first' last' => exact absurd hbody (items_ne_body_zeros _ _ _)
  | zeros first last =>
    cases row' with
    | words first' last' ws' => exact absurd hbody.symm (items_ne_body_zeros _ _ _)
    | zeros first' last' => exact congr (congrArg zeros hfirst) hlast

end Row

/-- The lines of a memory determine its bytes. -/
theorem memoryRows_inj {xs ys : List UInt8} (hxs : 2 ∣ xs.length) (hys : 2 ∣ ys.length)
    (h : memoryRows xs = memoryRows ys) : xs = ys := by
  have hrows : rows xs = rows ys := List.map_injective_iff.mpr Row.text_injective h
  calc
    xs = (rows xs).flatMap Row.bytes := (flatMap_bytes_rows hxs).symm
    _ = (rows ys).flatMap Row.bytes := by rw [hrows]
    _ = ys := flatMap_bytes_rows hys

theorem oneLine_of_mem_memoryRows {bytes : List UInt8} {line : String}
    (hline : line ∈ memoryRows bytes) : OneLine line := by
  obtain ⟨row, -, rfl⟩ := List.mem_map.mp hline
  rw [Row.text_eq, oneLine_append, oneLine_append]
  refine ⟨oneLine_indent, oneLine_label _ _, ?_⟩
  cases row with
  | words first last ws => exact oneLine_items _
  | zeros first last =>
    simp only [Row.body, oneLine_append, oneLine_numeral, true_and, and_true]
    exact ⟨oneLine_of_not_mem (by simp), oneLine_of_not_mem (by simp)⟩

end Dump

end ChipEight
