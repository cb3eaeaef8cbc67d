import ChipEight.Dump.Layout
import ChipEight.Opcode

/-!
Bytes in rows of eight words, with runs of zero rows collapsed into one.

`rows` cuts the bytes into rows of sixteen and prepends them one by one from the back; a zero row
in front of a zero row takes it over, so no two zero rows are neighbours.
-/

namespace ChipEight.Dump

/-- A row of a memory dump, from its first address to its last. -/
inductive Row where
  /-- Words, of which at least one is not zero. -/
  | words (first last : Nat) (words : List Opcode)
  /-- Nothing but zeros, however many. -/
  | zeros (first last : Nat)
deriving DecidableEq

namespace Row

/-- The first address of a row. -/
def first : Row → Nat
  | words first _ _ => first
  | zeros first _ => first

/-- The last address of a row. -/
def last : Row → Nat
  | words _ last _ => last
  | zeros _ last => last

/-- Whether a row is collapsed. -/
def isZeros : Row → Bool
  | words _ _ _ => false
  | zeros _ _ => true

/-- The big-endian words of some bytes; a single byte left over makes no word. -/
def wordsOf : List UInt8 → List Opcode
  | high :: low :: rest => Opcode.ofBytes high low :: wordsOf rest
  | _ => []

/-- The row of at most sixteen bytes. Words that are missing behind the end are shown as zero. -/
def ofBytes (first : Nat) (bytes : List UInt8) : Row :=
  let ws := wordsOf bytes
  let last := first + bytes.length - 1
  if ws.all (· == 0) then zeros first last
  else words first last (ws ++ List.replicate (8 - ws.length) 0)

/-- Puts a row in front of others; a zero row takes over a zero row that follows it. -/
def prepend : Row → List Row → List Row
  | zeros first _, zeros _ last :: rest => zeros first last :: rest
  | row, rest => row :: rest

/-- The text of a row. -/
def text : Row → String
  | words first last ws =>
    indent ++ label first last ++ String.join (ws.map fun w => " " ++ Hex.numeral 4 w.toNat)
  | zeros first last =>
    indent ++ label first last ++ " " ++ Hex.numeral 4 0 ++ " ... " ++ Hex.numeral 4 0

end Row

/-- The rows of some bytes. -/
def rows (bytes : List UInt8) : List Row :=
  ((numbered 0 (chunks 16 bytes)).map fun (first, piece) => Row.ofBytes first piece).foldr
    Row.prepend []

/-- Bytes as rows of words. -/
def memoryRows (bytes : List UInt8) : List String := (rows bytes).map Row.text

end ChipEight.Dump
