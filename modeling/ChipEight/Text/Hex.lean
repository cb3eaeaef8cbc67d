/-!
Hexadecimal numerals in upper case, and byte strings written two digits a byte.

* `numeral width n` is `0x` followed by `n` in at least `width` digits: a number that needs
  more digits gets them, so no numeral is ever cut.
* `value?` reads a row of digits back; `value?_padded` says that it undoes the writing
  whatever the width, hence `numeral_inj`: numerals of one width are equal only for equal
  numbers.
* `ofBytes` and `bytes?` are the two directions for byte strings.
-/

namespace ChipEight.Hex

/-! ### Digits -/

/-- The digit of a number below sixteen. -/
def digitChar (d : Nat) : Char :=
  if d < 10 then Char.ofNat (48 + d) else Char.ofNat (55 + d)

/-- The number a digit stands for, in either case; `none` for any other character. -/
def digitValue? (c : Char) : Option Nat :=
  if '0' ≤ c ∧ c ≤ '9' then some (c.toNat - 48)
  else if 'A' ≤ c ∧ c ≤ 'F' then some (c.toNat - 55)
  else if 'a' ≤ c ∧ c ≤ 'f' then some (c.toNat - 87)
  else none

theorem digitValue?_digitChar {d : Nat} (hd : d < 16) : digitValue? (digitChar d) = some d := by
  have h : ∀ e : Fin 16, digitValue? (digitChar e) = some e.val := by decide
  exact h ⟨d, hd⟩

/-- The digits of `n`, the highest first and without leading zeros; zero is one digit. -/
def digits (n : Nat) : List Char :=
  if n < 16 then [digitChar n] else digits (n / 16) ++ [digitChar (n % 16)]

/-- The digits of `n`, filled up with zeros on the left to at least `width` of them. -/
def padded (width n : Nat) : List Char :=
  List.replicate (width - (digits n).length) '0' ++ digits n

/-- The number written by a row of digits; `none` if any of them is no digit. -/
def value? (cs : List Char) : Option Nat :=
  cs.foldlM (fun n c => (digitValue? c).map (16 * n + ·)) 0

theorem value?_digits (n : Nat) : value? (digits n) = some n := by
  fun_induction digits n with
  | case1 n h => simp [value?, digitValue?_digitChar h]
  | case2 n h ih =>
    have hd : n % 16 < 16 := Nat.mod_lt _ (by decide)
    simp only [value?] at ih ⊢
    simp [List.foldlM_append, ih, digitValue?_digitChar hd]
    omega

private theorem foldlM_zeros (k : Nat) (cs : List Char) :
    (List.replicate k '0' ++ cs).foldlM (fun n c => (digitValue? c).map (16 * n + ·)) 0 =
      cs.foldlM (fun n c => (digitValue? c).map (16 * n + ·)) 0 := by
  induction k with
  | zero => simp
  | succ k ih =>
    have h0 : digitValue? '0' = some 0 := by decide
    simpa [List.replicate_succ, h0] using ih

/-- Reading undoes writing, whatever the number of leading zeros. -/
theorem value?_padded (width n : Nat) : value? (padded width n) = some n := by
  rw [value?, padded, foldlM_zeros]
  exact value?_digits n

/-- The number `n` as `0x` and at least `width` digits. -/
def numeral (width n : Nat) : String :=
  String.ofList ('0' :: 'x' :: padded width n)

theorem numeral_inj {width m n : Nat} (h : numeral width m = numeral width n) : m = n := by
  have hp : padded width m = padded width n := by
    simpa [numeral] using congrArg String.toList h
  simpa [value?_padded] using congrArg value? hp

/-! ### Byte strings -/

/-- The two digits of a byte, the high half first. -/
def byteDigits (b : UInt8) : List Char :=
  [digitChar (b.toNat / 16), digitChar (b.toNat % 16)]

/-- A byte string in two digits a byte. -/
def ofBytes (bytes : List UInt8) : String :=
  String.ofList (bytes.flatMap byteDigits)

/-- The bytes written by pairs of digits; `none` if a digit is left over or is none. -/
def bytes? : List Char → Option (List UInt8)
  | [] => some []
  | [_] => none
  | high :: low :: rest => do
    let h ← digitValue? high
    let l ← digitValue? low
    let bs ← bytes? rest
    return UInt8.ofNat (16 * h + l) :: bs

end ChipEight.Hex
