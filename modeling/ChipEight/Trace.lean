import ChipEight.Instruction.Listing
import ChipEight.Opcode

/-!
Trace records: what observers are told about an executed instruction.
-/

namespace ChipEight

/-- An executed instruction together with where it stood and the word it was decoded from. -/
structure TraceRecord (ρ : Type) where
  /-- The address of the instruction. -/
  address : Nat
  /-- The word at that address. -/
  opcode : Opcode
  /-- What the word stands for. -/
  instruction : Instruction ρ
deriving DecidableEq

/-- The line of a trace: address, word and listing. -/
def TraceRecord.text {ρ : Type} [RegisterName ρ] (record : TraceRecord ρ) : String :=
  Hex.numeral 4 record.address ++ "  " ++ Hex.numeral 4 record.opcode.toNat ++ "  " ++
    record.instruction.text

end ChipEight
