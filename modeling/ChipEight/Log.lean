import ChipEight.Snapshot
import ChipEight.Keypad

/-!
The log: what the machine and its host report while they run.

An entry is data and its `message` is derived from it, so that theorems can speak of entries
instead of texts.
-/

namespace ChipEight.Log

/-- How important an entry is. -/
inductive Level where
  /-- Something has failed for good. -/
  | error
  /-- Something is probably not meant. -/
  | warn
  /-- Something begins or ends. -/
  | info
  /-- What the machine does in detail. -/
  | debug
  /-- Everything there is. -/
  | trace
deriving DecidableEq

namespace Level

/-- The place of a level, the most severe one first. -/
def rank : Level → Nat
  | error => 1
  | warn => 2
  | info => 3
  | debug => 4
  | trace => 5

/-- The name shown in front of a message. -/
def name : Level → String
  | error => "ERROR"
  | warn => "WARN"
  | info => "INFO"
  | debug => "DEBUG"
  | trace => "TRACE"

end Level

/-- Something worth reporting. -/
inductive Entry where
  /-- A program was put into memory. -/
  | loaded (name : String) (length : Nat)
  /-- A word was fetched. -/
  | fetched (word : Opcode) (address : Nat)
  /-- A subroutine went back to an address. -/
  | returned (address : Nat)
  /-- A subroutine was called and made the stack this deep. -/
  | called (address depth : Nat)
  /-- The index register left the memory. -/
  | indexOutside (index : Nat)
  /-- A glyph was asked for that the font does not have. -/
  | noGlyph (digit : UInt8) (x : Register)
  /-- A key was pressed that the keypad does not have. -/
  | ignoredKey (code : UInt8)
  /-- A cycle failed, as the machine reports it. -/
  | crashed (crash : Crash)
  /-- A cycle failed, as the host reports it. -/
  | halted (crash : Crash)
  /-- The host loop begins. -/
  | started (hertz : Nat)
  /-- The host loop was told to end. -/
  | stopped
  /-- A worker thread was found to have panicked. -/
  | workerPanicked

namespace Entry

/-- The level of an entry. -/
def level : Entry → Level
  | loaded _ _ => .info
  | fetched _ _ => .debug
  | returned _ => .debug
  | called _ _ => .debug
  | indexOutside _ => .warn
  | noGlyph _ _ => .warn
  | ignoredKey _ => .warn
  | crashed _ => .debug
  | halted _ => .error
  | started _ => .info
  | stopped => .info
  | workerPanicked => .error

/-- The text of an entry. -/
def message : Entry → String
  | loaded name length => "Loaded rom '" ++ name ++ "' with " ++ toString length ++ " bytes"
  | fetched word address =>
    "opcode " ++ Hex.numeral 4 word.toNat ++ " at " ++ Hex.numeral 4 address
  | returned address => "return to " ++ Hex.numeral 4 address
  | called address depth =>
    "call " ++ Hex.numeral 4 address ++ ", stack depth " ++ toString depth
  | indexOutside index =>
    "The index register " ++ Hex.numeral 4 index ++ " points past the memory"
  | noGlyph digit x =>
    "There is no font glyph for " ++ Hex.numeral 1 digit.toNat ++ " in V" ++
      String.ofList (Hex.digits x.val)
  | ignoredKey code =>
    "Ignoring the key " ++ Hex.numeral 1 code.toNat ++ " as it is not on the keypad"
  | crashed crash => crash.text
  | halted crash => crash.text
  | started hertz => "Runner started at " ++ toString hertz ++ " Hz"
  | stopped => "Runner stopped"
  | workerPanicked => "The worker thread panicked."

/-- The line of an entry: level and text. -/
def line (entry : Entry) : String := entry.level.name ++ " " ++ entry.message

end Entry

/-- What pressing the key of a code reports: codes without a key are ignored. -/
def ofPress (code : UInt8) : List Entry :=
  if (Key.ofCode? code).isSome then [] else [.ignoredKey code]

/-- The lines of the entries that are at least as severe as a level. -/
def lines (level : Level) (entries : List Entry) : List String :=
  (entries.filter fun entry => entry.level.rank ≤ level.rank).map Entry.line

end ChipEight.Log
