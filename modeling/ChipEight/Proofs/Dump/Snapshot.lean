import Mathlib.Data.List.Basic
import ChipEight.Snapshot
import ChipEight.Proofs.Dump.Rows

/-!
Crash dumps lose nothing.

The lines of a snapshot are sections of known lengths, so equal lists of lines are equal section
by section (`Snapshot.lines_injective`). The stack is filled up to sixteen values, and its
heading tells which of them count: without the depth, a zero on the stack could not be told from
a place that is free.

The cause of a crash stands in front of the snapshot, and is itself put together from texts that
quote other texts. `Fault.message_append_inj` reads it over from the front, whatever follows; with
the word and the address before it and the lines after it this gives `crash_text_eq_iff`.
-/

namespace ChipEight

open Text

/-! ### Snapshots -/

attribute [ext] Snapshot Crash

namespace Snapshot

variable {s t : Snapshot}

/-- The stack as a dump shows it, filled up with zeros. -/
def stackValues (s : Snapshot) : List Nat :=
  s.stack.toList ++ List.replicate (16 - s.stack.depth) 0

theorem length_stackValues (s : Snapshot) : s.stackValues.length = 16 := by
  have hdepth : s.stack.depth ≤ 16 := s.stack.length_le
  rw [stackValues, List.length_append, CallStack.length_toList, List.length_replicate]
  omega

/-- The depth of the heading and the values behind it determine the stack. -/
theorem stack_eq_of_stackValues (hdepth : s.stack.depth = t.stack.depth)
    (hvalues : s.stackValues = t.stackValues) : s.stack = t.stack := by
  have hlength : s.stack.toList.length = t.stack.toList.length := by
    simp only [CallStack.length_toList, hdepth]
  exact CallStack.ext_toList (List.append_inj hvalues hlength).1

/-- The registers as a dump shows them. -/
def registerValues (s : Snapshot) : List Nat := s.registers.toList.map UInt8.toNat

theorem length_registerValues (s : Snapshot) : s.registerValues.length = 16 := by
  simp [registerValues, Registers.toList]

theorem registers_eq_of_registerValues (h : s.registerValues = t.registerValues) :
    s.registers = t.registers := by
  have hbytes : s.registers.toList = t.registers.toList :=
    List.map_injective_iff.mpr (fun _ _ => UInt8.toNat_inj.mp) h
  exact congrArg Registers.mk (Vector.toList_inj.mp hbytes)

/-- The heading of the stack. -/
def stackHeading (depth : Nat) : String := "\tStack (" ++ toString depth ++ ") :"

theorem stackHeading_injective : Function.Injective stackHeading := by
  have hstop : Stops Char.isDigit ") :" := stops_of_head ')' (by simp) (by decide)
  intro m n h
  rw [stackHeading, stackHeading, String.append_assoc, String.append_assoc,
    String.append_right_inj] at h
  exact (decimal_append_inj hstop hstop h).1

theorem oneLine_stackHeading (depth : Nat) : OneLine (stackHeading depth) := by
  simp only [stackHeading, oneLine_append, oneLine_decimal, and_true]
  exact ⟨oneLine_of_not_mem (by simp), oneLine_of_not_mem (by simp)⟩

theorem lines_eq (s : Snapshot) :
    s.lines =
      ["\tOpcode :", Dump.valueLine s.opcode.toNat,
        "\tProgram Counter :", Dump.valueLine s.counter,
        "\tIndex Register :", Dump.valueLine s.index,
        "\tTimers (DT, ST) :"] ++
      (Dump.numberRows [s.delay.toNat, s.sound.toNat] ++
        stackHeading s.stack.depth ::
          (Dump.numberRows s.stackValues ++
            "\tRegister :" :: Dump.numberRows s.registerValues)) := by
  simp only [lines, stackValues, registerValues, stackHeading, List.append_assoc,
    List.cons_append, List.nil_append]

/-- The lines of a snapshot determine it. -/
theorem lines_injective : Function.Injective lines := by
  intro s t h
  rw [lines_eq, lines_eq] at h
  obtain ⟨hvalues, h⟩ := List.append_inj h rfl
  obtain ⟨htimers, h⟩ := List.append_inj h (by
    rw [Dump.length_numberRows, Dump.length_numberRows]
    rfl)
  obtain ⟨hheading, h⟩ := List.cons.inj h
  obtain ⟨hstack, h⟩ := List.append_inj h (by
    rw [Dump.length_numberRows, Dump.length_numberRows, length_stackValues, length_stackValues])
  obtain ⟨-, hregisters⟩ := List.cons.inj h
  simp only [List.cons.injEq, true_and, and_true] at hvalues
  obtain ⟨hopcode, hcounter, hindex⟩ := hvalues
  have hclocks := Dump.numberRows_injective htimers
  simp only [List.cons.injEq, and_true] at hclocks
  have hstackValues := Dump.numberRows_injective hstack
  have hregisterValues := Dump.numberRows_injective hregisters
  exact Snapshot.ext
    (UInt16.toNat_inj.mp (Dump.valueLine_injective hopcode))
    (Dump.valueLine_injective hcounter)
    (Dump.valueLine_injective hindex)
    (registers_eq_of_registerValues hregisterValues)
    (stack_eq_of_stackValues (stackHeading_injective hheading) hstackValues)
    (UInt8.toNat_inj.mp hclocks.1)
    (UInt8.toNat_inj.mp hclocks.2)

theorem oneLine_lines (s : Snapshot) : ∀ line ∈ s.lines, OneLine line := by
  have hrows (values : List Nat) : ∀ line ∈ Dump.numberRows values, OneLine line :=
    fun line hline => Dump.oneLine_of_mem_numberRows hline
  rw [lines_eq]
  simp only [List.forall_mem_append, List.forall_mem_cons, Dump.oneLine_valueLine,
    oneLine_stackHeading, List.not_mem_nil, false_implies, implies_true, true_and, and_true]
  refine ⟨⟨?_, ?_, ?_, ?_⟩, hrows _, hrows _, ?_, hrows _⟩ <;> exact oneLine_of_not_mem (by simp)

theorem length_lines (s : Snapshot) : s.lines.length = 14 := by
  simp only [lines_eq, List.length_append, List.length_cons, List.length_nil,
    Dump.length_numberRows, length_stackValues, length_registerValues]

/-- The text of a snapshot falls apart into its lines. -/
theorem lines_text (s : Snapshot) :
    Text.lines s.text = ["Snapshot \x7b"] ++ s.lines ++ ["\x7d"] := by
  rw [text, lines_intercalate (by simp)]
  refine flatMap_lines_of_oneLine ?_
  simp only [List.forall_mem_append, List.forall_mem_singleton]
  exact ⟨⟨oneLine_of_not_mem (by simp), s.oneLine_lines⟩, oneLine_of_not_mem (by simp)⟩

/-- The text of a snapshot determines it. -/
theorem text_injective : Function.Injective text := by
  intro s t h
  have hlines := congrArg Text.lines h
  rw [lines_text, lines_text] at hlines
  exact lines_injective (List.append_cancel_left (List.append_cancel_right hlines))

end Snapshot

/-! ### Causes -/

theorem OpcodeFault.message_append_inj {a b : OpcodeFault} {s t : String}
    (hs : Stops Char.isDigit s) (ht : Stops Char.isDigit t)
    (h : a.message ++ s = b.message ++ t) : a = b ∧ s = t := by
  -- unfolded by hand, as equations of a function with long texts are slow to derive
  cases a <;> cases b <;> unfold message at h <;> simp only [String.append_assoc] at h
  case unsupported.unsupported v w =>
    rw [String.append_right_inj] at h
    obtain ⟨hword, hrest⟩ := numeral_separator_inj '.' (by simp) (by decide) h
    exact ⟨congrArg unsupported (UInt16.toNat_inj.mp hword), hrest⟩
  case outside.outside p m q n =>
    rw [String.append_right_inj] at h
    obtain ⟨hpointer, h⟩ := decimal_separator_inj ',' (by simp) (by decide) h
    obtain ⟨hsize, hrest⟩ := decimal_append_inj hs ht h
    exact ⟨by rw [hpointer, hsize], hrest⟩
  all_goals simpa using congrArg String.toList h

theorem StackFault.message_append_inj {a b : StackFault} {s t : String}
    (h : a.message ++ s = b.message ++ t) : a = b ∧ s = t := by
  cases a <;> cases b <;> unfold message at h
  case full.full | empty.empty => exact ⟨rfl, (String.append_right_inj _).mp h⟩
  all_goals simpa using congrArg String.toList h

theorem AccessFault.message_append_inj {a b : AccessFault} {s t : String}
    (h : a.message ++ s = b.message ++ t) : a = b ∧ s = t := by
  obtain ⟨address, length⟩ := a
  obtain ⟨address', length'⟩ := b
  unfold message at h
  simp only [String.append_assoc] at h
  rw [String.append_right_inj] at h
  obtain ⟨hlength, h⟩ := decimal_separator_inj ' ' (by simp) (by decide) h
  obtain ⟨haddress, hrest⟩ := numeral_separator_inj ' ' (by simp) (by decide) h
  exact ⟨by rw [haddress, hlength], hrest⟩

/-- The text of a cause can be read over, whatever follows it. -/
theorem Fault.message_append_inj {a b : Fault} {s t : String}
    (h : a.message ++ s = b.message ++ t) : a = b ∧ s = t := by
  have hquote (rest : String) : Stops Char.isDigit ("'." ++ rest) :=
    stops_append '\'' (by simp) (by decide)
  cases a <;> cases b <;> unfold message at h <;> simp only [String.append_assoc] at h
  case opcode.opcode a b =>
    rw [String.append_right_inj] at h
    obtain ⟨rfl, hrest⟩ := OpcodeFault.message_append_inj (hquote s) (hquote t) h
    exact ⟨rfl, (String.append_right_inj _).mp hrest⟩
  case stack.stack a b =>
    rw [String.append_right_inj] at h
    obtain ⟨rfl, hrest⟩ := StackFault.message_append_inj h
    exact ⟨rfl, (String.append_right_inj _).mp hrest⟩
  case memory.memory a b =>
    rw [String.append_right_inj] at h
    obtain ⟨rfl, hrest⟩ := AccessFault.message_append_inj h
    exact ⟨rfl, (String.append_right_inj _).mp hrest⟩
  -- the part that failed is named before the cause is quoted
  all_goals simpa using congrArg String.toList h

/-! ### Crashes -/

theorem Crash.text_eq (crash : Crash) :
    crash.text =
      "The chipset crashed executing " ++ (Hex.numeral 4 crash.opcode.toNat ++ (" at " ++
        (Hex.numeral 4 crash.address ++ (": " ++ (crash.fault.message ++
          ("\n" ++ crash.snapshot.text)))))) := by
  unfold text
  simp only [String.append_assoc]

/-- A crash dump loses nothing: two crashes have the same text only if they are the same in the
cause and all that it quotes, the word, the address, and everything that the snapshot holds. -/
theorem crash_text_eq_iff (a b : Crash) : a.text = b.text ↔ a = b := by
  refine ⟨fun h => ?_, fun h => congrArg Crash.text h⟩
  rw [Crash.text_eq, Crash.text_eq, String.append_right_inj] at h
  obtain ⟨hopcode, h⟩ := numeral_separator_inj ' ' (by simp) (by decide) h
  obtain ⟨haddress, h⟩ := numeral_separator_inj ':' (by simp) (by decide) h
  obtain ⟨hfault, h⟩ := Fault.message_append_inj h
  have hsnapshot := Snapshot.text_injective ((String.append_right_inj "\n").mp h)
  exact Crash.ext hfault (UInt16.toNat_inj.mp hopcode) haddress hsnapshot

end ChipEight
