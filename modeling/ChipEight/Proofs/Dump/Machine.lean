import Mathlib.Data.List.OfFn
import ChipEight.Machine.Dump
import ChipEight.Proofs.Dump.Snapshot
import ChipEight.Proofs.Dump.Tiling

/-!
The dump of a machine is faithful.

The name of the program stands in a dump as it is, line feeds included, so it may look like any of
the sections that follow it, and a dump cannot be read from the front. It can be read from the
back: behind the last heading of a memory there are rows only, and no row looks like that
heading (`memoryHeading_not_mem`); in front of it there are the sections of the processor and
the keypad, which have the same number of lines in every dump (`length_sections`); and what
is then left is the name. The parts are read back by the lemmas about them.
-/

namespace ChipEight

open Text

/-- Two lists are split at the same place if this is the last place of the value in both. -/
theorem append_cons_inj_of_last {α : Type} {a : α} {xs ys us vs : List α} (hys : a ∉ ys)
    (hvs : a ∉ vs) (h : xs ++ a :: ys = us ++ a :: vs) : xs = us ∧ ys = vs := by
  rcases List.append_eq_append_iff.mp h with ⟨gap, hus, hgap⟩ | ⟨gap, hxs, hgap⟩
  · cases gap with
    | nil => exact ⟨by simpa using hus.symm, (List.cons.inj hgap).2⟩
    | cons b gap =>
      have hmem : a ∈ ys := by simp [(List.cons.inj hgap).2]
      exact absurd hmem hys
  · cases gap with
    | nil => exact ⟨by simpa using hxs, (List.cons.inj hgap).2.symm⟩
    | cons b gap =>
      have hmem : a ∈ vs := by simp [(List.cons.inj hgap).2]
      exact absurd hmem hvs

/-- The flags of two keypads are equal just if the same keys are pending, in any order. -/
theorem Keypad.states_eq_iff (j k : Keypad) :
    j.states = k.states ↔ ∀ key, key ∈ j.pending ↔ key ∈ k.pending := by
  simp only [states, List.ofFn_inj, funext_iff, decide_eq_decide]

namespace Dump

/-- The heading of the memory. -/
def memoryHeading : String := "\tMemory :"

/-- What follows the heading of the memory never looks like it. -/
theorem memoryHeading_not_mem (bytes : List UInt8) :
    memoryHeading ∉ memoryRows bytes ++ ["\x7d"] := by
  rw [List.mem_append, List.mem_singleton]
  rintro (hrow | hend)
  · obtain ⟨row, -, htext⟩ := List.mem_map.mp hrow
    rw [Row.text_eq] at htext
    simpa [indent, memoryHeading] using congrArg String.toList htext
  · simpa [memoryHeading] using congrArg String.toList hend

end Dump

namespace Machine

/-- The sections of a dump between the name and the memory. -/
def sections (m : Machine) : List String :=
  m.snapshot.lines ++ "\tKeypad :" :: Dump.flagRows m.keypad.states

theorem length_sections (m : Machine) : m.sections.length = 17 := by
  rw [sections, List.length_append, List.length_cons, Snapshot.length_lines,
    Dump.length_flagRows, Keypad.states, List.length_ofFn]

theorem oneLine_sections (m : Machine) : ∀ line ∈ m.sections, OneLine line := by
  rw [sections, List.forall_mem_append, List.forall_mem_cons]
  exact ⟨m.snapshot.oneLine_lines, oneLine_of_not_mem (by simp),
    fun line hline => Dump.oneLine_of_mem_flagRows hline⟩

theorem sections_eq_iff (m k : Machine) :
    m.sections = k.sections ↔
      m.snapshot = k.snapshot ∧ ∀ key, key ∈ m.keypad.pending ↔ key ∈ k.keypad.pending := by
  rw [← Keypad.states_eq_iff]
  constructor
  · intro h
    obtain ⟨hlines, hkeypad⟩ := List.append_inj h
      (by rw [Snapshot.length_lines, Snapshot.length_lines])
    exact ⟨Snapshot.lines_injective hlines,
      Dump.flagRows_injective (List.cons.inj hkeypad).2⟩
  · rintro ⟨hsnapshot, hstates⟩
    rw [sections, sections, hsnapshot, hstates]

theorem text_eq (m : Machine) :
    m.text = "\n".intercalate
      (["Chipset \x7b", "\tProgram Name :"] ++ (Dump.indent ++ m.name) ::
        (m.sections ++ Dump.memoryHeading :: (Dump.memoryRows m.memory.toList ++ ["\x7d"]))) := by
  unfold text
  simp only [sections, List.append_assoc, List.cons_append, List.nil_append]
  rfl

/-- The text of a machine falls apart into the lines of the name and the other lines. -/
theorem lines_text (m : Machine) :
    lines m.text =
      ["Chipset \x7b", "\tProgram Name :"] ++ ((lines (Dump.indent ++ m.name) ++ m.sections) ++
        Dump.memoryHeading :: (Dump.memoryRows m.memory.toList ++ ["\x7d"])) := by
  have hstart : ∀ line ∈ ["Chipset \x7b", "\tProgram Name :"], OneLine line := by
    simp only [List.forall_mem_cons, List.not_mem_nil, false_implies, implies_true, and_true]
    exact ⟨oneLine_of_not_mem (by simp), oneLine_of_not_mem (by simp)⟩
  have hmemory : ∀ line ∈ Dump.memoryHeading :: (Dump.memoryRows m.memory.toList ++ ["\x7d"]),
      OneLine line := by
    rw [List.forall_mem_cons, List.forall_mem_append, List.forall_mem_singleton]
    exact ⟨oneLine_of_not_mem (by simp [Dump.memoryHeading]),
      fun line hline => Dump.oneLine_of_mem_memoryRows hline, oneLine_of_not_mem (by simp)⟩
  rw [text_eq, lines_intercalate (by simp), List.flatMap_append,
    flatMap_lines_of_oneLine hstart, List.flatMap_cons, List.flatMap_append,
    flatMap_lines_of_oneLine m.oneLine_sections, flatMap_lines_of_oneLine hmemory,
    List.append_assoc (lines _)]

/-- Equal texts have equal parts. -/
theorem parts_eq_of_text_eq {m k : Machine} (h : m.text = k.text) :
    m.name = k.name ∧ m.sections = k.sections ∧ m.memory = k.memory := by
  have hlines := congrArg lines h
  rw [lines_text, lines_text, List.append_cancel_left_eq] at hlines
  obtain ⟨hfront, hback⟩ := append_cons_inj_of_last (Dump.memoryHeading_not_mem _)
    (Dump.memoryHeading_not_mem _) hlines
  obtain ⟨hname, hsections⟩ := List.append_inj' hfront
    (by rw [length_sections, length_sections])
  have heven (m : Machine) : 2 ∣ m.memory.toList.length := by
    rw [Memory.toList, Vector.length_toList]
    decide
  have hbytes := Dump.memoryRows_inj (heven m) (heven k) (List.append_cancel_right hback)
  exact ⟨(String.append_right_inj _).mp (lines_injective hname), hsections,
    congrArg Memory.mk (Vector.toList_inj.mp hbytes)⟩

end Machine

/-- The dump of a machine is faithful: two machines have the same text just if they agree in all
that it shows. The name is an arbitrary text, the stack is shown with its depth, the keypad by
the set of pending keys, and the memory with all its bytes, whether rows are collapsed or not. -/
theorem machine_text_eq_iff (m k : Machine) :
    m.text = k.text ↔
      m.name = k.name ∧ m.opcode = k.opcode ∧ m.counter = k.counter ∧ m.index = k.index ∧
        m.delay.value = k.delay.value ∧ m.sound.value = k.sound.value ∧ m.stack = k.stack ∧
        m.registers = k.registers ∧
        (∀ key, key ∈ m.keypad.pending ↔ key ∈ k.keypad.pending) ∧ m.memory = k.memory := by
  have hsnapshot : m.snapshot = k.snapshot ↔
      m.opcode = k.opcode ∧ m.counter = k.counter ∧ m.index = k.index ∧
        m.registers = k.registers ∧ m.stack = k.stack ∧
        m.delay.value = k.delay.value ∧ m.sound.value = k.sound.value :=
    Snapshot.ext_iff
  constructor
  · intro h
    obtain ⟨hname, hsections, hmemory⟩ := Machine.parts_eq_of_text_eq h
    obtain ⟨hprocessor, hkeys⟩ := (Machine.sections_eq_iff m k).mp hsections
    obtain ⟨hopcode, hcounter, hindex, hregisters, hstack, hdelay, hsound⟩ :=
      hsnapshot.mp hprocessor
    exact ⟨hname, hopcode, hcounter, hindex, hdelay, hsound, hstack, hregisters, hkeys, hmemory⟩
  · rintro ⟨hname, hopcode, hcounter, hindex, hdelay, hsound, hstack, hregisters, hkeys, hmemory⟩
    have hprocessor : m.snapshot = k.snapshot :=
      hsnapshot.mpr ⟨hopcode, hcounter, hindex, hregisters, hstack, hdelay, hsound⟩
    have hsections : m.sections = k.sections :=
      (Machine.sections_eq_iff m k).mpr ⟨hprocessor, hkeys⟩
    rw [Machine.text_eq, Machine.text_eq, hname, hsections, hmemory]

end ChipEight
