import Mathlib.Data.List.DropRight
import Mathlib.Tactic
import ChipEight.Proofs.InPlace.Calls
import ChipEight.Proofs.Screen.Stamps
import ChipEight.Proofs.Text.Reading

/-!
The framebuffer as a torus of parities.

Where on the torus a call has its effect depends on the remainders of its coordinates alone, and
what a pixel is depends only on how many calls have turned it over: each bit that was set and
combined with it does, and clearing starts anew.

* `Call`, `answer`: what can be done to a framebuffer, and what it answers.
* `turns`: the number of calls that have turned a pixel over since the last clearing.
  `turns_concat_combine` and `turns_concat_clear` say what one more call makes of it.
* `Shows`, `Shows.answer`: a pixel is on exactly if that number is odd, and every call keeps it so.
* `Shows.count_eq`: the pixels that are on are counted as those with an odd number.
* `lines_text`, `text_eq_iff`: the text has each pixel in its place, so it tells framebuffers apart.
* `framebuffer_is_torus_of_parities`: all of it, after any calls to a new framebuffer.
-/

namespace ChipEight

open Finset Text

namespace Framebuffer

/-! ### Calls -/

/-- What can be done to a framebuffer. -/
inductive Call where
  /-- To combine the pixel at the wrapped coordinates with a bit. -/
  | combine (x y : ℕ) (bit : Bool)
  /-- To turn every pixel off. -/
  | clear
deriving DecidableEq

/-- What a framebuffer answers to a call, and the framebuffer afterwards. Combining a pixel tells
what it was before. -/
def answer (f : Framebuffer) : Call → Option Bool × Framebuffer
  | .combine x y bit => (some (f.lit x y), f.flip x y bit)
  | .clear => (none, blank)

/-- Whether a call turns over the pixel at the wrapped coordinates. -/
def Call.turns (x y : ℕ) : Call → Bool
  | combine u v bit => bit && decide (u % 64 = x % 64 ∧ v % 32 = y % 32)
  | clear => false

/-- How many calls have turned over the pixel at the wrapped coordinates since the last one that
cleared the framebuffer. -/
def turns (calls : List Call) (x y : ℕ) : ℕ :=
  (calls.rtakeWhile (· != .clear)).countP (Call.turns x y)

variable {f g : Framebuffer} {calls : List Call}

lemma turns_concat_combine (calls : List Call) (u v : ℕ) (bit : Bool) (x y : ℕ) :
    turns (calls ++ [.combine u v bit]) x y =
      turns calls x y + if Call.turns x y (.combine u v bit) then 1 else 0 := by
  rw [turns, List.rtakeWhile_concat_pos _ _ _ (by simp), List.countP_append, List.countP_singleton,
    turns]

@[simp] lemma turns_concat_clear (calls : List Call) (x y : ℕ) :
    turns (calls ++ [.clear]) x y = 0 := by
  rw [turns, List.rtakeWhile_concat_neg _ _ _ (by simp), List.countP_nil]

/-! ### Pixels -/

/-- A framebuffer shows what calls have come to: the pixels are on that they have turned over an odd
number of times. -/
def Shows (calls : List Call) (f : Framebuffer) : Prop :=
  ∀ x y, f.lit x y = decide (Odd (turns calls x y))

/-- What is asked of an answer: combining a pixel tells whether it had been turned over an odd
number of times, and clearing tells nothing. -/
def Asks (before : List Call) : Call → Option Bool → Prop
  | .combine x y _, reply => reply = some (decide (Odd (turns before x y)))
  | .clear, reply => reply = none

/-- A new framebuffer shows that nothing was done to it. -/
lemma shows_blank : Shows [] blank := fun x y => by simp [turns]

/-- Every call keeps it so. -/
lemma Shows.answer (h : Shows calls f) (c : Call) :
    Asks calls c (f.answer c).1 ∧ Shows (calls ++ [c]) (f.answer c).2 := by
  cases c with
  | combine u v bit =>
      refine ⟨congrArg some (h u v), fun x y => ?_⟩
      show (f.flip u v bit).lit x y = _
      rw [lit_flip, turns_concat_combine, h x y, Call.turns]
      by_cases hplace : u % 64 = x % 64 ∧ v % 32 = y % 32
      · rw [if_pos hplace, decide_eq_true hplace, Bool.and_true]
        cases bit with
        | false => simp
        | true => simp only [Bool.xor_true, if_true, Nat.odd_add_one, decide_not]
      · rw [if_neg hplace, decide_eq_false hplace, Bool.and_false]
        simp
  | clear =>
      refine ⟨rfl, fun x y => ?_⟩
      rw [turns_concat_clear]
      exact lit_blank x y

/-- A pixel is counted if it was turned over an odd number of times. -/
lemma Shows.count_eq (h : Shows calls f) :
    f.count = #{p : Pixel | Odd (turns calls p.1 p.2)} := by
  rw [count_eq_card]
  refine congrArg card (filter_congr fun p _ => ?_)
  rw [isOn, h, decide_eq_true_eq]

/-! ### Text -/

lemma oneLine_rowText (row : List Bool) : OneLine (rowText row) := by
  refine oneLine_of_not_mem fun hfeed => ?_
  rw [rowText, String.toList_ofList, List.mem_map] at hfeed
  obtain ⟨pixel, -, hpixel⟩ := hfeed
  cases pixel <;> simp at hpixel

/-- The text has a line for every row, and in it a character for every pixel. -/
theorem lines_text (f : Framebuffer) :
    (lines f.text).map String.toList = (List.range 32).map fun y =>
      (List.range 64).map fun x => if f.lit x y then '#' else '.' := by
  have hrows : f.rows.map rowText ≠ [] := by simp [rows]
  have hlines : ∀ line ∈ f.rows.map rowText, OneLine line := by
    intro line hline
    obtain ⟨row, -, rfl⟩ := List.mem_map.mp hline
    exact oneLine_rowText row
  rw [text, lines_intercalate hrows, flatMap_lines_of_oneLine hlines, rows, List.map_map,
    List.map_map]
  refine List.map_congr_left fun y _ => ?_
  simp only [Function.comp_apply, rowText, String.toList_ofList, List.map_map]
  rfl

/-- No two framebuffers have the same text. -/
theorem text_eq_iff : f.text = g.text ↔ f = g := by
  refine ⟨fun h => ext_isOn fun p => ?_, fun h => by rw [h]⟩
  have hlines := f.lines_text.symm.trans ((congrArg (fun s => (lines s).map String.toList) h).trans
    g.lines_text)
  have hrow := List.map_inj_left.mp hlines p.2 (List.mem_range.mpr p.2.isLt)
  have hchar := List.map_inj_left.mp hrow p.1 (List.mem_range.mpr p.1.isLt)
  rw [isOn, isOn]
  cases hf : f.lit p.1 p.2 <;> cases hg : g.lit p.1 p.2 <;> simp [hf, hg] at hchar ⊢

end Framebuffer

/-- The framebuffer is a torus of parities. After any calls to a new one, the pixel at any
coordinates is on exactly if the number of set bits that were combined, since the last clearing, at
coordinates with the same remainders modulo 64 and 32 is odd, and so it was before every call that
combined it, which is what that call has answered. As many pixels are counted as there are places
with an odd number. The text has 32 lines of 64 characters, a hash in the places with an odd number
and a dot in the others, and framebuffers have the same text exactly if they are equal. -/
theorem framebuffer_is_torus_of_parities (calls : List Framebuffer.Call) :
    let f := (Calls.run Framebuffer.answer .blank calls).2
    (∀ x y, f.lit x y = true ↔ Odd (Framebuffer.turns calls x y)) ∧
      Calls.Answered Framebuffer.Asks calls (Calls.run Framebuffer.answer .blank calls).1 ∧
      f.count = #{p : Pixel | Odd (Framebuffer.turns calls p.1 p.2)} ∧
      ((lines f.text).map String.toList = (List.range 32).map fun y =>
        (List.range 64).map fun x => if Odd (Framebuffer.turns calls x y) then '#' else '.') ∧
      ∀ g h : Framebuffer, g.text = h.text ↔ g = h := by
  intro f
  obtain ⟨hshows, hanswered⟩ :
      Framebuffer.Shows calls f ∧ Calls.Answered Framebuffer.Asks calls _ :=
    Calls.run_of_history (fun before c f _ h => h.answer c) Framebuffer.shows_blank
  refine ⟨fun x y => ?_, hanswered, hshows.count_eq, ?_, fun g h => Framebuffer.text_eq_iff⟩
  · rw [hshows, decide_eq_true_eq]
  · rw [f.lines_text]
    simp only [hshows _ _, decide_eq_true_eq]

end ChipEight
