import ChipEight.Machine.Cycle

/-!
The runner: a machine together with the keyboard it is fed from and the display it drives.

A tick polls the keyboard once, presses what it answers, runs one cycle and calls the display at
most once.
-/

namespace ChipEight

/-- A keyboard by what it is going to answer. -/
structure Keyboard where
  /-- The key codes answered to each poll to come; further polls are answered by none. -/
  answers : List (List UInt8)
  /-- The number of polls so far. -/
  polls : Nat := 0

/-- Asks a keyboard for the keys pressed since the last poll. -/
def Keyboard.poll (k : Keyboard) : List UInt8 × Keyboard :=
  (k.answers.headD [], ⟨k.answers.tail, k.polls + 1⟩)

/-- What a display is told to do. -/
inductive DisplayCall where
  /-- To turn every pixel off. -/
  | clear
  /-- To show these pixels. -/
  | present (screen : Framebuffer)
deriving DecidableEq

/-- What a display is told after a cycle that ended with this screen. -/
def DisplayCall.of? (result : Except Crash Operation) (screen : Framebuffer) :
    Option DisplayCall :=
  match result with
  | .ok .clear => some .clear
  | .ok .draw => some (.present screen)
  | _ => none

/-- What a display shows once it has followed a call. -/
def DisplayCall.shown (call : DisplayCall) : Framebuffer :=
  match call with
  | .clear => .blank
  | .present screen => screen

/-- A machine with its keyboard. -/
structure Runner where
  /-- The machine. -/
  machine : Machine
  /-- The keyboard. -/
  keyboard : Keyboard

/-- What a tick of a runner comes to. -/
structure Tick where
  /-- The runner afterwards. -/
  runner : Runner
  /-- What the cycle asked of the host, or why it failed. -/
  result : Except Crash Operation
  /-- The call to the display, if there was one. -/
  call : Option DisplayCall
  /-- What was reported. -/
  log : List Log.Entry

/-- What is reported about a tick in all: a crash is reported once more by the host. -/
def Tick.report (tick : Tick) : List Log.Entry :=
  match tick.result with
  | .ok _ => tick.log
  | .error crash => tick.log ++ [.halted crash]

/-- Runs one tick. -/
def Runner.tick (r : Runner) : Tick :=
  let (codes, keyboard) := r.keyboard.poll
  let cycle := (r.machine.pressAll codes).cycle
  { runner := ⟨cycle.machine, keyboard⟩
    result := cycle.result
    call := DisplayCall.of? cycle.result cycle.machine.screen
    log := codes.flatMap Log.ofPress ++ cycle.log }

end ChipEight
