import ChipEight.Host.Runner

/-!
A session: a runner that a worker drives, until it crashes or is stopped.

The session tells its worker when to start and to stop; in between the worker invokes the session
as often as it likes. After the first crash an invocation does nothing, so the crash that is kept
is the first one.
-/

namespace ChipEight

/-- What a session tells its worker. -/
inductive WorkerCommand where
  /-- To come into being. -/
  | create
  /-- To invoke the session again and again, with so many nanoseconds between. -/
  | start (interval : Nat)
  /-- To stop doing so. -/
  | stop
deriving DecidableEq

/-- A program that is run by a worker. -/
structure Session where
  /-- The runner. -/
  runner : Runner
  /-- The crash that ended the run, if one did. -/
  crash : Option Crash := none
  /-- The calls to the display so far, the newest first. -/
  calls : List DisplayCall := []
  /-- What the worker was told so far, the newest first. -/
  commands : List WorkerCommand
  /-- What was reported so far, the newest first. -/
  log : List Log.Entry

namespace Session

/-- Boots a program and has a worker started at the rate of the settings. -/
def launch (rom : Rom) (config : Config) (keyboard : Keyboard) (random : RandomSource) :
    Session where
  runner := ⟨.boot rom config random, keyboard⟩
  commands := [.start config.interval, .create]
  log := .started config.hertz :: (Machine.bootLog rom).reverse

/-- Notes what a tick came to. -/
def record (s : Session) (tick : Tick) : Session :=
  { s with
    runner := tick.runner
    calls := tick.call.toList ++ s.calls
    crash := match tick.result with
      | .ok _ => none
      | .error crash => some crash
    log := tick.report.reverse ++ s.log }

/-- One invocation by the worker: a tick, unless the session has crashed. -/
def invoke (s : Session) : Session :=
  match s.crash with
  | some _ => s
  | none => s.record s.runner.tick

/-- So many invocations in a row. -/
def invokes : Nat → Session → Session
  | 0, s => s
  | count + 1, s => invokes count s.invoke

/-- Invocations until the session has crashed, but no more than a limit. -/
def untilCrash : Nat → Session → Session
  | 0, s => s
  | limit + 1, s => if s.crash.isSome then s else untilCrash limit s.invoke

/-- Tells the worker to stop. -/
def stop (s : Session) : Session :=
  { s with commands := .stop :: s.commands, log := .stopped :: s.log }

/-- Whether the worker was started and not stopped since. -/
def isAlive (s : Session) : Bool :=
  match s.commands with
  | .start _ :: _ => true
  | _ => false

end Session

end ChipEight
