import ChipEight.Host.Session
import ChipEight.Host.Worker

/-!
The handle to a running program: a session together with the worker that drives it.

Every call that a thread of the worker begins is one invocation of the session. The owner of the
worker is whoever holds the handle, who can stop it and let go of it but not start it again; and an
invocation of a session does not panic.

* `Handle.launch`: what launching a program gives, the worker already started.
* `Handle.step?`: the steps of worker and session together.
-/

namespace ChipEight

/-- A session and its worker. -/
structure Handle where
  /-- The worker. -/
  worker : Worker
  /-- The session. -/
  session : Session

/-- Whether a step is one that the worker of a session takes once it was started. -/
def Step.isDriving : Step → Bool
  | .start _ => false
  | .panic _ => false
  | _ => true

namespace Handle

/-- Boots a program and starts a worker for it. -/
def launch (rom : Rom) (config : Config) (keyboard : Keyboard) (random : RandomSource) :
    Handle where
  worker := (Worker.new.run (Worker.new.starting config.interval)).1
  session := .launch rom config keyboard random

/-- The crash that ended the run, if one did. -/
def crash (h : Handle) : Option Crash := h.session.crash

/-- Whether the worker is alive. -/
def isAlive (h : Handle) : Bool := h.worker.isAlive

/-- The session after a step of the worker: a call invokes it, and it is stopped once the owner,
who has been asked for nothing but a stop, has joined the thread. -/
def sessionAfter (h : Handle) : Step → Session
  | .call _ => h.session.invoke
  | .join => if h.worker.owner = .joining .rest then h.session.stop else h.session
  | _ => h.session

/-- The handle after a step; `none` if the step is not possible. -/
def step? (h : Handle) (step : Step) : Option Handle :=
  if step.isDriving then (h.worker.step? step).map fun worker => ⟨worker, h.sessionAfter step⟩
  else none

end Handle

end ChipEight
