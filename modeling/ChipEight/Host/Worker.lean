import ChipEight.Log

/-!
Workers: a thread that calls back at an interval, and an owner that starts and stops it.

The owner, and every thread it ever spawned, take steps of their own and in any order; `step?`
says which steps are possible and what they do. To stop a thread the owner sends it a message,
gives up its end of the channel and waits for the thread to be over. A thread that waits for its
interval to pass looks at the channel first: a message or a lost owner ends it.

Whether a worker is alive is not asked of its threads. The owner has a mark, to which it holds one
reference and every thread another, from its spawn until it is over; the worker is alive while there
is more than one.

* `Thread.isLive`: a thread is live until it has ended or panicked.
* `Worker.references`, `Worker.isAlive`: the count of references, and what is read off it.
* `Worker.step?`: the steps of owner and threads.
* `Worker.run`: a sequence of steps, with what they report.
-/

namespace ChipEight

/-! ### Threads -/

/-- What a thread is doing. -/
inductive Phase where
  /-- It waits for its interval to pass. -/
  | waiting
  /-- The interval has passed, and the callback comes next. -/
  | due
  /-- It is inside the callback. -/
  | calling
  /-- It has left its loop. -/
  | ended
  /-- The callback has panicked. -/
  | panicked
deriving DecidableEq

/-- A worker thread. -/
structure Thread where
  /-- The time between two callbacks. -/
  interval : Nat
  /-- What the thread is doing. -/
  phase : Phase := .waiting
  /-- Whether a message to end lies in its channel. -/
  notified : Bool := false
  /-- Whether the owner still holds the other end of the channel. -/
  connected : Bool := true
  /-- How often the callback was called. -/
  calls : Nat := 0
deriving DecidableEq

namespace Thread

/-- A thread is live until it is over, one way or the other. -/
def isLive (t : Thread) : Bool :=
  match t.phase with
  | .ended => false
  | .panicked => false
  | _ => true

/-- A message reaches a thread only while it is live. -/
def notify (t : Thread) : Thread := if t.isLive then { t with notified := true } else t

/-- The owner gives up its end of the channel. -/
def disconnect (t : Thread) : Thread := { t with connected := false }

/-- The interval passes while nothing ends the wait. -/
def expire? (t : Thread) : Option Thread :=
  if t.phase = .waiting ∧ !t.notified ∧ t.connected then some { t with phase := .due } else none

/-- The callback begins. -/
def call? (t : Thread) : Option Thread :=
  if t.phase = .due then some { t with phase := .calling, calls := t.calls + 1 } else none

/-- The callback returns. -/
def finish? (t : Thread) : Option Thread :=
  if t.phase = .calling then some { t with phase := .waiting } else none

/-- The callback panics. -/
def panic? (t : Thread) : Option Thread :=
  if t.phase = .calling then some { t with phase := .panicked } else none

/-- The thread finds a message or a lost owner and leaves its loop. -/
def quit? (t : Thread) : Option Thread :=
  if t.phase = .waiting ∧ (t.notified ∨ !t.connected) then some { t with phase := .ended }
  else none

end Thread

/-! ### Owners and steps -/

/-- What the owner does once a thread has been stopped. -/
inductive Sequel where
  /-- Nothing. -/
  | rest
  /-- It spawns a thread with the given interval. -/
  | spawn (interval : Nat)
  /-- It ceases to be. -/
  | vanish
deriving DecidableEq

/-- What the owner of a worker is doing. -/
inductive Owner where
  /-- Nothing. -/
  | idle
  /-- It is about to send the message that ends the thread. -/
  | sending (sequel : Sequel)
  /-- It is about to give up its end of the channel. -/
  | leaving (sequel : Sequel)
  /-- It waits for the thread to be over. -/
  | joining (sequel : Sequel)
  /-- It is about to spawn a thread. -/
  | spawning (interval : Nat)
  /-- It is no more. -/
  | gone
deriving DecidableEq

/-- What the owner does after it has joined the thread. -/
def Sequel.owner : Sequel → Owner
  | rest => .idle
  | spawn interval => .spawning interval
  | vanish => .gone

/-- The references that the owner gives back after it has joined the thread: its own one, if it
ceases to be. -/
def Sequel.released : Sequel → Nat
  | vanish => 1
  | _ => 0

/-- A worker: its owner, every thread that was ever spawned for it, and the references to its
mark. -/
structure Worker where
  /-- The threads, the newest first. -/
  threads : List Thread := []
  /-- Whether the owner holds on to the newest thread. -/
  held : Bool := false
  /-- What the owner is doing. -/
  owner : Owner := .idle
  /-- How many references there are to the mark; the first one is that of the owner. -/
  references : Nat := 1
deriving DecidableEq

/-- A step of the owner or of the thread in a given place. -/
inductive Step where
  /-- The owner begins to start a thread, for which it first stops the one it holds. -/
  | start (interval : Nat)
  /-- The owner begins to stop its thread. -/
  | stop
  /-- The owner begins to end its own life, for which it stops its thread. -/
  | drop
  /-- The owner sends the message. -/
  | send
  /-- The owner gives up its end of the channel. -/
  | leave
  /-- The owner has waited for the thread to be over. -/
  | join
  /-- The owner spawns a thread. -/
  | spawn
  /-- The interval of a thread passes. -/
  | expire (place : Nat)
  /-- The callback of a thread begins. -/
  | call (place : Nat)
  /-- The callback of a thread returns. -/
  | finish (place : Nat)
  /-- The callback of a thread panics. -/
  | panic (place : Nat)
  /-- A thread leaves its loop. -/
  | quit (place : Nat)
deriving DecidableEq

namespace Worker

/-- A worker without a thread. -/
def new : Worker := {}

/-- Whether there is another reference to the mark than that of the owner. -/
def isAlive (w : Worker) : Bool := decide (1 < w.references)

/-- The thread the owner holds on to. -/
def current? (w : Worker) : Option Thread := if w.held then w.threads.head? else none

/-- Changes the thread the owner holds on to. -/
def mapCurrent (w : Worker) (change : Thread → Thread) : Worker :=
  match w.held, w.threads with
  | true, t :: rest => { w with threads := change t :: rest }
  | _, _ => w

/-- Lets the thread in a place take a step, if it can, and give back so many references. -/
def thread? (w : Worker) (place : Nat) (change : Thread → Option Thread) (released : Nat := 0) :
    Option Worker := do
  let t ← w.threads[place]?
  let t ← change t
  return { w with threads := w.threads.set place t, references := w.references - released }

/-- The owner begins to stop the thread it holds, if it is free to do so. -/
def begin? (w : Worker) (sequel : Sequel) : Option Worker :=
  if w.owner = .idle then some { w with owner := .sending sequel } else none

/-- The worker after a step; `none` if the step is not possible. -/
def step? (w : Worker) : Step → Option Worker
  | .start interval => w.begin? (.spawn interval)
  | .stop => w.begin? .rest
  | .drop => w.begin? .vanish
  | .send =>
    match w.owner with
    | .sending sequel => some { w.mapCurrent Thread.notify with owner := .leaving sequel }
    | _ => none
  | .leave =>
    match w.owner with
    | .leaving sequel => some { w.mapCurrent Thread.disconnect with owner := .joining sequel }
    | _ => none
  | .join =>
    match w.owner with
    | .joining sequel =>
      if w.current?.any Thread.isLive then none
      else
        some { w with
          held := false, owner := sequel.owner, references := w.references - sequel.released }
    | _ => none
  | .spawn =>
    match w.owner with
    | .spawning interval =>
      some
        { threads := { interval := interval } :: w.threads, held := true, owner := .idle
          references := w.references + 1 }
    | _ => none
  | .expire place => w.thread? place Thread.expire?
  | .call place => w.thread? place Thread.call?
  | .finish place => w.thread? place Thread.finish?
  | .panic place => w.thread? place Thread.panic? 1
  | .quit place => w.thread? place Thread.quit? 1

/-- What a step reports: the owner finds out about a panic when it joins the thread. -/
def report (w : Worker) : Step → List Log.Entry
  | .join => if w.current?.any (·.phase == .panicked) then [.workerPanicked] else []
  | _ => []

/-! ### Sequences of steps -/

/-- Takes the steps that are possible one after another, with what they report. -/
def run (w : Worker) : List Step → Worker × List Log.Entry
  | [] => (w, [])
  | step :: rest =>
    match w.step? step with
    | none => w.run rest
    | some next =>
      let (last, log) := next.run rest
      (last, w.report step ++ log)

/-- The steps with which the current thread gets from where it is to the end of its loop, once
it was told to end. -/
def wayOut (w : Worker) : List Step := (w.current?.map fun t =>
    match t.phase with
    | .waiting => [Step.quit 0]
    | .due => [Step.call 0, Step.finish 0, Step.quit 0]
    | .calling => [Step.finish 0, Step.quit 0]
    | .ended => []
    | .panicked => []).getD []

/-- The steps of a whole stop. -/
def stopping (w : Worker) : List Step := [.stop, .send, .leave] ++ w.wayOut ++ [.join]

/-- The steps of a whole start. -/
def starting (w : Worker) (interval : Nat) : List Step :=
  [.start interval, .send, .leave] ++ w.wayOut ++ [.join, .spawn]

/-- The steps of so many callbacks of the newest thread. -/
def calling (count : Nat) : List Step :=
  (List.replicate count [Step.expire 0, Step.call 0, Step.finish 0]).flatten

/-- The steps of a callback that panics. -/
def panicking : List Step := [.expire 0, .call 0, .panic 0]

/-- Whether no live thread calls back within some time, in the unit of the intervals. -/
def isQuietFor (w : Worker) (time : Nat) : Bool :=
  w.threads.all fun t => !t.isLive || decide (time < t.interval)

end Worker

end ChipEight
