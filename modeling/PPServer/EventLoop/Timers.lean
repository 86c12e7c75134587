import PPServer.Library.Heap
import PPServer.Library.Transition

/-!
# The timers of an event loop

`EventLoop` keeps its timers in a vector that the heap algorithms order by expiration.
`RunAfter`, `RunEvery` and `CancelTimer` each do their work under `timer_mutex_`, so each is
one step, whichever thread makes it.  `ProcessExpiredTimers` gives up the lock before it calls
anything, so its steps are interleaved with the others, and the state records how far it has
come.  Only the loop thread runs it, and not from inside a callback, since `Run` returns at
once while the loop is running.

A callback is any sequence of steps between its start and its end.  What is not stored with
the timers (the wake-up after a registration, the callback itself) is left out.
-/

namespace PPServer.EventLoop

open PPServer.Heap

/-- `EventLoop::Timer`; its `id` stands for its callback. -/
structure Timer where
  id : UInt64
  /-- in milliseconds of the clock -/
  expiration : UInt64
  interval : UInt64
  repeated : Bool
  deriving DecidableEq, Repr

/-- `Timer::Compare`. -/
def Timer.compare (a b : Timer) : Bool := decide (a.expiration > b.expiration)

/-- The order of a heap under `Timer::Compare`, which puts the greatest element in front. -/
def Timer.Ordered (a b : Timer) : Prop := ¬a.compare b = true

theorem Timer.ordered_iff {a b : Timer} : a.Ordered b ↔ a.expiration ≤ b.expiration := by
  simp [Timer.Ordered, Timer.compare]

instance : DecidableRel Timer.Ordered := fun _ _ => inferInstanceAs (Decidable (¬_))

instance : Std.Total Timer.Ordered where
  total a b := by
    rw [Timer.ordered_iff, Timer.ordered_iff]
    exact UInt64.le_total _ _

instance : IsTrans Timer Timer.Ordered where
  trans a b c := by
    rw [Timer.ordered_iff, Timer.ordered_iff, Timer.ordered_iff]
    exact UInt64.le_trans

/-- How far the loop thread has come in `ProcessExpiredTimers`. -/
inductive Phase where
  /-- It does something else. -/
  | outside
  /-- It has read the clock and has not taken the lock. -/
  | entered (now : UInt64)
  /-- It has taken its batch, the rest of which it has still to serve. -/
  | serving (now : UInt64) (rest : List Timer)
  /-- It is in the callback of `timer`. -/
  | running (now : UInt64) (timer : Timer) (rest : List Timer)
  deriving DecidableEq, Repr

/-- The timers, the next timer id, and the loop thread's progress. -/
structure TimerState where
  timers : List Timer
  nextTimerId : UInt64
  phase : Phase
  deriving DecidableEq, Repr

namespace TimerState

/-- `EventLoop::EventLoop`. -/
def new : TimerState where
  timers := []
  nextTimerId := 1
  phase := .outside

section Operations

variable (heap : HeapAlgorithms Timer.Ordered)

/-- `timers_.push_back` and `std::push_heap`. -/
def pushTimer (timer : Timer) (loop : TimerState) : TimerState :=
  { loop with timers := heap.pushHeap (loop.timers ++ [timer]) }

/-- The part that `RunAfter` and `RunEvery` share: the next id goes to a timer that expires
`delay` after the clock, both taken modulo `2 ^ 64`. -/
def register (clock delay interval : UInt64) (repeated : Bool) (loop : TimerState) :
    UInt64 × TimerState :=
  let timer : Timer :=
    { id := loop.nextTimerId, expiration := clock + delay, interval, repeated }
  (timer.id, pushTimer heap timer { loop with nextTimerId := loop.nextTimerId + 1 })

/-- `EventLoop::RunAfter`. -/
def runAfter (clock delayMs : UInt64) (loop : TimerState) : UInt64 × TimerState :=
  loop.register heap clock delayMs 0 false

/-- `EventLoop::RunEvery`. -/
def runEvery (clock intervalMs : UInt64) (loop : TimerState) : UInt64 × TimerState :=
  loop.register heap clock intervalMs intervalMs true

/-- `EventLoop::CancelTimer`. -/
def cancelTimer (timerId : UInt64) (loop : TimerState) : TimerState :=
  match loop.timers.findIdx? fun timer => timer.id == timerId with
  | some index => { loop with timers := heap.makeHeap (loop.timers.eraseIdx index) }
  | none => loop

/-- The loop of `ProcessExpiredTimers` that takes the batch out of `timers_`; every pass
makes the vector shorter. -/
def popExpired (now : UInt64) : Nat → List Timer → List Timer → List Timer × List Timer
  | 0, expired, timers => (expired, timers)
  | _ + 1, expired, [] => (expired, [])
  | fuel + 1, expired, front :: rest =>
      if front.expiration ≤ now then
        popExpired now fuel (expired ++ [front]) (heap.popHeap (front :: rest)).dropLast
      else (expired, front :: rest)

/-- The locked part of `ProcessExpiredTimers`. -/
def takeExpired (now : UInt64) (loop : TimerState) : TimerState :=
  let (expired, timers) := popExpired heap now loop.timers.length [] loop.timers
  { loop with timers, phase := .serving now expired }

/-- What `ProcessExpiredTimers` does when a callback has returned or thrown a
`std::exception`: a repeated timer goes back with a new expiration. -/
def reinsert (now : UInt64) (timer : Timer) (loop : TimerState) : TimerState :=
  if timer.repeated then
    pushTimer heap { timer with expiration := now + timer.interval } loop
  else loop

end Operations

end TimerState

/-- The steps of the threads that use the timers, with what they pass, read and return. -/
inductive Action where
  | runAfter (clock delayMs returned : UInt64)
  | runEvery (clock intervalMs returned : UInt64)
  | cancelTimer (timerId : UInt64)
  /-- `ProcessExpiredTimers` is called and reads the clock. -/
  | enter (now : UInt64)
  | takeExpired
  | startCallback (timerId : UInt64)
  /-- The callback returns or throws a `std::exception`. -/
  | finishCallback
  /-- The callback throws something else, and the batch is dropped with the stack. -/
  | unwind
  /-- The whole batch has been served. -/
  | leave
  deriving DecidableEq, Repr

/-- The action gives out the timer id. -/
def Action.GivesOut (timerId : UInt64) : Action → Prop
  | .runAfter _ _ returned => returned = timerId
  | .runEvery _ _ returned => returned = timerId
  | _ => False

namespace TimerState

variable (heap : HeapAlgorithms Timer.Ordered)

/-- One step of a thread; `none` when the loop thread is not where it could make it, or when
a registration returns another id. -/
def step (loop : TimerState) : Action → Option TimerState
  | .runAfter clock delayMs returned =>
      let (timerId, next) := loop.runAfter heap clock delayMs
      if timerId = returned then some next else none
  | .runEvery clock intervalMs returned =>
      let (timerId, next) := loop.runEvery heap clock intervalMs
      if timerId = returned then some next else none
  | .cancelTimer timerId => some (loop.cancelTimer heap timerId)
  | .enter now =>
      match loop.phase with
      | .outside => some { loop with phase := .entered now }
      | _ => none
  | .takeExpired =>
      match loop.phase with
      | .entered now => some (loop.takeExpired heap now)
      | _ => none
  | .startCallback timerId =>
      match loop.phase with
      | .serving now (timer :: rest) =>
          if timer.id = timerId then some { loop with phase := .running now timer rest }
          else none
      | _ => none
  | .finishCallback =>
      match loop.phase with
      | .running now timer rest =>
          some { loop.reinsert heap now timer with phase := .serving now rest }
      | _ => none
  | .unwind =>
      match loop.phase with
      | .running _ _ _ => some { loop with phase := .outside }
      | _ => none
  | .leave =>
      match loop.phase with
      | .serving _ [] => some { loop with phase := .outside }
      | _ => none

end TimerState

end PPServer.EventLoop
