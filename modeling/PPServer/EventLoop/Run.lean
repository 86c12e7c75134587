import PPServer.Library.Transition

/-!
# The loop of an event loop

`EventLoop::Run` on the loop thread, and what other threads do to it: `QueueInLoop` pushes a
task under `task_mutex_` and then writes to the eventfd, `RunAfter` and `RunEvery` store a
timer and then write to it, `Stop` clears `running_` and then writes to it.  Between these two
steps of a call anything can happen, so the state records the call each thread is in.

The loop thread makes such calls only from inside a callback or a task, or while it is not in
`Run`.  A callback is any sequence of its steps between the start and the end; the timers and
the callbacks of the other file descriptors have models of their own.
-/

namespace PPServer.EventLoop

/-- What `epoll_wait` reports: the eventfd, or another file descriptor. -/
inductive Event where
  | notification
  | io
  deriving DecidableEq, Repr

/-- How far the loop thread has come in `Run`. -/
inductive Point (Task : Type) where
  | outside
  /-- It has found `running_` unset and is about to set it. -/
  | entered
  /-- It is about to test `running_`. -/
  | head
  /-- It computes the timeout. -/
  | polling
  /-- It is in `epoll_wait`. -/
  | waiting
  /-- It has still to handle the rest of a batch of events. -/
  | dispatching (rest : List Event)
  /-- It is in the callback of a file descriptor. -/
  | inCallback (rest : List Event)
  /-- It is in `ProcessExpiredTimers` or in a callback called there. -/
  | timers
  /-- It is about to swap `pending_tasks_`. -/
  | swapping
  /-- It has still to run the rest of the tasks it has taken. -/
  | serving (rest : List Task)
  /-- It is in a task. -/
  | inTask (rest : List Task)
  deriving DecidableEq, Repr

/-- The code of a user of the loop may be running at this point of the loop thread. -/
def Point.Yields {Task : Type} : Point Task → Prop
  | outside | inCallback _ | timers | inTask _ => True
  | entered | head | polling | waiting | dispatching _ | swapping | serving _ => False

instance {Task : Type} (point : Point Task) : Decidable point.Yields := by
  cases point <;> simp only [Point.Yields] <;> infer_instance

/-- The call a thread is in, with only its write to the eventfd to come. -/
inductive Call where
  | none
  | queueInLoop
  | registerTimer
  | stop
  deriving DecidableEq, Repr

structure LoopState (Thread Task : Type) where
  running : Bool
  /-- the counter of `event_fd_` -/
  eventFd : Nat
  pendingTasks : List Task
  point : Point Task
  calls : Thread → Call

/-- The steps of the loop thread in `Run`. -/
inductive LoopAction (Task : Type) where
  | callRun
  | setRunning
  | testRunning
  | enterWait
  /-- `epoll_wait` returns these events, none of them on a timeout. -/
  | report (batch : List Event)
  /-- `epoll_wait` fails with `EINTR`. -/
  | interrupted
  /-- `epoll_wait` fails with another error. -/
  | failed
  | handleTaskNotification
  /-- `HandleIoEvent` calls a callback or finds none. -/
  | handleIoEvent
  /-- The callback returns or throws a `std::exception`. -/
  | finishCallback
  | finishEvents
  | finishTimers
  /-- The locked part of `ProcessPendingTasks`. -/
  | swapTasks
  | startTask (task : Task)
  /-- The task returns or throws a `std::exception`. -/
  | finishTask
  | finishTasks
  deriving DecidableEq, Repr

/-- The steps of the calls that end with `WakeUp`. -/
inductive ThreadAction (Task : Type) where
  | pushTask (task : Task)
  | registerTimer
  | clearRunning
  | wakeUp
  deriving DecidableEq, Repr

inductive RunAction (Thread Task : Type) where
  | loop (action : LoopAction Task)
  | thread (thread : Thread) (action : ThreadAction Task)
  deriving DecidableEq, Repr

/-- The greatest value of the counter of an eventfd. -/
def maxEventCount : Nat := 18446744073709551614

/-- The counter after `WakeUp`, whose write fails with `EAGAIN` at the greatest value. -/
def wakeUp (eventFd : Nat) : Nat := if eventFd < maxEventCount then eventFd + 1 else eventFd

theorem wakeUp_pos (eventFd : Nat) : 0 < wakeUp eventFd := by
  simp only [wakeUp]
  split
  next => exact Nat.succ_pos _
  next full => exact Nat.lt_of_lt_of_le (by decide) (Nat.le_of_not_lt full)

/-- The number of events that `Run` asks `epoll_wait` for. -/
def maxEvents : Nat := 64

/-- `epoll_wait` may report the batch: the eventfd is level-triggered. -/
def Reports (eventFd : Nat) (batch : List Event) : Prop :=
  batch.length ≤ maxEvents ∧ (0 < eventFd → .notification ∈ batch)

instance (eventFd : Nat) (batch : List Event) : Decidable (Reports eventFd batch) :=
  inferInstanceAs (Decidable (_ ∧ _))

namespace LoopState

variable {Thread Task : Type}

/-- `EventLoop::EventLoop`. -/
def new : LoopState Thread Task where
  running := false
  eventFd := 0
  pendingTasks := []
  point := .outside
  calls _ := .none

/-- One step of the loop thread in `Run`; `none` when it is not where it could make it. -/
def loopStep [DecidableEq Task] (loop : LoopState Thread Task) :
    LoopAction Task → Option (LoopState Thread Task)
  | .callRun =>
      match loop.point with
      | .outside => if loop.running then some loop else some { loop with point := .entered }
      | _ => none
  | .setRunning =>
      match loop.point with
      | .entered => some { loop with running := true, point := .head }
      | _ => none
  | .testRunning =>
      match loop.point with
      | .head =>
          if loop.running then some { loop with point := .polling }
          else some { loop with point := .outside }
      | _ => none
  | .enterWait =>
      match loop.point with
      | .polling => some { loop with point := .waiting }
      | _ => none
  | .report batch =>
      match loop.point with
      | .waiting =>
          if Reports loop.eventFd batch then some { loop with point := .dispatching batch }
          else none
      | _ => none
  | .interrupted =>
      match loop.point with
      | .waiting => some { loop with point := .dispatching [] }
      | _ => none
  | .failed =>
      match loop.point with
      | .waiting => some { loop with point := .head }
      | _ => none
  | .handleTaskNotification =>
      match loop.point with
      | .dispatching (.notification :: rest) =>
          some { loop with eventFd := 0, point := .dispatching rest }
      | _ => none
  | .handleIoEvent =>
      match loop.point with
      | .dispatching (.io :: rest) => some { loop with point := .inCallback rest }
      | _ => none
  | .finishCallback =>
      match loop.point with
      | .inCallback rest => some { loop with point := .dispatching rest }
      | _ => none
  | .finishEvents =>
      match loop.point with
      | .dispatching [] => some { loop with point := .timers }
      | _ => none
  | .finishTimers =>
      match loop.point with
      | .timers => some { loop with point := .swapping }
      | _ => none
  | .swapTasks =>
      match loop.point with
      | .swapping => some { loop with pendingTasks := [], point := .serving loop.pendingTasks }
      | _ => none
  | .startTask task =>
      match loop.point with
      | .serving (first :: rest) =>
          if first = task then some { loop with point := .inTask rest } else none
      | _ => none
  | .finishTask =>
      match loop.point with
      | .inTask rest => some { loop with point := .serving rest }
      | _ => none
  | .finishTasks =>
      match loop.point with
      | .serving [] => some { loop with point := .head }
      | _ => none

variable [DecidableEq Thread]

/-- The call a thread is in, changed. -/
def setCall (loop : LoopState Thread Task) (thread : Thread) (call : Call) :
    LoopState Thread Task :=
  { loop with calls := Function.update loop.calls thread call }

/-- One step of a call that ends with `WakeUp`. -/
def threadStep (loop : LoopState Thread Task) (thread : Thread) :
    ThreadAction Task → Option (LoopState Thread Task)
  | .pushTask task =>
      match loop.calls thread with
      | .none =>
          some ({ loop with pendingTasks := loop.pendingTasks ++ [task] }.setCall thread
            .queueInLoop)
      | _ => none
  | .registerTimer =>
      match loop.calls thread with
      | .none => some (loop.setCall thread .registerTimer)
      | _ => none
  | .clearRunning =>
      match loop.calls thread with
      | .none => some ({ loop with running := false }.setCall thread .stop)
      | _ => none
  | .wakeUp =>
      match loop.calls thread with
      | .none => none
      | _ => some ({ loop with eventFd := EventLoop.wakeUp loop.eventFd }.setCall thread .none)

variable [DecidableEq Task] (owner : Thread)

/-- One step of any thread.  The loop thread, `owner`, goes on in `Run` only when it is in no
call, and calls only where the code of a user may be running. -/
def step (loop : LoopState Thread Task) :
    RunAction Thread Task → Option (LoopState Thread Task)
  | .loop action => if loop.calls owner = .none then loop.loopStep action else none
  | .thread thread action =>
      if thread = owner → loop.point.Yields then loop.threadStep thread action else none

end LoopState

/-! ## What a step can do -/

namespace LoopState

variable {Thread Task : Type}

/-- The steps of the loop thread, each with the state it starts from and the one it makes. -/
inductive LoopStep (loop : LoopState Thread Task) :
    LoopAction Task → LoopState Thread Task → Prop where
  | alreadyRunning : loop.point = .outside → loop.running = true → LoopStep loop .callRun loop
  | callRun : loop.point = .outside → loop.running = false →
      LoopStep loop .callRun { loop with point := .entered }
  | setRunning : loop.point = .entered →
      LoopStep loop .setRunning { loop with running := true, point := .head }
  | goOn : loop.point = .head → loop.running = true →
      LoopStep loop .testRunning { loop with point := .polling }
  | leave : loop.point = .head → loop.running = false →
      LoopStep loop .testRunning { loop with point := .outside }
  | enterWait : loop.point = .polling → LoopStep loop .enterWait { loop with point := .waiting }
  | report {batch : List Event} : loop.point = .waiting → Reports loop.eventFd batch →
      LoopStep loop (.report batch) { loop with point := .dispatching batch }
  | interrupted : loop.point = .waiting →
      LoopStep loop .interrupted { loop with point := .dispatching [] }
  | failed : loop.point = .waiting → LoopStep loop .failed { loop with point := .head }
  | handleTaskNotification {rest : List Event} :
      loop.point = .dispatching (.notification :: rest) →
      LoopStep loop .handleTaskNotification
        { loop with eventFd := 0, point := .dispatching rest }
  | handleIoEvent {rest : List Event} : loop.point = .dispatching (.io :: rest) →
      LoopStep loop .handleIoEvent { loop with point := .inCallback rest }
  | finishCallback {rest : List Event} : loop.point = .inCallback rest →
      LoopStep loop .finishCallback { loop with point := .dispatching rest }
  | finishEvents : loop.point = .dispatching [] →
      LoopStep loop .finishEvents { loop with point := .timers }
  | finishTimers : loop.point = .timers →
      LoopStep loop .finishTimers { loop with point := .swapping }
  | swapTasks : loop.point = .swapping →
      LoopStep loop .swapTasks
        { loop with pendingTasks := [], point := .serving loop.pendingTasks }
  | startTask {task : Task} {rest : List Task} : loop.point = .serving (task :: rest) →
      LoopStep loop (.startTask task) { loop with point := .inTask rest }
  | finishTask {rest : List Task} : loop.point = .inTask rest →
      LoopStep loop .finishTask { loop with point := .serving rest }
  | finishTasks : loop.point = .serving [] →
      LoopStep loop .finishTasks { loop with point := .head }

theorem loopStep_iff [DecidableEq Task] {loop next : LoopState Thread Task}
    {action : LoopAction Task} :
    loop.loopStep action = some next ↔ LoopStep loop action next := by
  constructor
  · intro taken
    cases action with
    | callRun =>
        cases point : loop.point <;> simp only [loopStep, point, reduceCtorEq] at taken
        split at taken
        next running => exact Option.some.inj taken ▸ .alreadyRunning point running
        next stopped => exact Option.some.inj taken ▸ .callRun point (by simpa using stopped)
    | testRunning =>
        cases point : loop.point <;> simp only [loopStep, point, reduceCtorEq] at taken
        split at taken
        next running => exact Option.some.inj taken ▸ .goOn point running
        next stopped => exact Option.some.inj taken ▸ .leave point (by simpa using stopped)
    | report batch =>
        cases point : loop.point <;> simp only [loopStep, point, reduceCtorEq] at taken
        split at taken
        next reports => exact Option.some.inj taken ▸ .report point reports
        next => cases taken
    | setRunning =>
        cases point : loop.point <;> simp only [loopStep, point, reduceCtorEq] at taken
        exact Option.some.inj taken ▸ .setRunning point
    | enterWait =>
        cases point : loop.point <;> simp only [loopStep, point, reduceCtorEq] at taken
        exact Option.some.inj taken ▸ .enterWait point
    | interrupted =>
        cases point : loop.point <;> simp only [loopStep, point, reduceCtorEq] at taken
        exact Option.some.inj taken ▸ .interrupted point
    | failed =>
        cases point : loop.point <;> simp only [loopStep, point, reduceCtorEq] at taken
        exact Option.some.inj taken ▸ .failed point
    | finishCallback =>
        cases point : loop.point <;> simp only [loopStep, point, reduceCtorEq] at taken
        exact Option.some.inj taken ▸ .finishCallback point
    | finishTimers =>
        cases point : loop.point <;> simp only [loopStep, point, reduceCtorEq] at taken
        exact Option.some.inj taken ▸ .finishTimers point
    | swapTasks =>
        cases point : loop.point <;> simp only [loopStep, point, reduceCtorEq] at taken
        exact Option.some.inj taken ▸ .swapTasks point
    | finishTask =>
        cases point : loop.point <;> simp only [loopStep, point, reduceCtorEq] at taken
        exact Option.some.inj taken ▸ .finishTask point
    | handleTaskNotification =>
        simp only [loopStep] at taken
        split at taken
        next rest point => exact Option.some.inj taken ▸ .handleTaskNotification point
        next => cases taken
    | handleIoEvent =>
        simp only [loopStep] at taken
        split at taken
        next rest point => exact Option.some.inj taken ▸ .handleIoEvent point
        next => cases taken
    | finishEvents =>
        simp only [loopStep] at taken
        split at taken
        next point => exact Option.some.inj taken ▸ .finishEvents point
        next => cases taken
    | startTask task =>
        simp only [loopStep] at taken
        split at taken
        next first rest point =>
            split at taken
            next same =>
                subst same
                exact Option.some.inj taken ▸ .startTask point
            next => cases taken
        next => cases taken
    | finishTasks =>
        simp only [loopStep] at taken
        split at taken
        next point => exact Option.some.inj taken ▸ .finishTasks point
        next => cases taken
  · intro steps
    cases steps with
    | _ => simp [loopStep, *]

section Threads

variable [DecidableEq Thread]

@[simp] theorem setCall_calls_self (loop : LoopState Thread Task) (thread : Thread) (call : Call) :
    (loop.setCall thread call).calls thread = call :=
  Function.update_self ..

theorem setCall_calls_of_ne {thread other : Thread} (differs : other ≠ thread)
    (loop : LoopState Thread Task) (call : Call) :
    (loop.setCall thread call).calls other = loop.calls other :=
  Function.update_of_ne differs ..

/-- The steps of the calls that end with `WakeUp`. -/
inductive ThreadStep (loop : LoopState Thread Task) (thread : Thread) :
    ThreadAction Task → LoopState Thread Task → Prop where
  | pushTask {task : Task} : loop.calls thread = .none →
      ThreadStep loop thread (.pushTask task)
        ({ loop with pendingTasks := loop.pendingTasks ++ [task] }.setCall thread .queueInLoop)
  | registerTimer : loop.calls thread = .none →
      ThreadStep loop thread .registerTimer (loop.setCall thread .registerTimer)
  | clearRunning : loop.calls thread = .none →
      ThreadStep loop thread .clearRunning ({ loop with running := false }.setCall thread .stop)
  | wakeUp : loop.calls thread ≠ .none →
      ThreadStep loop thread .wakeUp
        ({ loop with eventFd := EventLoop.wakeUp loop.eventFd }.setCall thread .none)

variable {loop next : LoopState Thread Task} {thread owner : Thread}

theorem threadStep_iff {action : ThreadAction Task} :
    loop.threadStep thread action = some next ↔ ThreadStep loop thread action next := by
  constructor
  · intro taken
    cases action with
    | pushTask task =>
        cases call : loop.calls thread <;> simp only [threadStep, call, reduceCtorEq] at taken
        exact Option.some.inj taken ▸ .pushTask call
    | registerTimer =>
        cases call : loop.calls thread <;> simp only [threadStep, call, reduceCtorEq] at taken
        exact Option.some.inj taken ▸ .registerTimer call
    | clearRunning =>
        cases call : loop.calls thread <;> simp only [threadStep, call, reduceCtorEq] at taken
        exact Option.some.inj taken ▸ .clearRunning call
    | wakeUp =>
        simp only [threadStep] at taken
        split at taken
        next => cases taken
        next inCall => exact Option.some.inj taken ▸ .wakeUp inCall
  · intro steps
    cases steps with
    | pushTask idle | registerTimer idle | clearRunning idle => simp only [threadStep, idle]
    | wakeUp inCall => simp only [threadStep]

variable [DecidableEq Task]

theorem step_loop_iff {action : LoopAction Task} :
    step owner loop (.loop action) = some next ↔
      loop.calls owner = .none ∧ LoopStep loop action next := by
  rw [← loopStep_iff]
  simp [step]

theorem step_thread_iff {action : ThreadAction Task} :
    step owner loop (.thread thread action) = some next ↔
      (thread = owner → loop.point.Yields) ∧ ThreadStep loop thread action next := by
  rw [← threadStep_iff]
  simp only [step]
  split
  next allowed => exact (and_iff_right allowed).symm
  next excluded => exact iff_of_false (Option.some_ne_none next).symm fun both => excluded both.1

end Threads

end LoopState

end PPServer.EventLoop
