import PPServer.EventLoop.Run
import PPServer.Library.Fifo

/-!
# Tasks run once and in order

The queue of tasks has two parts, the batch that `ProcessPendingTasks` has swapped out and
`pending_tasks_`, and tasks of the batch may push to the second.  A push goes behind both, a
task is started from the front of the batch, and the swap happens only when the batch is used
up, so the two parts together are a queue.
-/

namespace PPServer.EventLoop

open PPServer.Transition PPServer.Fifo

variable {Thread Task : Type}

/-- The tasks that have been swapped out and not started. -/
def Point.batch : Point Task → List Task
  | serving rest | inTask rest => rest
  | outside | entered | head | polling | waiting | dispatching _ | inCallback _ | timers
  | swapping => []

/-- The task that `QueueInLoop` pushes in this step. -/
def RunAction.pushed : RunAction Thread Task → List Task
  | .thread _ (.pushTask task) => [task]
  | _ => []

/-- The task that is called in this step. -/
def RunAction.started : RunAction Thread Task → List Task
  | .loop (.startTask task) => [task]
  | _ => []

namespace LoopState

variable {loop next : LoopState Thread Task}

/-- The tasks that have been pushed and not started. -/
def waitingTasks (loop : LoopState Thread Task) : List Task :=
  loop.point.batch ++ loop.pendingTasks

/-- Only the start of a task takes one from the queue; the swap moves tasks inside it. -/
theorem LoopStep.waitingTasks_eq {action : LoopAction Task} (steps : LoopStep loop action next) :
    (RunAction.loop action : RunAction Thread Task).started ++ next.waitingTasks =
      loop.waitingTasks := by
  cases steps with
  | alreadyRunning point running => simp [RunAction.started]
  | callRun point | setRunning point | goOn point | leave point | enterWait point
  | report point | interrupted point | failed point | handleTaskNotification point
  | handleIoEvent point | finishCallback point | finishEvents point | finishTimers point
  | swapTasks point | startTask point | finishTask point | finishTasks point =>
      simp [RunAction.started, waitingTasks, Point.batch, point]

variable [DecidableEq Thread] {thread owner : Thread}

/-- A push puts its task behind all others. -/
theorem ThreadStep.waitingTasks_eq {action : ThreadAction Task}
    (steps : ThreadStep loop thread action next) :
    next.waitingTasks = loop.waitingTasks ++ (RunAction.thread thread action).pushed := by
  cases steps with
  | pushTask idle => simp [waitingTasks, RunAction.pushed, setCall]
  | registerTimer idle | clearRunning idle | wakeUp inCall =>
      simp [waitingTasks, RunAction.pushed, setCall]

variable [DecidableEq Task] {labels : List (RunAction Thread Task)}

theorem keepsOrder_tasks :
    KeepsOrder (step owner) (fun _ => True) RunAction.pushed RunAction.started
      (@waitingTasks Thread Task) := by
  intro loop label next _ taken
  cases label with
  | loop action =>
      rw [(step_loop_iff.mp taken).2.waitingTasks_eq]
      exact (List.append_nil _).symm
  | thread thread action =>
      exact (step_thread_iff.mp taken).2.waitingTasks_eq

/-- **Tasks run once and in order.**  At every moment the tasks that have been started, the rest
of the batch and `pending_tasks_` are the tasks that have been pushed, in that order. -/
theorem tasks_in_order (ran : run (step owner) new labels = some loop) :
    labels.flatMap RunAction.started ++ loop.point.batch ++ loop.pendingTasks =
      labels.flatMap RunAction.pushed := by
  have inOrder := keepsOrder_tasks.run ran fun _ _ => trivial
  rw [waitingTasks, ← List.append_assoc] at inOrder
  exact inOrder

/-- Thread 1 pushes two tasks.  The first pushes a third while the second waits in the batch, and
thread 2 a fourth after it. -/
def pushesFromTask : List (RunAction Nat Nat) :=
  [.loop .callRun, .loop .setRunning, .loop .testRunning, .loop .enterWait,
    .thread 1 (.pushTask 7), .thread 1 .wakeUp, .thread 1 (.pushTask 8), .thread 1 .wakeUp,
    .loop (.report [.notification]), .loop .handleTaskNotification, .loop .finishEvents,
    .loop .finishTimers, .loop .swapTasks, .loop (.startTask 7), .thread 0 (.pushTask 9),
    .thread 0 .wakeUp, .thread 2 (.pushTask 10), .loop .finishTask]

theorem tasks_in_order_pushesFromTask :
    ∃ loop, run (step 0) new pushesFromTask = some loop ∧
      loop.point.batch = [8] ∧ loop.pendingTasks = [9, 10] ∧
      pushesFromTask.flatMap RunAction.started ++ loop.point.batch ++ loop.pendingTasks =
        pushesFromTask.flatMap RunAction.pushed :=
  ⟨_, rfl, rfl, rfl, tasks_in_order (rfl : run (step 0) new pushesFromTask = _)⟩

end LoopState

end PPServer.EventLoop
