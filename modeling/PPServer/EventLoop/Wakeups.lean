import PPServer.EventLoop.Run

/-!
# No wake-up is lost

The loop thread clears the eventfd in one step and takes the queue in a later one, and other
threads push and write in between.  What holds throughout: queued tasks are announced, unless
the loop thread is on its way to the swap, which takes them anyway.
-/

namespace PPServer.EventLoop

open PPServer.Transition

variable {Thread Task : Type}

namespace Point

/-- The loop thread swaps `pending_tasks_` before it comes to `epoll_wait` again. -/
def WillSwap : Point Task → Prop
  | dispatching _ | inCallback _ | timers | swapping => True
  | outside | entered | head | polling | waiting | serving _ | inTask _ => False

/-- The loop thread is in `epoll_wait`, or next but for a test of `running_`. -/
def Blocks : Point Task → Prop
  | head | polling | waiting => True
  | outside | entered | dispatching _ | inCallback _ | timers | swapping | serving _
  | inTask _ => False

theorem Blocks.not_willSwap {point : Point Task} (blocks : point.Blocks) : ¬point.WillSwap := by
  cases point <;> simp_all [Blocks, WillSwap]

end Point

namespace LoopState

variable {loop next : LoopState Thread Task}

/-- Queued tasks have set the eventfd, or a thread that has queued one is about to. -/
def Announced (loop : LoopState Thread Task) : Prop :=
  loop.pendingTasks ≠ [] → 0 < loop.eventFd ∨ ∃ thread, loop.calls thread = .queueInLoop

/-- The invariant of the loop. -/
def Awake (loop : LoopState Thread Task) : Prop := loop.point.WillSwap ∨ loop.Announced

theorem awake_new : (new : LoopState Thread Task).Awake := .inr fun pending => absurd rfl pending

/-- A step of the loop thread keeps the announcement, or is before the swap. -/
theorem Awake.loopStep {action : LoopAction Task} (awake : loop.Awake)
    (steps : LoopStep loop action next) : next.Awake := by
  cases steps with
  | alreadyRunning point running => exact awake
  | report point reports | interrupted point => exact .inl trivial
  | handleTaskNotification point | handleIoEvent point | finishCallback point =>
      exact .inl trivial
  | finishEvents point | finishTimers point => exact .inl trivial
  | swapTasks point => exact .inr fun pending => absurd rfl pending
  | callRun point | setRunning point | goOn point | leave point | enterWait point
  | failed point | startTask point | finishTask point | finishTasks point =>
      -- Neither the queue nor the eventfd changes, and the swap was not ahead before.
      rcases awake with willSwap | announced
      · rw [point] at willSwap
        cases willSwap
      · exact .inr announced

variable [DecidableEq Thread] {thread owner : Thread}

/-- A push is announced by the call it is part of, and its write sets the eventfd. -/
theorem Awake.threadStep {action : ThreadAction Task} (awake : loop.Awake)
    (steps : ThreadStep loop thread action next) : next.Awake := by
  rcases awake with willSwap | announced
  · cases steps <;> exact .inl willSwap
  · apply Or.inr
    cases steps with
    | pushTask idle => exact fun _ => .inr ⟨thread, setCall_calls_self ..⟩
    | wakeUp inCall => exact fun _ => .inl (wakeUp_pos _)
    | registerTimer idle | clearRunning idle =>
        intro pending
        rcases announced pending with set | announces
        · exact .inl set
        · rcases announces with ⟨other, queues⟩
          refine .inr ⟨other, (setCall_calls_of_ne ?_ ..).trans queues⟩
          intro same
          rw [same, idle] at queues
          cases queues

variable [DecidableEq Task] {labels : List (RunAction Thread Task)}

theorem keeps_awake : Keeps (step owner) (fun _ => True) (@Awake Thread Task) := by
  intro loop label next _ taken awake
  cases label with
  | loop action => exact awake.loopStep (step_loop_iff.mp taken).2
  | thread thread action => exact awake.threadStep (step_thread_iff.mp taken).2

theorem awake_of_run (ran : run (step owner) new labels = some loop) : loop.Awake :=
  keeps_awake.run ran (fun _ _ => trivial) awake_new

omit [DecidableEq Thread] [DecidableEq Task] in
theorem Awake.announced (awake : loop.Awake) (blocks : loop.point.Blocks) : loop.Announced := by
  rcases awake with willSwap | announced
  · exact absurd willSwap blocks.not_willSwap
  · exact announced

/-- **No lost wake-up.**  Whenever the loop thread is in `epoll_wait` or about to enter it,
tasks that are queued have set the eventfd, or a thread has still to write to it for the task
it has pushed. -/
theorem announced_of_blocks (ran : run (step owner) new labels = some loop)
    (blocks : loop.point.Blocks) (pending : loop.pendingTasks ≠ []) :
    0 < loop.eventFd ∨ ∃ thread, loop.calls thread = .queueInLoop :=
  (awake_of_run ran).announced blocks pending

/-- Thread 1 pushes a task before the eventfd is read and one after the swap. -/
def pushesAroundSwap : List (RunAction Nat Nat) :=
  [.loop .callRun, .loop .setRunning, .loop .testRunning, .loop .enterWait,
    .thread 1 (.pushTask 7), .thread 1 .wakeUp, .loop (.report [.notification]),
    .loop .handleTaskNotification, .loop .finishEvents, .loop .finishTimers, .loop .swapTasks,
    .thread 1 (.pushTask 8), .loop (.startTask 7), .loop .finishTask, .loop .finishTasks,
    .loop .testRunning, .loop .enterWait]

theorem announced_of_blocks_pushesAroundSwap :
    ∃ loop, run (step 0) new pushesAroundSwap = some loop ∧
      (0 < loop.eventFd ∨ ∃ thread, loop.calls thread = .queueInLoop) :=
  ⟨_, rfl, announced_of_blocks (rfl : run (step 0) new pushesAroundSwap = _) trivial
    (List.cons_ne_nil 8 [])⟩

end LoopState

end PPServer.EventLoop
