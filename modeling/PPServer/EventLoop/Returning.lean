import Mathlib.Algebra.BigOperators.Ring.List
import Mathlib.Algebra.Ring.Nat
import PPServer.EventLoop.Stopping
import PPServer.EventLoop.Tasks
import PPServer.Library.Variant

/-!
# Where the loop thread comes to rest

Once `running_` is unset the loop thread has only so much to do before it leaves `Run`: the events
of one batch, and the tasks that are queued by then.  It is not in `epoll_wait` for good meanwhile,
since the `Stop` that has unset the flag writes to the eventfd.  So the only place where the loop
thread waits for the outside, in `Run`, is `epoll_wait` with nothing to report and nothing queued.
Out of `Run` it is before the first call of it, or after a `Stop`.

Callbacks and tasks come to an end.
-/

namespace PPServer.EventLoop

open PPServer.Transition

variable {Thread Task : Type}

/-- At most so many steps are left of `Run` once `running_` is unset, besides those of the tasks
that are queued. -/
def Point.effort : Point Task → Nat
  | .outside => 0
  | .head => 1
  | .serving rest => 2 * rest.length + 2
  | .inTask rest => 2 * rest.length + 3
  | .swapping => 3
  | .timers => 4
  | .dispatching rest => 2 * rest.length + 5
  | .inCallback rest => 2 * rest.length + 6
  | .waiting => 2 * maxEvents + 6
  | .polling => 2 * maxEvents + 7
  | .entered => 0

/-- The loop thread is past its test of `running_`, and not out of `epoll_wait`. -/
def Point.Sleeps : Point Task → Prop
  | .polling | .waiting => True
  | .outside | .entered | .head | .dispatching _ | .inCallback _ | .timers | .swapping | .serving _
  | .inTask _ => False

namespace RunAction

/-- A step of the loop thread in `Run`. -/
def ofLoop : RunAction Thread Task → Bool
  | .loop _ => true
  | .thread _ _ => false

def pushes : RunAction Thread Task → Bool
  | .thread _ (.pushTask _) => true
  | .loop _ | .thread _ .registerTimer | .thread _ .clearRunning | .thread _ .wakeUp => false

end RunAction

namespace LoopState

/-- The step has to come in the end: it is neither a call from outside, nor a return of
`epoll_wait` with the eventfd clear or unseen. -/
def GoesOn (loop : LoopState Thread Task) : RunAction Thread Task → Prop
  | .loop (.report batch) => 0 < loop.eventFd ∧ .notification ∈ batch
  | .loop .callRun | .loop .interrupted | .loop .failed => False
  | .loop _ | .thread _ .wakeUp => True
  | .thread _ (.pushTask _) | .thread _ .registerTimer | .thread _ .clearRunning => False

variable {loop next last : LoopState Thread Task} {action : LoopAction Task}

def effort (loop : LoopState Thread Task) : Nat :=
  2 * loop.pendingTasks.length + loop.point.effort

/-- Every step takes the loop thread nearer to the end of `Run`. -/
theorem LoopStep.effort_lt (steps : LoopStep loop action next) (stopped : loop.Stopped)
    (other : action ≠ .callRun) : next.effort < loop.effort := by
  rcases stopped with ⟨notEntered, unset⟩
  cases steps with
  | alreadyRunning | callRun => exact absurd rfl other
  | setRunning point => exact absurd point notEntered
  | goOn _ running => cases unset.symm.trans running
  | report point reports =>
      have short := reports.1
      simp only [effort, point, Point.effort]
      omega
  | handleTaskNotification point | handleIoEvent point | startTask point =>
      simp only [effort, point, Point.effort, List.length_cons]
      omega
  | swapTasks point =>
      simp only [effort, point, Point.effort, List.length_nil]
      omega
  | leave point | enterWait point | interrupted point | failed point | finishCallback point
  | finishEvents point | finishTimers point | finishTask point | finishTasks point =>
      simp only [effort, point, Point.effort, List.length_nil]
      omega

variable [DecidableEq Thread] {thread owner : Thread}

theorem ThreadStep.effort_le {action : ThreadAction Task}
    (steps : ThreadStep loop thread action next) :
    next.effort ≤ loop.effort +
      2 * ((RunAction.thread thread action : RunAction Thread Task).pushes).toNat := by
  cases steps with
  | pushTask =>
      simp only [effort, setCall, RunAction.pushes, List.length_append, List.length_singleton,
        Bool.toNat_true]
      omega
  | registerTimer | clearRunning | wakeUp => exact Nat.le_add_right _ _

variable [DecidableEq Task] {labels : List (RunAction Thread Task)}

theorem spends_effort :
    Spends (step owner) (· ≠ .loop .callRun) (Stopped : LoopState Thread Task → Prop)
      (fun label => label.ofLoop.toNat) (fun label => 2 * label.pushes.toNat) effort := by
  intro loop label next notCall taken stopped
  cases label with
  | loop action =>
      have steps := (step_loop_iff.mp taken).2
      have less := steps.effort_lt stopped fun same => notCall (by rw [same])
      exact Nat.le_add_right_of_le less
  | thread thread action => exact (step_thread_iff.mp taken).2.effort_le

/-- Once `running_` is unset the loop thread has little left to do in `Run`. -/
theorem Stopped.steps_le (stopped : loop.Stopped) (ran : run (step owner) loop labels = some last)
    (notCalled : ∀ label ∈ labels, label ≠ .loop .callRun) :
    labels.countP RunAction.ofLoop ≤ loop.effort + 2 * labels.countP RunAction.pushes := by
  have spent := spends_effort.sum_le keeps_stopped ran notCalled stopped
  rw [sum_map_toNat, List.sum_map_mul_left, sum_map_toNat] at spent
  exact Nat.le_of_add_right_le spent

/-! ## Waiting for the eventfd -/

/-- A `Stop` that the loop thread may not see has written to the eventfd, or is about to. -/
def Told (loop : LoopState Thread Task) : Prop :=
  loop.running = false → loop.point.Sleeps → 0 < loop.eventFd ∨ ∃ thread, loop.calls thread = .stop

omit [DecidableEq Thread] [DecidableEq Task] in
theorem Told.loopStep (told : loop.Told) (steps : LoopStep loop action next) : next.Told := by
  cases steps with
  | alreadyRunning => exact told
  | goOn _ running => exact fun unset => by cases running.symm.trans unset
  | enterWait point => exact fun unset _ => told unset (by rw [point]; trivial)
  | _ => exact fun _ sleeps => sleeps.elim

omit [DecidableEq Task] in
theorem Told.threadStep {action : ThreadAction Task} (told : loop.Told)
    (steps : ThreadStep loop thread action next) : next.Told := by
  intro unset sleeps
  rw [steps.point] at sleeps
  cases steps with
  | clearRunning => exact .inr ⟨thread, setCall_calls_self ..⟩
  | wakeUp => exact .inl (wakeUp_pos _)
  | pushTask idle | registerTimer idle =>
      rcases told unset sleeps with set | ⟨stopper, stops⟩
      · exact .inl set
      · refine .inr ⟨stopper, (setCall_calls_of_ne ?_ ..).trans stops⟩
        intro same
        rw [same, idle] at stops
        cases stops

theorem keeps_told : Keeps (step owner) (fun _ => True) (@Told Thread Task) := by
  intro loop label next _ taken told
  cases label with
  | loop action => exact told.loopStep (step_loop_iff.mp taken).2
  | thread thread action => exact told.threadStep (step_thread_iff.mp taken).2

/-- A call can always go on. -/
theorem Ordered.calls_of_stuck (ordered : loop.Ordered owner)
    (stuck : Stuck (LoopState.step owner) loop.GoesOn loop) (thread : Thread) :
    loop.calls thread = .none := by
  by_contra inCall
  have yields : thread = owner → loop.point.Yields := by
    intro same
    by_contra inside
    exact inCall (same ▸ ordered.calls inside)
  have goesOn : LoopState.step owner loop (.thread thread .wakeUp) = some _ :=
    step_thread_iff.mpr ⟨yields, .wakeUp inCall⟩
  have hasToCome : loop.GoesOn (.thread thread .wakeUp) := trivial
  exact stuck.ne_some hasToCome goesOn

/-- The loop thread can go on but in `epoll_wait` or outside of `Run`. -/
theorem point_of_stuck (stuck : Stuck (step owner) loop.GoesOn loop)
    (idle : loop.calls owner = .none) :
    loop.point = .outside ∨ loop.point = .waiting ∧ loop.eventFd = 0 := by
  have goesOn {action : LoopAction Task} {next : LoopState Thread Task}
      (steps : LoopStep loop action next) :
      ¬loop.GoesOn (.loop action) := fun goes =>
    stuck.ne_some goes (step_loop_iff.mpr ⟨idle, steps⟩)
  cases point : loop.point with
  | outside => exact .inl rfl
  | waiting =>
      refine .inr ⟨rfl, Nat.eq_zero_of_not_pos fun set => ?_⟩
      have reports : Reports loop.eventFd [.notification] :=
        ⟨Nat.succ_le_succ (Nat.zero_le _), fun _ => List.mem_singleton_self _⟩
      exact goesOn (.report point reports) ⟨set, List.mem_singleton_self _⟩
  | entered => exact (goesOn (.setRunning point) trivial).elim
  | head =>
      cases running : loop.running with
      | true => exact (goesOn (.goOn point running) trivial).elim
      | false => exact (goesOn (.leave point running) trivial).elim
  | polling => exact (goesOn (.enterWait point) trivial).elim
  | dispatching rest =>
      cases rest with
      | nil => exact (goesOn (.finishEvents point) trivial).elim
      | cons event rest =>
          cases event with
          | notification => exact (goesOn (.handleTaskNotification point) trivial).elim
          | io => exact (goesOn (.handleIoEvent point) trivial).elim
  | inCallback rest => exact (goesOn (.finishCallback point) trivial).elim
  | timers => exact (goesOn (.finishTimers point) trivial).elim
  | swapping => exact (goesOn (.swapTasks point) trivial).elim
  | serving rest =>
      cases rest with
      | nil => exact (goesOn (.finishTasks point) trivial).elim
      | cons task rest => exact (goesOn (.startTask point) trivial).elim
  | inTask rest => exact (goesOn (.finishTask point) trivial).elim

/-- Nobody can go on, and the loop thread is out of `Run`, or waits there with nothing to do. -/
theorem point_of_run_stuck (ran : run (step owner) new labels = some loop)
    (stuck : Stuck (step owner) loop.GoesOn loop) :
    (∀ thread, loop.calls thread = .none) ∧
      (loop.point = .outside ∨
        loop.point = .waiting ∧ loop.running = true ∧ loop.eventFd = 0 ∧
          loop.pendingTasks = []) := by
  have ordered : loop.Ordered owner :=
    keeps_ordered.run ran (fun _ _ => trivial) ⟨fun _ => rfl, fun _ => rfl⟩
  have told : loop.Told := keeps_told.run ran (fun _ _ => trivial) fun _ sleeps => sleeps.elim
  have calls := ordered.calls_of_stuck stuck
  refine ⟨calls, (point_of_stuck stuck (calls owner)).imp_right fun ⟨point, clear⟩ => ?_⟩
  have quiet {call : Call} (isCall : call ≠ .none) :
      ¬(0 < loop.eventFd ∨ ∃ thread, loop.calls thread = call) := by
    rintro (set | ⟨thread, inCall⟩)
    · exact set.ne' clear
    · exact isCall ((calls thread).symm.trans inCall).symm
  have running : loop.running = true := by
    by_contra unset
    rw [Bool.not_eq_true] at unset
    exact quiet (by simp) (told unset (by rw [point]; trivial))
  have empty : loop.pendingTasks = [] := by
    by_contra pending
    exact quiet (by simp) ((awake_of_run ran).announced (by rw [point]; trivial) pending)
  exact ⟨point, running, clear, empty⟩

/-- Where the loop waits with nothing to do, nobody can go on. -/
theorem stuck_of_waiting (point : loop.point = .waiting) (clear : loop.eventFd = 0)
    (calls : ∀ thread, loop.calls thread = .none) :
    Stuck (step owner) loop.GoesOn loop := by
  intro label goesOn
  cases label with
  | loop action =>
      cases action with
      | report batch => exact absurd clear goesOn.1.ne'
      | callRun | interrupted | failed => exact goesOn.elim
      | _ => simp [step, loopStep, point]
  | thread thread action =>
      cases action with
      | wakeUp => simp [step, threadStep, calls thread]
      | pushTask | registerTimer | clearRunning => exact goesOn.elim

/-! ## Out of `Run` -/

/-- Out of `Run` the flag is unset. -/
theorem keeps_unset :
    Keeps (step owner) (fun _ => True)
      fun loop : LoopState Thread Task => loop.point = .outside → loop.running = false := by
  intro loop label next _ taken unset
  cases label with
  | loop action =>
      cases (step_loop_iff.mp taken).2 with
      | alreadyRunning => exact unset
      | leave _ stopped => exact fun _ => stopped
      | _ => simp
  | thread thread action =>
      have steps := (step_thread_iff.mp taken).2
      intro outside
      rcases steps.running with same | clears
      · exact same.trans (unset (steps.point ▸ outside))
      · exact clears.2

/-- The loop thread does not leave `Run` without a `Stop`. -/
theorem stops_of_outside (ran : run (step owner) new labels = some loop)
    (outside : loop.point = .outside) (called : .loop .callRun ∈ labels) :
    ∃ thread, .thread thread .clearRunning ∈ labels := by
  by_contra neverStopped
  have never : ∀ label ∈ labels, ¬Stops label := by
    intro label member stops
    cases label with
    | loop => exact stops
    | thread thread action =>
        cases action with
        | clearRunning => exact neverStopped ⟨thread, member⟩
        | pushTask | registerTimer | wakeUp => exact stops
  have unset : loop.running = false :=
    keeps_unset.run ran (fun _ _ => trivial) (fun _ => rfl) outside
  rcases (started_iff ran never).mpr called with entered | running
  · cases outside.symm.trans entered
  · cases unset.symm.trans running

/-! ## Where the threads come to rest -/

/-- **`Run` returns after a `Stop`** that does not come between its test of `running_` and its
store.  The loop thread takes no more steps in `Run` than are left of one round with the tasks that
are queued, and two for each task that is pushed meanwhile, however the threads are scheduled; and
where nobody can go on, it has left `Run`. -/
theorem returns_of_stop {before after : List (RunAction Thread Task)}
    (ran : run (step owner) new before = some loop)
    (stops : step owner loop (.thread thread .clearRunning) = some next)
    (notEntered : loop.point ≠ .entered) (ranAfter : run (step owner) next after = some last)
    (notCalled : ∀ label ∈ after, label ≠ .loop .callRun) :
    after.countP RunAction.ofLoop ≤ next.effort + 2 * after.countP RunAction.pushes ∧
      (Stuck (step owner) last.GoesOn last → last.point = .outside) := by
  have stopped := stopped_of_clearRunning stops notEntered
  refine ⟨stopped.steps_le ranAfter notCalled, fun stuck => ?_⟩
  have ranAll :
      run (step owner) new (before ++ .thread thread .clearRunning :: after) = some last :=
    run_append_iff.mpr ⟨loop, ran, run_cons_iff.mpr ⟨next, stops, ranAfter⟩⟩
  rcases (point_of_run_stuck ranAll stuck).2 with outside | ⟨-, running, -⟩
  · exact outside
  · have unset := (keeps_stopped.run ranAfter notCalled stopped).2
    cases unset.symm.trans running

/-- What is left of `Run` after a `Stop` in `epoll_wait`, with a task that is pushed meanwhile. -/
def leaves : List (RunAction Nat Nat) :=
  [.thread 2 (.pushTask 7), .thread 1 .wakeUp, .loop (.report [.notification]),
    .thread 2 .wakeUp, .loop .handleTaskNotification, .loop .finishEvents, .loop .finishTimers,
    .loop .swapTasks, .loop (.startTask 7), .loop .finishTask, .loop .finishTasks,
    .loop .testRunning]

theorem returns_of_stop_leaves :
    ∃ next last : LoopState Nat Nat,
      step 0 waitingLoop (.thread 1 .clearRunning) = some next ∧
      run (step 0) next leaves = some last ∧
      leaves.countP RunAction.ofLoop ≤ next.effort + 2 * leaves.countP RunAction.pushes ∧
      (Stuck (step 0) last.GoesOn last → last.point = .outside) := by
  have ran : run (step 0) new
      [.loop .callRun, .loop .setRunning, .loop .testRunning, .loop .enterWait] =
        some waitingLoop := rfl
  have leaves : ∃ next last : LoopState Nat Nat,
      step 0 waitingLoop (.thread 1 .clearRunning) = some next ∧
      run (step 0) next leaves = some last := ⟨_, _, rfl, rfl⟩
  rcases leaves with ⟨next, last, stops, ranAfter⟩
  exact ⟨next, last, stops, ranAfter,
    returns_of_stop ran stops (by decide) ranAfter (by decide)⟩

/-- After these steps no call has anything left to do.  The loop thread is out of `Run`, which has
not been called or has been stopped, or waits there with nothing to do; the tasks that have been
started are those that have been pushed, but for those that are still pending. -/
structure Rests (labels : List (RunAction Thread Task)) (loop : LoopState Thread Task) : Prop where
  calls : ∀ thread, loop.calls thread = .none
  point :
    loop.point = .outside ∧
        (.loop .callRun ∉ labels ∨ ∃ thread, .thread thread .clearRunning ∈ labels) ∨
      loop.point = .waiting ∧ loop.running = true ∧ loop.eventFd = 0 ∧ loop.pendingTasks = []
  tasks : labels.flatMap RunAction.started ++ loop.pendingTasks = labels.flatMap RunAction.pushed

/-- **Where the loop thread waits for good.**  If nobody can go on in a state that a run has come
to, all calls have returned, and the loop thread is out of `Run`, before the first call of it or
after a `Stop`, or in `epoll_wait` with the flag set and the eventfd clear.  Then all tasks that
have been pushed have been started, and out of `Run` all but the pending ones. -/
theorem rests_of_stuck (ran : run (step owner) new labels = some loop)
    (stuck : Stuck (step owner) loop.GoesOn loop) : Rests labels loop := by
  rcases point_of_run_stuck ran stuck with ⟨calls, point⟩
  refine ⟨calls, point.imp_left fun outside => ⟨outside, ?_⟩, ?_⟩
  · rw [← imp_iff_not_or]
    exact stops_of_outside ran outside
  · have inOrder := keepsOrder_tasks.run ran fun _ _ => trivial
    have batch : loop.point.batch = [] := by
      rcases point with outside | waits
      · rw [outside]
        rfl
      · rw [waits.1]
        rfl
    rwa [waitingTasks, batch, List.nil_append] at inOrder

/-- The loop waits again after it has run a task. -/
def runsTask : List (RunAction Nat Nat) :=
  [.loop .callRun, .loop .setRunning, .thread 1 (.pushTask 7), .loop .testRunning,
    .loop .enterWait, .thread 1 .wakeUp, .loop (.report [.notification]),
    .loop .handleTaskNotification, .loop .finishEvents, .loop .finishTimers, .loop .swapTasks,
    .loop (.startTask 7), .loop .finishTask, .loop .finishTasks, .loop .testRunning,
    .loop .enterWait]

theorem rests_of_stuck_runsTask :
    ∃ loop, run (step 0) new runsTask = some loop ∧ loop.point = .waiting ∧
      Rests runsTask loop := by
  have waits : ∃ loop, run (step 0) new runsTask = some loop ∧ loop.point = .waiting ∧
      loop.eventFd = 0 ∧ ∀ thread, loop.calls thread = .none := by
    refine ⟨_, rfl, rfl, rfl, fun thread => ?_⟩
    simp only [setCall, Function.update_idem]
    exact congrFun (Function.update_eq_self 1 fun _ => Call.none) thread
  rcases waits with ⟨loop, ran, waits, clear, calls⟩
  exact ⟨loop, ran, waits, rests_of_stuck ran (stuck_of_waiting waits clear calls)⟩

end LoopState

end PPServer.EventLoop
