import PPServer.EventLoop.Wakeups

/-!
# When `Stop` is lost

`Run` tests `running_` and sets it in two steps.  A `Stop` that clears it before the second of
them has no effect: the loop starts all the same, and once it has read the eventfd nothing is
left of the `Stop`.
-/

namespace PPServer.EventLoop.LoopState

open PPServer.Transition

variable {Thread Task : Type}

/-- `Run` is past its first test: it is about to set `running_`, or `running_` is set. -/
def Started (loop : LoopState Thread Task) : Prop :=
  loop.point = .entered ∨ loop.running = true

/-- The loop cannot come to run again without another call of `Run`. -/
def Stopped (loop : LoopState Thread Task) : Prop :=
  loop.point ≠ .entered ∧ loop.running = false

/-- `Run` has not been called. -/
def Untouched (loop : LoopState Thread Task) : Prop :=
  loop.point = .outside ∧ loop.running = false

/-- What holds in every state: `running_` is unset when `Run` is about to set it, and the loop
thread is in no call while it is in code of `Run` itself. -/
structure Ordered (owner : Thread) (loop : LoopState Thread Task) : Prop where
  entered : loop.point = .entered → loop.running = false
  calls : ¬loop.point.Yields → loop.calls owner = .none

variable {loop next last : LoopState Thread Task} {action : LoopAction Task}

theorem Started.loopStep (started : loop.Started) (steps : LoopStep loop action next) :
    next.Started := by
  cases steps with
  | setRunning point => exact .inr rfl
  | alreadyRunning point running => exact started
  | callRun point stopped => exact .inl rfl
  | _ point =>
      rcases started with entered | running
      · simp [entered] at point
      · exact .inr running

theorem Stopped.loopStep (stopped : loop.Stopped) (steps : LoopStep loop action next)
    (other : action ≠ .callRun) : next.Stopped := by
  rcases stopped with ⟨notEntered, unset⟩
  cases steps with
  | setRunning point => exact absurd point notEntered
  | alreadyRunning _ _ | callRun _ _ => exact absurd rfl other
  | _ => exact ⟨by simp, unset⟩

/-- Outside `Run` the only step of it is to call it. -/
theorem LoopStep.of_outside (steps : LoopStep loop action next) (outside : loop.point = .outside) :
    action = .callRun := by
  cases steps with
  | callRun _ _ | alreadyRunning _ _ => rfl
  | _ point => simp [outside] at point

variable [DecidableEq Thread] {thread owner stopper : Thread}

theorem ThreadStep.point {action : ThreadAction Task} (steps : ThreadStep loop thread action next) :
    next.point = loop.point := by
  cases steps <;> rfl

theorem ThreadStep.running {action : ThreadAction Task}
    (steps : ThreadStep loop thread action next) :
    next.running = loop.running ∨ action = .clearRunning ∧ next.running = false := by
  cases steps with
  | clearRunning idle => exact .inr ⟨rfl, rfl⟩
  | pushTask idle | registerTimer idle | wakeUp inCall => exact .inl rfl

theorem ThreadStep.calls {action : ThreadAction Task} {other : Thread}
    (steps : ThreadStep loop thread action next) (differs : other ≠ thread) :
    next.calls other = loop.calls other := by
  cases steps <;> exact setCall_calls_of_ne differs ..

/-! ## What runs keep -/

variable [DecidableEq Task] {before : List (RunAction Thread Task)}

/-- The action is the first step of a `Stop`. -/
def Stops : RunAction Thread Task → Prop
  | .thread _ .clearRunning => True
  | _ => False

theorem keeps_started :
    Keeps (step owner) (fun label => ¬Stops label) (@Started Thread Task) := by
  intro loop label next notStop taken started
  cases label with
  | loop action => exact started.loopStep (step_loop_iff.mp taken).2
  | thread thread action =>
      have steps := (step_thread_iff.mp taken).2
      rcases steps.running with same | clears
      · simpa only [Started, steps.point, same] using started
      · rw [clears.1] at notStop
        exact absurd trivial notStop

theorem keeps_stopped :
    Keeps (step owner) (· ≠ .loop .callRun) (@Stopped Thread Task) := by
  intro loop label next notCall taken stopped
  cases label with
  | loop action =>
      exact stopped.loopStep (step_loop_iff.mp taken).2 fun same => notCall (by rw [same])
  | thread thread action =>
      have steps := (step_thread_iff.mp taken).2
      refine ⟨steps.point ▸ stopped.1, ?_⟩
      rcases steps.running with same | clears
      · exact same.trans stopped.2
      · exact clears.2

theorem stopped_of_clearRunning
    (clears : step owner loop (.thread thread .clearRunning) = some next)
    (notEntered : loop.point ≠ .entered) : next.Stopped := by
  cases (step_thread_iff.mp clears).2 with
  | clearRunning => exact ⟨notEntered, rfl⟩

theorem keeps_untouched :
    Keeps (step owner) (· ≠ .loop .callRun) (@Untouched Thread Task) := by
  intro loop label next notCall taken untouched
  cases label with
  | loop action =>
      exact absurd (congrArg _ ((step_loop_iff.mp taken).2.of_outside untouched.1)) notCall
  | thread thread action =>
      have steps := (step_thread_iff.mp taken).2
      refine ⟨steps.point.trans untouched.1, ?_⟩
      rcases steps.running with same | clears
      · exact same.trans untouched.2
      · exact clears.2

theorem keeps_ordered :
    Keeps (step owner) (fun _ => True) (@Ordered Thread Task owner) := by
  intro loop label next _ taken ordered
  cases label with
  | loop action =>
      rcases step_loop_iff.mp taken with ⟨idle, steps⟩
      have nextIdle : next.calls owner = .none := by
        cases steps <;> exact idle
      refine ⟨?_, fun _ => nextIdle⟩
      cases steps with
      | callRun point stopped => exact fun _ => stopped
      | alreadyRunning point running => exact ordered.entered
      | _ => simp
  | thread thread action =>
      rcases step_thread_iff.mp taken with ⟨allowed, steps⟩
      constructor
      · intro entered
        rw [steps.point] at entered
        rcases steps.running with same | clears
        · exact same.trans (ordered.entered entered)
        · exact clears.2
      · intro inside
        rw [steps.point] at inside
        have differs : owner ≠ thread := fun same => inside (allowed same.symm)
        exact (steps.calls differs).trans (ordered.calls inside)

/-- As long as nobody stops the loop, `Run` has been called exactly if it has started. -/
theorem started_iff (ran : run (step owner) new before = some loop)
    (neverStopped : ∀ label ∈ before, ¬Stops label) :
    loop.Started ↔ .loop .callRun ∈ before := by
  constructor
  · intro started
    by_contra notCalled
    have untouched : loop.Untouched :=
      keeps_untouched.run ran (fun label member same => notCalled (same ▸ member)) ⟨rfl, rfl⟩
    rcases started with entered | running
    · rw [untouched.1] at entered
      cases entered
    · rw [untouched.2] at running
      cases running
  · intro called
    rcases List.append_of_mem called with ⟨earlier, later, rfl⟩
    rcases run_append_iff.mp ran with ⟨middle, -, fromMiddle⟩
    rcases run_cons_iff.mp fromMiddle with ⟨entered, calls, rest⟩
    have started : entered.Started := by
      cases (step_loop_iff.mp calls).2 with
      | alreadyRunning point running => exact .inr running
      | callRun point stopped => exact .inl rfl
    exact keeps_started.run rest (fun label member => neverStopped label (by simp [member])) started

/-! ## A `Stop` before the store of `Run` -/

/-- From the state the loop comes to run, without a `Stop` and with this many calls of `Run`. -/
def ComesToRun (owner : Thread) (calls : Nat) (loop : LoopState Thread Task) : Prop :=
  ∃ after last, run (step owner) loop after = some last ∧ last.point = .head ∧
    last.running = true ∧ (∀ label ∈ after, ¬Stops label) ∧
    after.count (.loop .callRun) = calls ∧
    ∀ thread, last.calls thread = .stop → loop.calls thread = .stop

theorem ComesToRun.of_step {label : RunAction Thread Task} {calls : Nat}
    (comes : ComesToRun owner calls next) (taken : step owner loop label = some next)
    (notStop : ¬Stops label)
    (callsKept : ∀ thread, next.calls thread = .stop → loop.calls thread = .stop) :
    ComesToRun owner (calls + [label].count (.loop .callRun)) loop := by
  rcases comes with ⟨after, last, ran, head, running, notStops, count, kept⟩
  refine ⟨label :: after, last, run_cons_iff.mpr ⟨next, taken, ran⟩, head, running,
    List.forall_mem_cons.mpr ⟨notStop, notStops⟩, ?_, fun thread stops =>
      callsKept thread (kept thread stops)⟩
  rw [← List.singleton_append, List.count_append, count, Nat.add_comm]

theorem comesToRun_of_entered (entered : loop.point = .entered)
    (idle : loop.calls owner = .none) : ComesToRun owner 0 loop :=
  ⟨[.loop .setRunning], _, run_cons_iff.mpr
    ⟨_, step_loop_iff.mpr ⟨idle, .setRunning entered⟩, run_nil_iff.mpr rfl⟩, rfl, rfl,
    by simp [Stops], by simp, fun _ stops => stops⟩

theorem comesToRun_of_outside (outside : loop.point = .outside) (unset : loop.running = false) :
    ComesToRun owner 1 loop := by
  have ofIdle : ∀ {loop : LoopState Thread Task}, loop.point = .outside →
      loop.running = false → loop.calls owner = .none → ComesToRun owner 1 loop := by
    intro loop outside unset idle
    have comes : ComesToRun owner 0 { loop with point := .entered } :=
      comesToRun_of_entered rfl idle
    exact comes.of_step (step_loop_iff.mpr ⟨idle, .callRun outside unset⟩) not_false
      fun _ stops => stops
  by_cases idle : loop.calls owner = .none
  · exact ofIdle outside unset idle
  · -- The loop thread first finishes the call it is in.
    have comes : ComesToRun owner 1
        ({ loop with eventFd := EventLoop.wakeUp loop.eventFd }.setCall owner .none) :=
      ofIdle outside unset (setCall_calls_self ..)
    have finishes := step_thread_iff.mpr
      ⟨fun _ : owner = owner => (by rw [outside]; trivial : loop.point.Yields), .wakeUp idle⟩
    apply comes.of_step finishes not_false
    intro thread stops
    by_cases same : thread = owner
    · rw [same, setCall_calls_self] at stops
      cases stops
    · rwa [setCall_calls_of_ne same] at stops

/-- A run in which nobody stops the loop and `running_` is not set can still come to run,
with one call of `Run` in all. -/
theorem exists_comesToRun (ran : run (step owner) new before = some loop)
    (neverStopped : ∀ label ∈ before, ¬Stops label)
    (calledOnce : before.count (.loop .callRun) ≤ 1) (unset : loop.running = false)
    (point : next.point = loop.point) (nextUnset : next.running = false)
    (idle : ¬next.point.Yields → next.calls owner = .none) :
    ∃ calls, before.count (.loop .callRun) + calls ≤ 1 ∧ ComesToRun owner calls next := by
  by_cases called : .loop .callRun ∈ before
  · have entered : next.point = .entered := by
      rcases (started_iff ran neverStopped).mpr called with entered | running
      · exact point.trans entered
      · rw [unset] at running
        cases running
    exact ⟨0, calledOnce, comesToRun_of_entered entered (idle (by simp [entered, Point.Yields]))⟩
  · have untouched : loop.Untouched :=
      keeps_untouched.run ran (fun label member same => called (same ▸ member)) ⟨rfl, rfl⟩
    have none : before.count (.loop .callRun) = 0 := List.count_eq_zero_of_not_mem called
    exact ⟨1, by omega, comesToRun_of_outside (point.trans untouched.1) nextUnset⟩

/-! ## When a `Stop` is final -/

/-- **Stop is never lost, if it comes after the store of `Run`.**  In every run in which `Run`
is called at most once and `Stop` only here, the loop does not go on once the `Stop` has
returned, exactly if `running_` is set when the `Stop` clears it. -/
theorem stop_final_iff (ran : run (step owner) new before = some loop)
    (neverStopped : ∀ label ∈ before, ¬Stops label)
    (calledOnce : before.count (.loop .callRun) ≤ 1)
    (clears : step owner loop (.thread stopper .clearRunning) = some next) :
    (∀ after last, run (step owner) next after = some last → (∀ label ∈ after, ¬Stops label) →
        (before ++ after).count (.loop .callRun) ≤ 1 → last.calls stopper ≠ .stop →
          ¬(last.point.Blocks ∧ last.running = true)) ↔
      loop.running = true := by
  have ordered : loop.Ordered owner :=
    keeps_ordered.run ran (fun _ _ => trivial) ⟨fun _ => rfl, fun _ => rfl⟩
  rcases step_thread_iff.mp clears with ⟨allowed, steps⟩
  constructor
  · intro final
    by_contra unset
    rw [Bool.not_eq_true] at unset
    have nextPoint := steps.point
    have nextUnset : next.running = false ∧ next.calls stopper = .stop := by
      cases steps
      exact ⟨rfl, setCall_calls_self ..⟩
    rcases nextUnset with ⟨nextUnset, inStop⟩
    let returned : LoopState Thread Task :=
      { next with eventFd := EventLoop.wakeUp next.eventFd }.setCall stopper .none
    have returns : step owner next (.thread stopper .wakeUp) = some returned :=
      step_thread_iff.mpr ⟨fun same => nextPoint ▸ allowed same, .wakeUp (by simp [inStop])⟩
    have idle : ¬returned.point.Yields → returned.calls owner = .none := by
      intro inside
      have differs : owner ≠ stopper := fun same => inside (nextPoint ▸ allowed same.symm)
      have loopIdle := ordered.calls (nextPoint ▸ inside)
      exact (setCall_calls_of_ne differs ..).trans ((steps.calls differs).trans loopIdle)
    have again : ∃ calls, before.count (.loop .callRun) + calls ≤ 1 ∧
        ComesToRun owner calls returned :=
      exists_comesToRun ran neverStopped calledOnce unset nextPoint nextUnset idle
    rcases again with
      ⟨calls, atMostOnce, after, last, ranAfter, head, running, notStops, count, kept⟩
    apply final (.thread stopper .wakeUp :: after) last
      (run_cons_iff.mpr ⟨returned, returns, ranAfter⟩)
      (List.forall_mem_cons.mpr ⟨not_false, notStops⟩)
    · simpa [count] using atMostOnce
    · intro stops
      have still := kept stopper stops
      rw [setCall_calls_self] at still
      cases still
    · exact ⟨by rw [head]; trivial, running⟩
  · intro running after last ranAfter notStops once _ goesOn
    have called := (started_iff ran neverStopped).mp (.inr running)
    have notCalled : ∀ label ∈ after, label ≠ .loop .callRun := by
      intro label member same
      have inBefore := List.count_pos_iff.mpr called
      have inAfter := List.count_pos_iff.mpr (same ▸ member)
      rw [List.count_append] at once
      omega
    have stopped : next.Stopped := by
      refine stopped_of_clearRunning clears fun entered => ?_
      rw [ordered.entered entered] at running
      cases running
    rw [(keeps_stopped.run ranAfter notCalled stopped).2] at goesOn
    cases goesOn.2

/-- The loop as it waits for events, with nothing to do. -/
def waitingLoop : LoopState Nat Nat := { new with running := true, point := .waiting }

theorem stop_final_iff_waiting :
    (∀ after last, run (step 0) ({ waitingLoop with running := false }.setCall 1 .stop) after =
          some last → (∀ label ∈ after, ¬Stops label) →
        (([.loop .callRun, .loop .setRunning, .loop .testRunning, .loop .enterWait] :
          List (RunAction Nat Nat)) ++ after).count (.loop .callRun) ≤ 1 →
        last.calls 1 ≠ .stop → ¬(last.point.Blocks ∧ last.running = true)) ↔
      waitingLoop.running = true :=
  stop_final_iff (rfl : run (step 0) new
    [.loop .callRun, .loop .setRunning, .loop .testRunning, .loop .enterWait] = some waitingLoop)
    (by simp [Stops]) (by decide) rfl

/-- A `Stop` that returns before `Run` sets `running_`: the loop goes once round, which uses
up the write to the eventfd, and waits again. -/
theorem stop_lost_before_store :
    ∃ last : LoopState Nat Nat,
      run (step 0) new
          [.loop .callRun, .thread 1 .clearRunning, .thread 1 .wakeUp, .loop .setRunning,
            .loop .testRunning, .loop .enterWait, .loop (.report [.notification]),
            .loop .handleTaskNotification, .loop .finishEvents, .loop .finishTimers,
            .loop .swapTasks, .loop .finishTasks, .loop .testRunning, .loop .enterWait] =
        some last ∧
      last.calls 1 = .none ∧ last.point = .waiting ∧ last.running = true ∧ last.eventFd = 0 :=
  ⟨_, rfl, rfl, rfl, rfl, rfl⟩

end PPServer.EventLoop.LoopState
