import PPServer.Server.Exiting

/-!
# When a signal ends the program

`Run` tests `running_` and sets it in two steps, after the handlers are set.  A signal that comes
before the second of them stops nothing: the loop uses up the write to the eventfd and waits for
ever.  One that comes later ends the program, whatever `epoll_wait` answers, in as many steps as one
round of the loop takes.
-/

namespace PPServer.EventLoop.LoopState

variable {Thread : Type} {loop next : LoopState Thread Empty} {action : LoopAction Empty}

theorem pendingTasks_eq_nil (loop : LoopState Thread Empty) : loop.pendingTasks = [] := by
  cases loop.pendingTasks with
  | nil => rfl
  | cons task tasks => exact task.elim

/-- Where there are no tasks, one round of the loop is left at most. -/
theorem LoopStep.effort_le (steps : LoopStep loop action next)
    (bounded : loop.effort ≤ 2 * maxEvents + 7) : next.effort ≤ 2 * maxEvents + 7 := by
  have none := loop.pendingTasks_eq_nil
  cases steps with
  | alreadyRunning => exact bounded
  | report point reports =>
      have short := reports.1
      simp only [effort, none, List.length_nil, Point.effort]
      omega
  | swapTasks => simp [effort, none, Point.effort]
  | callRun point | setRunning point | goOn point | leave point | enterWait point
  | interrupted point | failed point | handleTaskNotification point | handleIoEvent point
  | finishCallback point | finishEvents point | finishTimers point | startTask point
  | finishTask point | finishTasks point =>
      simp only [effort, point, Point.effort, none, List.length_nil, List.length_cons]
        at bounded ⊢
      omega

theorem LoopStep.calls (steps : LoopStep loop action next) : next.calls = loop.calls := by
  cases steps <;> rfl

end PPServer.EventLoop.LoopState

namespace PPServer.Server.Main

open EventLoop Transition

variable {main next last : Main} {action : Action} {labels before after : List Action}

/-- The step has to come in the end: it is neither a signal, nor a return of `epoll_wait` with the
eventfd clear or unseen. -/
def GoesOn (main : Main) : Action → Prop
  | .run (.report batch) => 0 < main.loop.eventFd ∧ .notification ∈ batch
  | .signal | .run .interrupted | .run .failed => False
  | _ => True

/-! ## A round of the loop -/

/-- The loop thread makes no calls, and has at most one round left. -/
def Calm (main : Main) : Prop :=
  (∀ thread, main.loop.calls thread = .none) ∧ main.loop.effort ≤ 2 * maxEvents + 7

theorem Calm.of_loop (calm : main.Calm) {running : Bool} {eventFd : Nat}
    (loop : next.loop = { main.loop with running, eventFd }) : next.Calm := by
  rw [Calm, loop]
  exact calm

theorem destroyLoop_loop (main : Main) (code : Nat) :
    (main.destroyLoop code).loop =
      { main.loop with running := false, eventFd := wakeUp main.loop.eventFd } := by
  simp only [destroyLoop]
  split <;> split <;> rfl

theorem Calm.step (calm : main.Calm) (steps : Steps main action next) : next.Calm := by
  cases steps with
  | @epollCreate fd => cases fd <;> exact calm
  | @eventfd fd => cases fd <;> exact calm
  | @epollAdd added => cases added <;> exact calm
  | createThread | makeServer | setSignalHandlers | destroyPool => exact calm
  | probe _ fresh =>
      rw [probe_eq fresh]
      split
      next => exact calm
      next => split <;> exact calm
  | goOn _ _ steps | leave _ steps =>
      exact ⟨fun thread => (congrFun steps.calls thread).trans (calm.1 thread),
        steps.effort_le calm.2⟩
  | destroyServer => exact calm
  | destroyLoop => exact calm.of_loop (main.destroyLoop_loop _)
  | signal _ signalled => cases signalled <;> exact calm

theorem calm_of_run (ran : run step {} labels = some last) : last.Calm := by
  have keeps : Keeps step (fun _ => True) Calm :=
    fun _ _ _ _ taken calm => calm.step (steps_of_step taken)
  have start : Calm {} := ⟨fun _ => rfl, by decide⟩
  exact keeps.run ran (fun _ _ => trivial) start

/-! ## After the signal -/

/-- The loop is stopped, and not asleep for good. -/
structure Leaving (loop : LoopState Unit Empty) : Prop where
  stopped : loop.Stopped
  inside : loop.point ≠ .outside
  written : loop.point.Sleeps → 0 < loop.eventFd

/-- `main` is on its way to return 0. -/
def Ending (main : Main) : Prop :=
  match main.point with
  | .run => Leaving main.loop
  | .destroyServer => True
  | .destroyPool code | .destroyLoop code | .returned code => code = 0
  | .epollCreate | .eventfd | .epollAdd | .createThread _ | .probe _ | .makeServer
  | .setSignalHandlers | .killed | .fault => False

/-- At most so many steps are left. -/
def stepsLeft (main : Main) : Nat :=
  match main.point with
  | .run => main.loop.effort + 3
  | .destroyServer => 3
  | .destroyPool _ => 2
  | .destroyLoop _ => 1
  | .epollCreate | .eventfd | .epollAdd | .createThread _ | .probe _ | .makeServer
  | .setSignalHandlers | .returned _ | .killed | .fault => 0

theorem Leaving.loopStep {loop next : LoopState Unit Empty} {action : LoopAction Empty}
    (leaving : Leaving loop) (steps : LoopState.LoopStep loop action next) :
    action ≠ .callRun ∧ (next.point ≠ .outside → Leaving next) := by
  have notCall : action ≠ .callRun := by
    rintro rfl
    cases steps with
    | alreadyRunning outside | callRun outside => exact leaving.inside outside
  refine ⟨notCall, fun inside => ⟨leaving.stopped.loopStep steps notCall, inside, ?_⟩⟩
  cases steps with
  | alreadyRunning | callRun => exact absurd rfl notCall
  | goOn _ running => cases leaving.stopped.2.symm.trans running
  | enterWait point => exact fun _ => leaving.written (by rw [point]; trivial)
  | _ => exact fun sleeps => sleeps.elim

/-- Every step brings `main` nearer to its end. -/
theorem Ending.step (ending : main.Ending) (steps : Steps main action next)
    (notSignal : action ≠ .signal) : next.Ending ∧ next.stepsLeft + 1 ≤ main.stepsLeft := by
  cases steps with
  | epollCreate point | eventfd point | epollAdd point | createThread point | probe point
  | makeServer point | setSignalHandlers point =>
      simp only [Ending, point] at ending
  | goOn point _ steps inside =>
      simp only [Ending, point] at ending
      rcases ending.loopStep steps with ⟨notCall, leaving⟩
      have less := steps.effort_lt ending.stopped notCall
      refine ⟨leaving inside, ?_⟩
      simp only [stepsLeft, point]
      omega
  | leave point steps outside =>
      simp only [Ending, point] at ending
      have less := steps.effort_lt ending.stopped (ending.loopStep steps).1
      refine ⟨trivial, ?_⟩
      simp only [stepsLeft, point]
      omega
  | destroyServer point => exact ⟨rfl, by simp only [stepsLeft, point]; rfl⟩
  | destroyPool point | destroyLoop point =>
      simp only [Ending, point] at ending
      exact ⟨ending, by simp only [stepsLeft, point]; rfl⟩
  | signal => exact absurd rfl notSignal

theorem keeps_ending : Keeps step (· ≠ .signal) Ending :=
  fun _ _ _ notSignal taken ending => (ending.step (steps_of_step taken) notSignal).1

theorem spends_stepsLeft :
    Spends step (· ≠ .signal) Ending (fun _ => 1) (fun _ => 0) stepsLeft :=
  fun _ _ _ notSignal taken ending => (ending.step (steps_of_step taken) notSignal).2

/-- A step of the loop that `main` can take. -/
theorem step_run_of_loopStep {action : LoopAction Empty} {loop : LoopState Unit Empty}
    (point : main.point = .run) (notifies : OnlyNotifies action)
    (steps : LoopState.LoopStep main.loop action loop) :
    main.step (.run action) =
      some { main with loop, point := if loop.point = .outside then .destroyServer else .run } := by
  simp only [step, point, runLoop, notifies, if_true, LoopState.loopStep_iff.mpr steps,
    Option.map_some]

/-- Where `main` cannot go on in `Run`, the loop waits with the eventfd clear. -/
theorem waits_of_stuck (stuck : Stuck step main.GoesOn main) (point : main.point = .run)
    (calm : main.Calm) (inside : main.loop.point ≠ .outside) :
    main.loop.point = .waiting ∧ main.loop.eventFd = 0 := by
  have goesOn {action : LoopAction Empty} {loop : LoopState Unit Empty}
      (steps : LoopState.LoopStep main.loop action loop) (notifies : OnlyNotifies action) :
      ¬main.GoesOn (.run action) := fun goes =>
    stuck.ne_some goes (step_run_of_loopStep point notifies steps)
  have loopStuck : Stuck (LoopState.step ()) main.loop.GoesOn main.loop := by
    intro label goes
    by_contra taken
    rcases Option.ne_none_iff_exists'.mp taken with ⟨loop, taken⟩
    cases label with
    | thread thread action =>
        cases action with
        | wakeUp =>
            cases (LoopState.step_thread_iff.mp taken).2 with
            | wakeUp inCall => exact inCall (calm.1 thread)
        | pushTask | registerTimer | clearRunning => exact goes
    | loop action =>
        have steps := (LoopState.step_loop_iff.mp taken).2
        cases action with
        | report batch =>
            cases steps with
            | report waiting =>
                exact goesOn (.report waiting ⟨by decide, fun _ => List.mem_singleton_self _⟩)
                  (fun _ => List.mem_singleton.mp) ⟨goes.1, List.mem_singleton_self _⟩
        | callRun | interrupted | failed => exact goes
        | _ => exact goesOn steps trivial trivial
  rcases LoopState.point_of_stuck loopStuck (calm.1 ()) with outside | waits
  · exact absurd outside inside
  · exact waits

theorem Ending.returned_of_stuck (ending : main.Ending) (calm : main.Calm)
    (stuck : Stuck Main.step main.GoesOn main) : main.point = .returned 0 := by
  cases point : main.point with
  | run =>
      simp only [Ending, point] at ending
      rcases waits_of_stuck stuck point calm ending.inside with ⟨waiting, clear⟩
      have written := ending.written (by rw [waiting]; trivial)
      exact absurd clear written.ne'
  | destroyServer =>
      have taken : main.step .destroyServer ≠ none := by simp [Main.step, point]
      exact absurd (stuck .destroyServer trivial) taken
  | destroyPool =>
      rcases ThreadPool.Life.exists_destroyed main.workers with ⟨life, pool, size, destroyed⟩
      have taken : main.step (.destroyPool life) ≠ none := by
        simp [Main.step, point, Main.destroyPool, size, destroyed]
      exact absurd (stuck (.destroyPool life) trivial) taken
  | destroyLoop =>
      have taken : main.step .destroyLoop ≠ none := by simp [Main.step, point]
      exact absurd (stuck .destroyLoop trivial) taken
  | returned =>
      simp only [Ending, point] at ending
      rw [ending]
  | _ => simp only [Ending, point] at ending

/-! ## A signal that stops nothing -/

theorem stuck_of_final (final : main.point.Final) : Stuck step main.GoesOn main := by
  intro action _
  cases point : main.point <;> simp_all [step, Point.Final]

theorem stuck_of_waiting (point : main.point = .run) (waiting : main.loop.point = .waiting)
    (clear : main.loop.eventFd = 0) : Stuck step main.GoesOn main := by
  intro action goes
  cases action with
  | signal => exact goes.elim
  | run action =>
      cases action with
      | report => exact absurd clear goes.1.ne'
      | interrupted | failed => exact goes.elim
      | _ => simp [step, point, runLoop, LoopState.loopStep, waiting]
  | _ => simp only [step, point]

/-- `Run` from where it sets `running_`, through one round, to `epoll_wait`. -/
def oneRound : List (LoopAction Empty) :=
  [.setRunning, .testRunning, .enterWait, .report [.notification], .handleTaskNotification,
    .finishEvents, .finishTimers, .swapTasks, .finishTasks, .testRunning, .enterWait]

/-- A run of the loop that does not leave `Run` is one of `main`. -/
theorem run_map_run {actions : List (LoopAction Empty)} {loop : LoopState Unit Empty}
    (point : main.point = .run) (notifies : ∀ action ∈ actions, OnlyNotifies action)
    (notCalled : .callRun ∉ actions) (ran : run LoopState.loopStep main.loop actions = some loop)
    (inside : loop.point ≠ .outside) :
    run step main (actions.map .run) = some { main with loop, point := .run } := by
  induction actions generalizing main with
  | nil =>
      rw [run_nil_iff] at ran
      rw [List.map_nil, run_nil_iff, ← ran, ← point]
  | cons action actions ih =>
      rcases run_cons_iff.mp ran with ⟨next, taken, rest⟩
      rw [List.forall_mem_cons] at notifies
      rw [List.mem_cons, not_or] at notCalled
      have nextInside : next.point ≠ .outside := by
        intro outside
        cases actions with
        | nil =>
            rw [run_nil_iff] at rest
            exact inside (rest ▸ outside)
        | cons second actions =>
            rcases run_cons_iff.mp rest with ⟨third, secondTaken, -⟩
            have calls := (LoopState.loopStep_iff.mp secondTaken).of_outside outside
            exact notCalled.2 (calls ▸ List.mem_cons_self)
      have goes := step_run_of_loopStep point notifies.1 (LoopState.loopStep_iff.mp taken)
      rw [if_neg nextInside] at goes
      exact run_cons_iff.mpr ⟨_, goes, ih rfl notifies.2 notCalled.2 rest⟩

theorem waits_of_entered {loop : LoopState Unit Empty} (entered : loop.point = .entered) :
    run LoopState.loopStep loop oneRound =
      some { loop with running := true, eventFd := 0, point := .waiting } := by
  have none := loop.pendingTasks_eq_nil
  have reports : Reports loop.eventFd [.notification] :=
    ⟨by decide, fun _ => List.mem_singleton_self _⟩
  simp [run, oneRound, LoopState.loopStep, entered, reports, none]

theorem stays_of_entered (point : main.point = .run) (entered : main.loop.point = .entered) :
    ∃ last, run step main (oneRound.map .run) = some last ∧ Stuck step last.GoesOn last ∧
      last.point = .run :=
  ⟨_, run_map_run point (by decide) (by decide) (waits_of_entered entered) (by simp),
    stuck_of_waiting rfl rfl rfl, rfl⟩

/-- Without another signal, `main` can come to wait in `Run` for ever. -/
def Stays (main : Main) : Prop :=
  ∃ after last, run step main after = some last ∧ .signal ∉ after ∧
    Stuck step last.GoesOn last ∧ last.point = .run

/-- If `running_` is still to be set, a stop comes too early. -/
theorem stays_of_ready (point : main.point = .run) (ready : main.loop.Ready) : main.Stays := by
  rcases ready with ⟨outside | entered, stopped⟩
  · have notifies : OnlyNotifies .callRun := trivial
    have calls := step_run_of_loopStep point notifies (.callRun outside stopped)
    rw [if_neg (by simp)] at calls
    have stays : ∃ last, run step
        { main with loop := { main.loop with point := .entered }, point := .run }
        (oneRound.map .run) = some last ∧ Stuck step last.GoesOn last ∧ last.point = .run :=
      stays_of_entered rfl rfl
    rcases stays with ⟨last, ran, stuck, stays⟩
    exact ⟨_, last, run_cons_iff.mpr ⟨_, calls, ran⟩, by simp, stuck, stays⟩
  · rcases stays_of_entered point entered with ⟨last, ran, stuck, stays⟩
    exact ⟨_, last, ran, by simp, stuck, stays⟩

/-! ## The first signal -/

/-- Until a signal comes, the handlers are not set, or `main` is in `Run`. -/
theorem Follows.unsignalled (follows : Follows labels main) (unsignalled : .signal ∉ labels)
    (running : ¬main.point.Final) :
    Starting labels main ∨ main.point = .run ∧ main.handlersSet = true ∧ main.server = .alive ∧
      (main.loop.Ready ∨ main.loop.Looping) := by
  cases point : main.point with
  | returned | killed | fault => exact (running (by rw [point]; trivial)).elim
  | epollCreate | eventfd | epollAdd | createThread | probe | makeServer | setSignalHandlers =>
      simp only [Follows, point] at follows
      exact .inl follows.1
  | run =>
      simp only [Follows, point] at follows
      rcases follows with ⟨-, handlersSet, alive, ready | looping | ⟨signalled, -⟩⟩
      · exact .inr ⟨rfl, handlersSet, alive, .inl ready⟩
      · exact .inr ⟨rfl, handlersSet, alive, .inr looping⟩
      · exact absurd signalled unsignalled
  | destroyServer =>
      simp only [Follows, point] at follows
      exact absurd follows.2.2.2 unsignalled
  | destroyPool | destroyLoop =>
      simp only [Follows, point] at follows
      rcases follows with ⟨-, -, -, signalled, -⟩ | ⟨-, starting, -⟩
      · exact absurd signalled unsignalled
      · exact .inl starting

/-- Whatever is done after the signal, `main` returns 0 within one round. -/
def Ends (main : Main) : Prop :=
  ∀ after last, run step main after = some last → .signal ∉ after →
    after.length ≤ 2 * maxEvents + 10 ∧ (Stuck step last.GoesOn last → last.point = .returned 0)

theorem Ending.ends (ending : main.Ending) (calm : main.Calm)
    (bounded : main.stepsLeft ≤ 2 * maxEvents + 10) : main.Ends := by
  intro after last ran unsignalled
  have notSignal : ∀ label ∈ after, label ≠ .signal := fun label member same =>
    unsignalled (same ▸ member)
  constructor
  · have spent := spends_stepsLeft.sum_le keeps_ending ran notSignal ending
    simp only [List.map_const', List.sum_replicate_nat] at spent
    omega
  · have keepsCalm : Keeps Main.step (fun _ => True) Calm :=
      fun _ _ _ _ taken calm => calm.step (steps_of_step taken)
    exact (keeps_ending.run ran notSignal ending).returned_of_stuck
      (keepsCalm.run ran (fun _ _ => trivial) calm)

theorem not_ends_of_final (final : main.point.Final) (other : main.point ≠ .returned 0) :
    ¬main.Ends := fun ends =>
  other ((ends [] main (run_nil_iff.mpr rfl) (by simp)).2 (stuck_of_final final))

theorem Stays.not_ends (stays : main.Stays) : ¬main.Ends := by
  intro ends
  rcases stays with ⟨after, last, ran, unsignalled, stuck, stays⟩
  have returned := (ends after last ran unsignalled).2 stuck
  cases returned.symm.trans stays

/-- **When a signal ends the program.**  After the first signal `main` returns 0 within one round
of the loop, whatever `epoll_wait` reports, exactly if `running_` is set when the signal comes.  If
it is not but the handlers are, `main` can come to wait in `Run` for ever. -/
theorem signal_ends_iff (ran : run step {} labels = some main) (unsignalled : .signal ∉ labels)
    (arrives : main.step .signal = some next) :
    (next.Ends ↔ main.loop.running = true) ∧
      (main.handlersSet = true → main.loop.running = false → next.Stays) := by
  cases steps_of_step arrives with
  | signal running signalled =>
      rcases (follows_of_run ran).unsignalled unsignalled running with
        starting | ⟨point, handlersSet, alive, ready | looping⟩
      · have unset : main.loop.running = false := by rw [starting.loop]; rfl
        refine ⟨iff_of_false ?_ (by simp [unset]), fun set => ?_⟩
        · cases signalled with
          | killed => exact not_ends_of_final trivial (by simp)
          | unmade set | stopped set | fault set => cases starting.handlersSet.symm.trans set
        · cases starting.handlersSet.symm.trans set
      · have stays : next.Stays := by
          cases signalled with
          | killed unset => cases unset.symm.trans handlersSet
          | unmade _ other | fault _ other => cases alive.symm.trans other
          | stopped =>
              apply stays_of_ready
              · exact point
              · exact ⟨ready.1, rfl⟩
        exact ⟨iff_of_false stays.not_ends (by simp [ready.2]), fun _ _ => stays⟩
      · refine ⟨iff_of_true ?_ looping.2.2, fun _ stopped => absurd looping.2.2 (by simp [stopped])⟩
        have calm := calm_of_run ran
        cases signalled with
        | killed unset => cases unset.symm.trans handlersSet
        | unmade _ other | fault _ other => cases alive.symm.trans other
        | stopped _ _ written =>
            apply Ending.ends
            · simp only [Ending, point]
              exact ⟨⟨looping.2.1, rfl⟩, looping.1, fun _ => written⟩
            · exact calm
            · have bounded := calm.2
              simp only [LoopState.effort] at bounded
              simp only [stepsLeft, point, LoopState.effort]
              omega

/-- A signal that comes as `Run` is entered. -/
theorem signal_ends_iff_entered :
    ∃ main next, run step {} (startsUp ++ [.run .callRun]) = some main ∧
      main.step .signal = some next ∧ main.loop.running = false ∧
      (next.Ends ↔ main.loop.running = true) ∧ next.Stays := by
  have entered : ∃ main next, run step {} (startsUp ++ [.run .callRun]) = some main ∧
      main.step .signal = some next ∧ main.handlersSet = true ∧ main.loop.running = false :=
    ⟨_, _, rfl, rfl, rfl, rfl⟩
  rcases entered with ⟨main, next, ran, arrives, set, stopped⟩
  have ends := signal_ends_iff ran (by simp [startsUp]) arrives
  exact ⟨main, next, ran, arrives, stopped, ends.1, ends.2 set stopped⟩

end PPServer.Server.Main
