import PPServer.ThreadPool.Closing

/-!
# No worker sleeps on work

A worker goes to sleep only if the queue is empty and the flag unset.  Whoever changes that has a
notification to give before its call comes to an end: if all workers sleep on a queue with a task
in it, some `Submit` has not notified yet, and if a worker sleeps in a pool that is being shut down,
some `Shutdown` has not.
-/

namespace PPServer.ThreadPool

open PPServer.Transition

variable {size : Nat} {Thread Task : Type}

/-- The call has changed what the workers wait for, and not notified them yet. -/
def Call.Owes : Call → Prop
  | .notifyOne | .notifyAll _ => True
  | .none | .shutdown _ | .join _ => False

namespace Pool

/-- There is work, and all workers that are left sleep on it for good. -/
structure Sleeps (pool : Pool size Thread Task) : Prop where
  left : ∃ worker, pool.workers worker ≠ .exited
  asleep : ∀ worker, pool.workers worker = .exited ∨ pool.workers worker = .waiting
  notified : ∀ thread, ¬(pool.calls thread).Owes
  work : pool.tasks ≠ [] ∨ pool.shutdown = true

/-- Who has still to notify whom. -/
structure Alert (pool : Pool size Thread Task) : Prop where
  submitted : pool.tasks ≠ [] → ∀ worker, pool.workers worker = .waiting →
    (∃ other, pool.workers other ≠ .waiting) ∨ ∃ thread, pool.calls thread = .notifyOne
  closing : pool.shutdown = true → ∀ worker, pool.workers worker = .waiting →
    ∃ thread waitForCompletion, pool.calls thread = .notifyAll waitForCompletion

theorem alert_new : Alert (new : Pool size Thread Task) where
  submitted work := absurd rfl work
  closing set := by cases set

variable {pool next last : Pool size Thread Task} {action : Action size Thread Task}

theorem Alert.not_sleeps (alert : pool.Alert) (closing : pool.Closing) : ¬pool.Sleeps := by
  intro sleeps
  rcases sleeps.left with ⟨worker, notExited⟩
  have waiting := (sleeps.asleep worker).resolve_left notExited
  cases set : pool.shutdown with
  | true =>
      rcases alert.closing set worker waiting with ⟨thread, waitForCompletion, notifies⟩
      apply sleeps.notified thread
      rw [notifies]
      trivial
  | false =>
      have work : pool.tasks ≠ [] := by
        rcases sleeps.work with work | set'
        · exact work
        · cases set.symm.trans set'
      rcases alert.submitted work worker waiting with ⟨other, awake⟩ | ⟨thread, notifies⟩
      · -- A worker has left only if the flag is set.
        have exited := (sleeps.asleep other).resolve_right awake
        cases set.symm.trans (closing.exited other exited).1
      · apply sleeps.notified thread
        rw [notifies]
        trivial

/-! ## Steps -/

theorem waiting_of_setWorker {worker other : Fin size} {point : Worker Task}
    (awake : point ≠ .waiting) (waiting : (pool.setWorker worker point).workers other = .waiting) :
    pool.workers other = .waiting := by
  rw [setWorker_workers] at waiting
  split at waiting
  next => exact absurd waiting awake
  next => exact waiting

/-- A step that leaves a worker awake. -/
theorem Alert.setWorker (alert : pool.Alert) (tasks : List Task) (worker : Fin size)
    {point : Worker Task} (awake : point ≠ .waiting) :
    ({ pool with tasks }.setWorker worker point).Alert where
  submitted _ _ _ := .inl ⟨worker, by rwa [setWorker_workers, if_pos rfl]⟩
  closing set other waiting := alert.closing set other (waiting_of_setWorker awake waiting)

theorem not_waiting_wakeAll [DecidableEq Task] (pool : Pool size Thread Task) (worker : Fin size) :
    pool.wakeAll.workers worker ≠ .waiting := by
  simp only [wakeAll]
  split
  next => simp
  next awake => exact awake

variable [DecidableEq Thread] {thread : Thread}

/-- A step in a call that owes no notification. -/
theorem Alert.setCall (alert : pool.Alert) (joined : Fin size → Bool)
    (settled : ¬(pool.calls thread).Owes) (call : Call) :
    ({ pool with joined }.setCall thread call).Alert := by
  have kept {other : Thread} (owes : (pool.calls other).Owes) :
      ({ pool with joined }.setCall thread call).calls other = pool.calls other := by
    rw [setCall_calls, if_neg]
    rintro rfl
    exact settled owes
  constructor
  case submitted =>
    intro work worker waiting
    rcases alert.submitted work worker waiting with awake | ⟨other, notifies⟩
    · exact .inl awake
    · exact .inr ⟨other, (kept (by rw [notifies]; trivial)).trans notifies⟩
  case closing =>
    intro set worker waiting
    rcases alert.closing set worker waiting with ⟨other, waitForCompletion, notifies⟩
    exact ⟨other, waitForCompletion, (kept (by rw [notifies]; trivial)).trans notifies⟩

theorem Alert.notifyOne (alert : pool.Alert) {woken : Option (Fin size)}
    (inCall : pool.calls thread = .notifyOne) (mayWake : pool.MayWake woken) :
    ((pool.wake woken).setCall thread .none).Alert := by
  constructor
  case submitted =>
    intro work worker waiting
    cases woken with
    | none => exact absurd waiting (mayWake worker)
    | some chosen => exact .inl ⟨chosen, by simp [wake, Pool.setCall, setWorker_workers]⟩
  case closing =>
    intro set worker waiting
    have waitingBefore : pool.workers worker = .waiting := by
      cases woken with
      | none => exact waiting
      | some chosen => exact waiting_of_setWorker (by simp) waiting
    have setBefore : pool.shutdown = true := (wake_shutdown pool woken).symm.trans set
    rcases alert.closing setBefore worker waitingBefore with ⟨other, waitForCompletion, notifies⟩
    refine ⟨other, waitForCompletion, ?_⟩
    rw [setCall_calls, wake_calls, if_neg, notifies]
    rintro rfl
    cases inCall.symm.trans notifies

variable [DecidableEq Task]

theorem Alert.step (alert : pool.Alert) (steps : Step pool action next) : next.Alert := by
  cases steps with
  | wait _ unset empty =>
      exact ⟨fun work => absurd empty work, fun set => by cases unset.symm.trans set⟩
  | @wakeSpuriously worker _ => exact alert.setWorker pool.tasks worker (by simp)
  | @exit worker _ _ _ => exact alert.setWorker pool.tasks worker (by simp)
  | @take worker _ rest _ _ => exact alert.setWorker rest worker (by simp)
  | @start worker _ _ => exact alert.setWorker pool.tasks worker (by simp)
  | @finish worker _ _ => exact alert.setWorker pool.tasks worker (by simp)
  | @submit thread _ _ unset =>
      exact ⟨fun _ _ _ => .inr ⟨thread, Function.update_self ..⟩, fun set => by
        cases unset.symm.trans set⟩
  | submitThrows => exact alert
  | notifyOne inCall mayWake => exact alert.notifyOne inCall mayWake
  | callShutdown inCall | returnAtOnce inCall _ | skip inCall _ | returnShutdown inCall =>
      exact alert.setCall pool.joined (by rw [inCall]; exact id) _
  | join inCall _ _ => exact alert.setCall _ (by rw [inCall]; exact id) _
  | @setShutdown thread waitForCompletion inCall _ =>
      have called := alert.setCall pool.joined (by rw [inCall]; exact id)
        (.notifyAll waitForCompletion)
      exact ⟨called.submitted, fun _ _ _ =>
        ⟨thread, waitForCompletion, Function.update_self ..⟩⟩
  | notifyAll | notifyAllAndReturn =>
      exact ⟨fun _ worker waiting => absurd waiting (not_waiting_wakeAll pool worker),
        fun _ worker waiting => absurd waiting (not_waiting_wakeAll pool worker)⟩

theorem alert_of_run {actions : List (Action size Thread Task)}
    (ran : run step new actions = some pool) : pool.Alert := by
  have keeps : Keeps step (fun _ => True) (Alert : Pool size Thread Task → Prop) :=
    fun _ _ _ _ taken alert => alert.step (step_cases taken)
  exact keeps.run ran (fun _ _ => trivial) alert_new

theorem not_sleeps_of_run {actions : List (Action size Thread Task)}
    (ran : run step new actions = some pool) : ¬pool.Sleeps := by
  have keeps : Keeps step (fun _ => True) (Alert : Pool size Thread Task → Prop) :=
    fun _ _ _ _ taken alert => alert.step (step_cases taken)
  exact (keeps.run ran (fun _ _ => trivial) alert_new).not_sleeps (closing_of_run ran)

end Pool

end PPServer.ThreadPool
