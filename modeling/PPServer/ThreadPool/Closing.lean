import PPServer.ThreadPool.Pool

/-!
# What is left when `Shutdown` returns

A worker leaves when the flag is set and the queue is empty, and stays away.  The call of
`Shutdown` that sets the flag joins all workers if it is to wait.  Every other call returns at
once, whether it is to wait or not, so after `Shutdown(false)` nobody joins the workers.
-/

namespace PPServer.ThreadPool.Pool

open PPServer.Transition

variable {size : Nat} {Thread Task : Type}

/-- The invariant of a pool that is being shut down. -/
structure Closing (pool : Pool size Thread Task) : Prop where
  exited : ∀ worker, pool.workers worker = .exited → pool.shutdown = true ∧ pool.tasks = []
  joined : ∀ worker, pool.joined worker = true → pool.workers worker = .exited
  joining : ∀ thread next, pool.calls thread = .join next →
    ∀ worker : Fin size, worker < next → pool.joined worker = true

variable {pool next last : Pool size Thread Task} {action : Action size Thread Task}

theorem closing_new : Closing (new : Pool size Thread Task) where
  exited _ exited := by cases exited
  joined _ joined := by cases joined
  joining _ _ joining := by cases joining

/-- Every worker has finished and been joined. -/
def AllJoined (pool : Pool size Thread Task) : Prop :=
  ∀ worker, pool.workers worker = .exited ∧ pool.joined worker = true

theorem Closing.allJoined (closing : pool.Closing)
    (joined : ∀ worker, pool.joined worker = true) : pool.AllJoined :=
  fun worker => ⟨closing.joined worker (joined worker), joined worker⟩

variable [DecidableEq Thread] [DecidableEq Task] {thread : Thread}

/-- Once the flag is set and the queue is empty, both stay so. -/
theorem Step.closed (steps : Step pool action next) (set : pool.shutdown = true)
    (empty : pool.tasks = []) : next.shutdown = true ∧ next.tasks = [] := by
  cases steps with
  | take _ tasks =>
      rw [empty] at tasks
      cases tasks
  | submit _ unset =>
      rw [set] at unset
      cases unset
  | notifyOne _ _ => exact ⟨(wake_shutdown ..).trans set, (wake_tasks ..).trans empty⟩
  | setShutdown _ _ => exact ⟨rfl, empty⟩
  | _ => exact ⟨set, empty⟩

theorem Step.joined_iff (steps : Step pool action next) {worker : Fin size}
    (joined : next.joined worker = true) :
    pool.joined worker = true ∨ pool.workers worker = .exited := by
  cases steps with
  | notifyOne _ _ => exact .inl ((congrFun (wake_joined ..) worker).symm.trans joined)
  | @join _ chosen _ _ exited =>
      by_cases same : worker = chosen
      · exact .inr (same ▸ exited)
      · exact .inl ((Function.update_of_ne same ..).symm.trans joined)
  | _ => exact .inl joined

theorem Closing.step (closing : pool.Closing) (steps : Step pool action next) :
    next.Closing where
  exited worker exited := by
    rcases (steps.exited_iff worker).mp exited with before | exits
    · rcases closing.exited worker before with ⟨set, empty⟩
      exact steps.closed set empty
    · subst exits
      cases steps with
      | exit testing set empty => exact ⟨set, empty⟩
  joined worker joined := by
    rw [steps.exited_iff worker]
    rcases steps.joined_iff joined with before | exited
    · exact .inl (closing.joined worker before)
    · exact .inl exited
  joining thread number joining worker before := by
    rcases steps.call thread with same | moves
    · exact steps.joined (closing.joining thread number (same.symm.trans joining) worker before)
    · generalize called : pool.calls thread = call at moves
      rw [joining] at moves
      cases moves with
      | notifyAll => cases before
      | @join current joined =>
          rcases Nat.lt_succ_iff_lt_or_eq.mp before with earlier | same
          · exact steps.joined (closing.joining thread _ called worker earlier)
          · exact Fin.ext same ▸ joined

variable {before : List (Action size Thread Task)}

theorem closing_of_run (ran : run step new before = some pool) : pool.Closing :=
  Keeps.run (fun _ _ _ _ taken closing => Closing.step closing (step_cases taken)) ran
    (fun _ _ => trivial : ∀ action ∈ before, (fun _ => True) action) closing_new

/-! ## The call that waits -/

/-- The thread is in a `Shutdown` that joins the workers, or they are joined. -/
def Waits (thread : Thread) (pool : Pool size Thread Task) : Prop :=
  pool.calls thread = .notifyAll true ∨ (∃ next, pool.calls thread = .join next) ∨
    ∀ worker, pool.joined worker = true

theorem Waits.step (waits : pool.Waits thread) (closing : pool.Closing)
    (steps : Step pool action next) : next.Waits thread := by
  rcases steps.call thread with same | moves
  · rcases waits with notifies | joins | joined
    · exact .inl (same.trans notifies)
    · rcases joins with ⟨number, joins⟩
      exact .inr (.inl ⟨number, same.trans joins⟩)
    · exact .inr (.inr fun worker => steps.joined (joined worker))
  · rcases waits with notifies | joins | joined
    · rw [notifies] at moves
      generalize after : next.calls thread = call at moves
      cases moves with
      | notifyAll => exact .inr (.inl ⟨0, after⟩)
    · rcases joins with ⟨number, joins⟩
      generalize after : next.calls thread = call at moves
      rw [joins] at moves
      cases moves with
      | join joined => exact .inr (.inl ⟨_, after⟩)
      | returnShutdown =>
          exact .inr (.inr fun worker =>
            steps.joined (closing.joining thread size joins worker worker.isLt))
    · exact .inr (.inr fun worker => steps.joined (joined worker))

/-- A call that waits has joined the workers when it returns, whatever happens meanwhile. -/
theorem Waits.allJoined (waits : pool.Waits thread) (closing : pool.Closing)
    {after : List (Action size Thread Task)} (ran : run Pool.step pool after = some last)
    (returned : last.calls thread = .none) : last.AllJoined := by
  have keeps : Keeps Pool.step (fun _ => True)
      fun pool : Pool size Thread Task => pool.Waits thread ∧ pool.Closing := by
    intro pool action next _ taken holds
    have steps := step_cases taken
    exact ⟨holds.1.step holds.2 steps, holds.2.step steps⟩
  rcases keeps.run ran (fun _ _ => trivial) ⟨waits, closing⟩ with ⟨waits, closing⟩
  rcases waits with notifies | joins | joined
  · rw [returned] at notifies
    cases notifies
  · rcases joins with ⟨number, joins⟩
    rw [returned] at joins
    cases joins
  · exact closing.allJoined joined

/-! ## The call that does not wait -/

/-- The call joins the workers, or is about to. -/
def Joins : Call → Prop
  | .notifyAll true | .join _ => True
  | .none | .notifyOne | .shutdown _ | .notifyAll false => False

/-- The flag is set, and nobody joins the workers any more. -/
structure Unwaited (pool : Pool size Thread Task) : Prop where
  set : pool.shutdown = true
  calls : ∀ thread, ¬Joins (pool.calls thread)
  joined : ∀ worker, pool.joined worker = false

omit [DecidableEq Task] in
theorem Unwaited.setCall (unwaited : pool.Unwaited) {call : Call} (notJoins : ¬Joins call) :
    (pool.setCall thread call).Unwaited where
  set := unwaited.set
  calls other := by
    rw [setCall_calls]
    split
    next => exact notJoins
    next => exact unwaited.calls other
  joined := unwaited.joined

omit [DecidableEq Thread] [DecidableEq Task] in
theorem Unwaited.wake (unwaited : pool.Unwaited) (woken : Option (Fin size)) :
    (pool.wake woken).Unwaited := by
  cases woken <;> exact ⟨unwaited.set, unwaited.calls, unwaited.joined⟩

theorem Unwaited.step (unwaited : pool.Unwaited) (steps : Step pool action next) :
    next.Unwaited := by
  have absent {thread : Thread} {call : Call} (inCall : pool.calls thread = call)
      (joins : Joins call) : next.Unwaited := absurd (inCall ▸ joins) (unwaited.calls thread)
  cases steps with
  | wait | wakeSpuriously | exit | take | start | finish | submitThrows =>
      exact ⟨unwaited.set, unwaited.calls, unwaited.joined⟩
  | submit _ unset | setShutdown _ unset => cases unwaited.set.symm.trans unset
  | notifyOne => exact (unwaited.wake _).setCall id
  | callShutdown | returnAtOnce => exact unwaited.setCall id
  | notifyAllAndReturn =>
      have woken : pool.wakeAll.Unwaited := ⟨unwaited.set, unwaited.calls, unwaited.joined⟩
      exact woken.setCall id
  | notifyAll inCall | skip inCall | join inCall | returnShutdown inCall =>
      exact absent inCall trivial

/-- After a call that does not wait, nobody joins the workers. -/
theorem Unwaited.run (unwaited : pool.Unwaited) {after : List (Action size Thread Task)}
    (ran : run Pool.step pool after = some last) : last.Unwaited := by
  have keeps : Keeps Pool.step (fun _ => True) (Unwaited : Pool size Thread Task → Prop) :=
    fun _ _ _ _ taken unwaited => unwaited.step (step_cases taken)
  exact keeps.run ran (fun _ _ => trivial) unwaited

/-! ## When `Shutdown` waits -/

/-- **When `Shutdown(true)` waits.**  In every run, all workers have finished and been joined
when the call returns exactly if it finds the flag unset, or the workers joined already. -/
theorem shutdown_waits_iff (ran : run step new before = some pool)
    (called : pool.calls thread = .shutdown true)
    (locks : step pool (.lockShutdown thread) = some next) :
    (∀ after last, run step next after = some last → last.calls thread = .none →
        last.AllJoined) ↔
      pool.shutdown = false ∨ pool.AllJoined := by
  have closing := closing_of_run ran
  have steps := step_cases locks
  constructor
  · intro waits
    cases steps with
    | setShutdown _ unset => exact .inl unset
    | returnAtOnce _ set =>
        have allJoined := waits [] _ (run_nil_iff.mpr rfl) (Function.update_self ..)
        exact .inr allJoined
  · intro condition after last ranAfter returned
    have waits : next.Waits thread := by
      rcases condition with unset | allJoined
      · cases steps with
        | returnAtOnce _ set =>
            rw [unset] at set
            cases set
        | setShutdown inCall _ =>
            rw [called] at inCall
            cases inCall
            exact .inl (Function.update_self ..)
      · exact .inr (.inr fun worker => steps.joined (allJoined worker).2)
    exact waits.allJoined (closing.step steps) ranAfter returned

/-- A pool of two workers in its first `Shutdown`. -/
def firstShutdown : Pool 2 Nat Nat := new.setCall 1 (.shutdown true)

theorem shutdown_waits_iff_firstShutdown :
    (∀ after last,
        run step ({ firstShutdown with shutdown := true }.setCall 1 (.notifyAll true)) after =
          some last →
        last.calls 1 = .none → last.AllJoined) ↔
      firstShutdown.shutdown = false ∨ firstShutdown.AllJoined :=
  shutdown_waits_iff (rfl : run step new [.callShutdown 1 true] = some firstShutdown) rfl rfl

/-- After `Shutdown(false)`, as before the destructor: the call that is to wait returns, and
no worker has finished. -/
theorem shutdown_returns_without_joining :
    ∃ last : Pool 2 Nat Nat,
      run step new [.callShutdown 1 false, .lockShutdown 1, .notifyAll 1, .callShutdown 1 true,
          .lockShutdown 1] = some last ∧
        last.calls 1 = .none ∧ ∀ worker, last.joined worker = false ∧
          last.workers worker = .testing :=
  ⟨_, rfl, rfl, by decide⟩

end PPServer.ThreadPool.Pool
