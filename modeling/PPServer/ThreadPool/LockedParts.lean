import PPServer.Library.Simulation
import PPServer.ThreadPool.Interleaving
import PPServer.ThreadPool.Wakeups

/-!
# The locked parts as steps

`LockedPool.abstraction` forgets the mutex of a pool.  It sees a thread that is about to test or
change what the mutex guards before it does, and one that has done so after, so that of a locked
part only the one step is seen that changes something.  So the pool with its locked parts as steps
is what the pool looks like, and what never happens in the one never happens in the other.
-/

namespace PPServer.ThreadPool

open PPServer.Transition

variable {size : Nat} {Thread Task : Type}

/-- The worker as it is seen without the mutex. -/
def Point.seen : Point Task → Worker Task
  | .locking | .checking | .blocking | .relocking | .passed => .testing
  | .waiting => .waiting
  | .popped task | .holding task => .holding task
  | .running task => .running task
  | .leaving | .exited => .exited

/-- The call as it is seen without the mutex. -/
def Progress.seen : Progress Task → Call
  | .none | .submitting _ | .pushing _ | .throwing | .returning => .none
  | .pushed | .notifyOne => .notifyOne
  | .shutdown waitForCompletion | .setting waitForCompletion => .shutdown waitForCompletion
  | .set waitForCompletion | .notifyAll waitForCompletion => .notifyAll waitForCompletion
  | .join next => .join next

theorem Unlocks.seen {before after : Progress Task} (unlocks : Unlocks before after) :
    after.seen = before.seen := by
  cases unlocks <;> rfl

theorem Point.seen_eq_waiting_iff {point : Point Task} :
    point.seen = .waiting ↔ point = .waiting := by
  cases point <;> simp [seen]

namespace LockedPool

/-- The pool as it is seen without the mutex. -/
def abstraction (pool : LockedPool size Thread Task) : Pool size Thread Task where
  tasks := pool.tasks
  shutdown := pool.shutdown
  workers worker := (pool.workers worker).seen
  joined := pool.joined
  calls thread := (pool.calls thread).seen

variable {pool next last : LockedPool size Thread Task} {worker : Fin size} {thread : Thread}

theorem abstraction_moveWorker (pool : LockedPool size Thread Task) (worker : Fin size)
    (point : Point Task) :
    (pool.moveWorker worker point).abstraction =
      pool.abstraction.setWorker worker point.seen := by
  have workers : (fun other => ((pool.moveWorker worker point).workers other).seen) =
      Function.update (fun other => (pool.workers other).seen) worker point.seen := by
    funext other
    rw [workers_moveWorker, Function.update_apply, apply_ite Point.seen]
  simp only [abstraction, Pool.setWorker, workers]
  rfl

/-- A step of a worker that is not seen. -/
theorem abstraction_moveWorker_of_seen (pool : LockedPool size Thread Task) (worker : Fin size)
    (point : Point Task) (same : point.seen = (pool.workers worker).seen) :
    (pool.moveWorker worker point).abstraction = pool.abstraction := by
  rw [abstraction_moveWorker, same, Pool.setWorker]
  have workers : Function.update pool.abstraction.workers worker (pool.workers worker).seen =
      pool.abstraction.workers := Function.update_eq_self worker _
  rw [workers]

theorem workers_abstraction {point : Point Task} (found : pool.workers worker = point) :
    pool.abstraction.workers worker = point.seen := congrArg Point.seen found

theorem calls_abstraction {progress : Progress Task} (found : pool.calls thread = progress) :
    pool.abstraction.calls thread = progress.seen := congrArg Progress.seen found

theorem mayWake_abstraction {woken : Option (Fin size)} (mayWake : pool.MayWake woken) :
    pool.abstraction.MayWake woken := by
  cases woken with
  | some worker => exact workers_abstraction mayWake
  | none => exact fun worker waiting => mayWake worker (Point.seen_eq_waiting_iff.mp waiting)

theorem abstraction_wake (pool : LockedPool size Thread Task) (woken : Option (Fin size)) :
    (pool.wake woken).abstraction = pool.abstraction.wake woken := by
  cases woken with
  | some worker => exact abstraction_moveWorker pool worker .relocking
  | none => rfl

theorem abstraction_wakeAll [DecidableEq Task] (pool : LockedPool size Thread Task) :
    pool.wakeAll.abstraction = pool.abstraction.wakeAll := by
  have workers : (fun worker => (pool.wakeAll.workers worker).seen) =
      pool.abstraction.wakeAll.workers := by
    funext worker
    simp only [wakeAll, Pool.wakeAll, abstraction, Point.seen_eq_waiting_iff]
    split <;> rfl
  simp only [abstraction, Pool.wakeAll] at workers ⊢
  rw [workers]
  rfl

/-- The call has changed what the workers wait for, and not notified them yet. -/
def Owes : Progress Task → Prop
  | .pushed | .notifyOne | .set _ | .notifyAll _ => True
  | .none | .submitting _ | .pushing _ | .throwing | .shutdown _ | .setting _ | .returning
  | .join _ => False

/-- There is work, and all workers that are left wait for good. -/
structure Sleeps (pool : LockedPool size Thread Task) : Prop where
  left : ∃ worker, pool.workers worker ≠ .exited
  asleep : ∀ worker, pool.workers worker ≠ .exited → pool.workers worker = .waiting
  notified : ∀ thread, ¬Owes (pool.calls thread)
  work : pool.tasks ≠ [] ∨ pool.shutdown = true

theorem owes_seen_iff {progress : Progress Task} : progress.seen.Owes ↔ Owes progress := by
  cases progress <;> rfl

theorem Sleeps.abstraction (sleeps : pool.Sleeps) : pool.abstraction.Sleeps where
  left := by
    rcases sleeps.left with ⟨worker, left⟩
    have waiting := workers_abstraction (sleeps.asleep worker left)
    exact ⟨worker, by simp [waiting, Point.seen]⟩
  asleep worker := by
    by_cases exited : pool.workers worker = .exited
    · exact .inl (workers_abstraction exited)
    · exact .inr (workers_abstraction (sleeps.asleep worker exited))
  notified thread owes := sleeps.notified thread (owes_seen_iff.mp owes)
  work := sleeps.work

variable [DecidableEq Thread]

theorem abstraction_moveCall (pool : LockedPool size Thread Task) (thread : Thread)
    (progress : Progress Task) :
    (pool.moveCall thread progress).abstraction =
      pool.abstraction.setCall thread progress.seen := by
  have calls : (fun other => ((pool.moveCall thread progress).calls other).seen) =
      Function.update (fun other => (pool.calls other).seen) thread progress.seen := by
    funext other
    rw [calls_moveCall, Function.update_apply, apply_ite Progress.seen]
  simp only [abstraction, Pool.setCall, calls]
  rfl

theorem abstraction_moveCall_of_seen (pool : LockedPool size Thread Task) (thread : Thread)
    (progress : Progress Task) (same : progress.seen = (pool.calls thread).seen) :
    (pool.moveCall thread progress).abstraction = pool.abstraction := by
  rw [abstraction_moveCall, same, Pool.setCall]
  have calls : Function.update pool.abstraction.calls thread (pool.calls thread).seen =
      pool.abstraction.calls := Function.update_eq_self thread _
  rw [calls]

variable [DecidableEq Task] {action : Action size Thread Task}

/-- What has been done is not seen, or is seen as a step of the pool whose locked parts are
steps. -/
def Seen (pool next : LockedPool size Thread Task) : Prop :=
  next.abstraction = pool.abstraction ∨
    ∃ action, Pool.step pool.abstraction action = some next.abstraction

variable {middle : LockedPool size Thread Task}
  {coarse : ThreadPool.Action size Thread Task}

/-- A step of a worker that is seen. -/
theorem seen_moveWorker {point : Point Task}
    (taken : Pool.step pool.abstraction coarse =
      some (middle.abstraction.setWorker worker point.seen)) :
    Seen pool (middle.moveWorker worker point) := by
  right
  rw [abstraction_moveWorker]
  exact ⟨coarse, taken⟩

/-- A step of a call that is seen. -/
theorem seen_moveCall {progress : Progress Task}
    (taken : Pool.step pool.abstraction coarse =
      some (middle.abstraction.setCall thread progress.seen)) :
    Seen pool (middle.moveCall thread progress) := by
  right
  rw [abstraction_moveCall]
  exact ⟨coarse, taken⟩

theorem Step.simulates (steps : Step pool action next) (exclusive : pool.Exclusive) :
    Seen pool next := by
  cases steps with
  | @lock worker point _ =>
      have same : Worker.testing = (pool.workers worker).seen := by
        rcases point with point | point <;> rw [point] <;> rfl
      exact .inl (abstraction_moveWorker_of_seen pool worker .checking same)
  | @pass worker point _ | @block worker point _ _ | @unlock worker _ point | @exit worker point =>
      exact .inl (abstraction_moveWorker_of_seen pool worker _ (workers_abstraction point).symm)
  | @wait worker point =>
      have fits := exclusive.fits worker
      rw [point] at fits
      have testing : pool.abstraction.workers worker = .testing := workers_abstraction point
      have waits : Pool.step pool.abstraction (.wait worker) =
          some (pool.abstraction.setWorker worker (Point.seen .waiting)) :=
        if_pos ⟨testing, fits⟩
      exact seen_moveWorker waits
  | @wakeSpuriously worker point =>
      have wakes : Pool.step pool.abstraction (.wakeSpuriously worker) = _ :=
        if_pos (workers_abstraction point)
      exact seen_moveWorker wakes
  | @pop worker task rest point tasks =>
      have tasks' : pool.abstraction.tasks = task :: rest := tasks
      have testing : pool.abstraction.workers worker = .testing := workers_abstraction point
      have takes : Pool.step pool.abstraction (.take worker task) =
          some (abstraction { pool with tasks := rest } |>.setWorker worker (.holding task)) := by
        simp only [Pool.step, tasks', testing, and_self, if_true]
        rfl
      exact seen_moveWorker takes
  | @leave worker point empty set =>
      have exits : Pool.step pool.abstraction (.exit worker) = _ :=
        if_pos ⟨workers_abstraction point, set, empty⟩
      exact seen_moveWorker exits
  | @start worker task point =>
      have starts : Pool.step pool.abstraction (.start worker task) = _ :=
        if_pos (workers_abstraction point)
      exact seen_moveWorker starts
  | @finish worker task point =>
      have finishes : Pool.step pool.abstraction (.finish worker task) = _ :=
        if_pos (workers_abstraction point)
      exact seen_moveWorker finishes
  | @callSubmit thread _ progress | @lockSubmit thread _ progress _ | @refuse thread _ progress _
  | @lockShutdown thread _ progress _ =>
      exact .inl (abstraction_moveCall_of_seen pool thread _ (calls_abstraction progress).symm)
  | @unlockCall thread before after progress unlocks =>
      have same := unlocks.seen.trans (calls_abstraction progress).symm
      exact .inl (abstraction_moveCall_of_seen pool thread after same)
  | @callShutdown thread waitForCompletion progress =>
      have calls : Pool.step pool.abstraction (.callShutdown thread waitForCompletion) = _ :=
        if_pos (calls_abstraction progress)
      exact seen_moveCall calls
  | @push thread task progress unset =>
      have idle : pool.abstraction.calls thread = .none := calls_abstraction progress
      have unset' : pool.abstraction.shutdown = false := unset
      have queues : Pool.step pool.abstraction (.submit thread task false) =
          some ({ pool.abstraction with tasks := pool.tasks ++ [task] }.setCall thread
            .notifyOne) := by
        simp only [Pool.step, idle, if_true, unset']
        rfl
      exact seen_moveCall queues
  | @findSet thread waitForCompletion progress set =>
      have set' : pool.abstraction.shutdown = true := set
      have finds : Pool.step pool.abstraction (.lockShutdown thread) =
          some (pool.abstraction.setCall thread .none) := by
        simp only [Pool.step, calls_abstraction progress, Progress.seen, set', if_true]
      exact seen_moveCall finds
  | @set thread waitForCompletion progress unset =>
      have unset' : pool.abstraction.shutdown = false := unset
      have sets : Pool.step pool.abstraction (.lockShutdown thread) =
          some (abstraction { pool with shutdown := true } |>.setCall thread
            (.notifyAll waitForCompletion)) := by
        simp only [Pool.step, calls_abstraction progress, Progress.seen, unset',
          Bool.false_eq_true, if_false]
        rfl
      exact seen_moveCall sets
  | @notifyOne thread woken progress mayWake =>
      have notifies : Pool.step pool.abstraction (.notifyOne thread woken) = _ :=
        if_pos ⟨calls_abstraction progress, mayWake_abstraction mayWake⟩
      rw [← abstraction_wake] at notifies
      exact seen_moveCall notifies
  | @notifyAll thread progress | @notifyAllAndReturn thread progress =>
      right
      refine ⟨.notifyAll thread, ?_⟩
      rw [abstraction_moveCall, abstraction_wakeAll]
      simp only [Pool.step, calls_abstraction progress, Progress.seen]
  | @skip thread worker progress joined =>
      have joined' : pool.abstraction.joined worker = true := joined
      have skips : Pool.step pool.abstraction (.join thread) =
          some (pool.abstraction.setCall thread (.join (worker + 1))) := by
        simp only [Pool.step, calls_abstraction progress, Progress.seen, worker.isLt, dif_pos,
          joined', if_true]
      exact seen_moveCall skips
  | @join thread worker progress joinable exited =>
      right
      have joinable' : pool.abstraction.joined worker = false := joinable
      refine ⟨.join thread, ?_⟩
      rw [abstraction_moveCall]
      simp only [Pool.step, calls_abstraction progress, Progress.seen, worker.isLt, dif_pos,
        joinable', Bool.false_eq_true, if_false, workers_abstraction exited, Point.seen, if_true]
      rfl
  | @returnShutdown thread progress =>
      have returns : Pool.step pool.abstraction (.returnShutdown thread) = _ :=
        if_pos (calls_abstraction progress)
      exact seen_moveCall returns

/-- The pool looks as if its locked parts were steps. -/
theorem refines :
    Refines (step : LockedPool size Thread Task → Action size Thread Task → _) Pool.step
      abstraction Exclusive where
  keeps _ _ _ _ taken exclusive := exclusive.step (step_cases taken)
  simulates _ _ _ taken exclusive := (step_cases taken).simulates exclusive

/-! ## Sleeping on work -/

/-- **No worker sleeps on work.**  In no run of the pool does a task wait in the queue, or the
flag wait to be seen, while all workers that are left are in the wait set and nobody has a
notification to give. -/
theorem never_sleeps {actions : List (Action size Thread Task)}
    (ran : run step new actions = some pool) : ¬pool.Sleeps := by
  intro sleeps
  rcases refines.run ran exclusive_new with ⟨coarseActions, coarseRan⟩
  exact Pool.not_sleeps_of_run coarseRan sleeps.abstraction

/-- Both workers are asleep, a task is queued, and one of them is notified. -/
theorem never_sleeps_wakesOne :
    ∃ pool : LockedPool 2 Nat Nat,
      run step new [.work 0, .work 0, .work 0, .work 1, .work 1, .work 1, .callSubmit 7 5,
        .call 7, .call 7, .call 7, .notifyOne 7 (some 0)] = some pool ∧
      pool.workers 1 = .waiting ∧ pool.tasks = [5] ∧ ¬pool.Sleeps := by
  have ran : ∃ pool : LockedPool 2 Nat Nat,
      run step new [.work 0, .work 0, .work 0, .work 1, .work 1, .work 1, .callSubmit 7 5,
        .call 7, .call 7, .call 7, .notifyOne 7 (some 0)] = some pool ∧
      pool.workers 1 = .waiting ∧ pool.tasks = [5] := ⟨_, rfl, rfl, rfl⟩
  rcases ran with ⟨pool, ran, waiting, tasks⟩
  exact ⟨pool, ran, waiting, tasks, never_sleeps ran⟩

end LockedPool

end PPServer.ThreadPool
