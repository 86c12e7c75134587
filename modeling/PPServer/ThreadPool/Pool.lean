import PPServer.Library.Transition

/-!
# The thread pool

`ThreadPool` is a queue and a flag under `queue_mutex_`, and workers that wait on `condition_`.
What a thread does while it holds the mutex is one step, with one label for each way it can
end.  Between the steps of a call to `Submit` or `Shutdown` anything can happen, so the state
records the call each thread is in.  The condition variable is its set of waiting workers;
a wait releases the mutex in the step that enters the set, and a worker can leave the set
without being notified.

All threads are taken to be created; their number is the size of `threads_`.  The exception of
a task goes into its future and is left out with the future.
-/

namespace PPServer.ThreadPool

/-- How far a worker has come in the function that `CreateThread` gives it. -/
inductive Worker (Task : Type) where
  /-- It is about to take the mutex and to test the predicate of the wait. -/
  | testing
  /-- It is in the wait set of `condition_`. -/
  | waiting
  /-- It has taken a task out of the queue. -/
  | holding (task : Task)
  | running (task : Task)
  | exited
  deriving DecidableEq, Repr

/-- The call a thread is in, by the step that comes next. -/
inductive Call where
  | none
  /-- `Submit`, which has queued its task. -/
  | notifyOne
  | shutdown (waitForCompletion : Bool)
  /-- `Shutdown`, which has set `shutdown_`. -/
  | notifyAll (waitForCompletion : Bool)
  /-- `Shutdown` at this element of `threads_`. -/
  | join (next : Nat)
  deriving DecidableEq, Repr

structure Pool (size : Nat) (Thread Task : Type) where
  tasks : List Task
  shutdown : Bool
  workers : Fin size → Worker Task
  /-- The worker's `std::thread` is joinable no more. -/
  joined : Fin size → Bool
  calls : Thread → Call

inductive Action (size : Nat) (Thread Task : Type) where
  /-- The predicate of the wait is false. -/
  | wait (worker : Fin size)
  /-- The wait ends without a notification. -/
  | wakeSpuriously (worker : Fin size)
  | exit (worker : Fin size)
  | take (worker : Fin size) (task : Task)
  | start (worker : Fin size) (task : Task)
  | finish (worker : Fin size) (task : Task)
  /-- `Submit` up to the end of its locked part, in which it may throw. -/
  | submit (thread : Thread) (task : Task) (throws : Bool)
  /-- `notify_one`, which takes a worker out of the wait set if there is one. -/
  | notifyOne (thread : Thread) (woken : Option (Fin size))
  | callShutdown (thread : Thread) (waitForCompletion : Bool)
  /-- The locked part of `Shutdown`. -/
  | lockShutdown (thread : Thread)
  | notifyAll (thread : Thread)
  /-- The next pass of the loop over `threads_`. -/
  | join (thread : Thread)
  /-- `Shutdown` returns after that loop. -/
  | returnShutdown (thread : Thread)
  deriving DecidableEq, Repr

namespace Pool

variable {size : Nat} {Thread Task : Type}

/-- `ThreadPool::ThreadPool`. -/
def new : Pool size Thread Task where
  tasks := []
  shutdown := false
  workers _ := .testing
  joined _ := false
  calls _ := .none

def setWorker (pool : Pool size Thread Task) (worker : Fin size) (point : Worker Task) :
    Pool size Thread Task :=
  { pool with workers := Function.update pool.workers worker point }

theorem setWorker_workers (pool : Pool size Thread Task) (worker other : Fin size)
    (point : Worker Task) :
    (pool.setWorker worker point).workers other =
      if other = worker then point else pool.workers other :=
  Function.update_apply ..

theorem exited_setWorker {pool : Pool size Thread Task} {worker : Fin size}
    {before after : Worker Task}
    (known : pool.workers worker = before) (inside : before ≠ .exited) (stays : after ≠ .exited)
    (other : Fin size) :
    (pool.setWorker worker after).workers other = .exited ↔ pool.workers other = .exited := by
  rw [setWorker_workers]
  split
  next same =>
      subst same
      exact iff_of_false stays (known ▸ inside)
  next => rfl

/-- `notify_one` may choose this worker, or none if no worker waits. -/
def MayWake (pool : Pool size Thread Task) : Option (Fin size) → Prop
  | some worker => pool.workers worker = .waiting
  | none => ∀ worker, pool.workers worker ≠ .waiting

/-- The wait of the chosen worker ends. -/
def wake (pool : Pool size Thread Task) : Option (Fin size) → Pool size Thread Task
  | some worker => pool.setWorker worker .testing
  | none => pool

@[simp] theorem wake_tasks (pool : Pool size Thread Task) (woken : Option (Fin size)) :
    (pool.wake woken).tasks = pool.tasks := by
  cases woken <;> rfl

@[simp] theorem wake_shutdown (pool : Pool size Thread Task) (woken : Option (Fin size)) :
    (pool.wake woken).shutdown = pool.shutdown := by
  cases woken <;> rfl

@[simp] theorem wake_joined (pool : Pool size Thread Task) (woken : Option (Fin size)) :
    (pool.wake woken).joined = pool.joined := by
  cases woken <;> rfl

@[simp] theorem wake_calls (pool : Pool size Thread Task) (woken : Option (Fin size)) :
    (pool.wake woken).calls = pool.calls := by
  cases woken <;> rfl

variable [DecidableEq Thread]

instance [DecidableEq Task] (pool : Pool size Thread Task) (woken : Option (Fin size)) :
    Decidable (pool.MayWake woken) := by
  cases woken <;> simp only [MayWake] <;> infer_instance

def setCall (pool : Pool size Thread Task) (thread : Thread) (call : Call) :
    Pool size Thread Task :=
  { pool with calls := Function.update pool.calls thread call }

theorem setCall_calls (pool : Pool size Thread Task) (thread other : Thread) (call : Call) :
    (pool.setCall thread call).calls other = if other = thread then call else pool.calls other :=
  Function.update_apply ..

variable [DecidableEq Task]

/-- Every wait ends. -/
def wakeAll (pool : Pool size Thread Task) : Pool size Thread Task :=
  { pool with
    workers := fun worker =>
      if pool.workers worker = .waiting then .testing else pool.workers worker }

/-- One step of a thread; `none` when it is not where it could make it. -/
def step (pool : Pool size Thread Task) :
    Action size Thread Task → Option (Pool size Thread Task)
  | .wait worker =>
      if pool.workers worker = .testing ∧ pool.shutdown = false ∧ pool.tasks = [] then
        some (pool.setWorker worker .waiting)
      else none
  | .wakeSpuriously worker =>
      if pool.workers worker = .waiting then some (pool.setWorker worker .testing) else none
  | .exit worker =>
      if pool.workers worker = .testing ∧ pool.shutdown = true ∧ pool.tasks = [] then
        some (pool.setWorker worker .exited)
      else none
  | .take worker task =>
      match pool.tasks with
      | front :: rest =>
          if pool.workers worker = .testing ∧ front = task then
            some ({ pool with tasks := rest }.setWorker worker (.holding task))
          else none
      | [] => none
  | .start worker task =>
      if pool.workers worker = .holding task then some (pool.setWorker worker (.running task))
      else none
  | .finish worker task =>
      if pool.workers worker = .running task then some (pool.setWorker worker .testing)
      else none
  | .submit thread task throws =>
      if pool.calls thread = .none then
        match pool.shutdown, throws with
        | true, true => some pool
        | false, false =>
            some ({ pool with tasks := pool.tasks ++ [task] }.setCall thread .notifyOne)
        | _, _ => none
      else none
  | .notifyOne thread woken =>
      if pool.calls thread = .notifyOne ∧ pool.MayWake woken then
        some ((pool.wake woken).setCall thread .none)
      else none
  | .callShutdown thread waitForCompletion =>
      if pool.calls thread = .none then some (pool.setCall thread (.shutdown waitForCompletion))
      else none
  | .lockShutdown thread =>
      match pool.calls thread with
      | .shutdown waitForCompletion =>
          if pool.shutdown then some (pool.setCall thread .none)
          else
            some ({ pool with shutdown := true }.setCall thread (.notifyAll waitForCompletion))
      | _ => none
  | .notifyAll thread =>
      match pool.calls thread with
      | .notifyAll true => some (pool.wakeAll.setCall thread (.join 0))
      | .notifyAll false => some (pool.wakeAll.setCall thread .none)
      | _ => none
  | .join thread =>
      match pool.calls thread with
      | .join next =>
          if inside : next < size then
            if pool.joined ⟨next, inside⟩ then some (pool.setCall thread (.join (next + 1)))
            else if pool.workers ⟨next, inside⟩ = .exited then
              some ({ pool with joined := Function.update pool.joined ⟨next, inside⟩ true }.setCall
                thread (.join (next + 1)))
            else none
          else none
      | _ => none
  | .returnShutdown thread =>
      if pool.calls thread = .join size then some (pool.setCall thread .none) else none

/-! ## What a step can do -/

/-- The steps, each with the state it starts from and the one it makes. -/
inductive Step (pool : Pool size Thread Task) :
    Action size Thread Task → Pool size Thread Task → Prop where
  | wait {worker : Fin size} : pool.workers worker = .testing → pool.shutdown = false →
      pool.tasks = [] → Step pool (.wait worker) (pool.setWorker worker .waiting)
  | wakeSpuriously {worker : Fin size} : pool.workers worker = .waiting →
      Step pool (.wakeSpuriously worker) (pool.setWorker worker .testing)
  | exit {worker : Fin size} : pool.workers worker = .testing → pool.shutdown = true →
      pool.tasks = [] → Step pool (.exit worker) (pool.setWorker worker .exited)
  | take {worker : Fin size} {task : Task} {rest : List Task} :
      pool.workers worker = .testing → pool.tasks = task :: rest →
      Step pool (.take worker task)
        ({ pool with tasks := rest }.setWorker worker (.holding task))
  | start {worker : Fin size} {task : Task} : pool.workers worker = .holding task →
      Step pool (.start worker task) (pool.setWorker worker (.running task))
  | finish {worker : Fin size} {task : Task} : pool.workers worker = .running task →
      Step pool (.finish worker task) (pool.setWorker worker .testing)
  | submit {thread : Thread} {task : Task} : pool.calls thread = .none →
      pool.shutdown = false →
      Step pool (.submit thread task false)
        ({ pool with tasks := pool.tasks ++ [task] }.setCall thread .notifyOne)
  | submitThrows {thread : Thread} {task : Task} : pool.calls thread = .none →
      pool.shutdown = true → Step pool (.submit thread task true) pool
  | notifyOne {thread : Thread} {woken : Option (Fin size)} :
      pool.calls thread = .notifyOne → pool.MayWake woken →
      Step pool (.notifyOne thread woken) ((pool.wake woken).setCall thread .none)
  | callShutdown {thread : Thread} {waitForCompletion : Bool} : pool.calls thread = .none →
      Step pool (.callShutdown thread waitForCompletion)
        (pool.setCall thread (.shutdown waitForCompletion))
  | returnAtOnce {thread : Thread} {waitForCompletion : Bool} :
      pool.calls thread = .shutdown waitForCompletion → pool.shutdown = true →
      Step pool (.lockShutdown thread) (pool.setCall thread .none)
  | setShutdown {thread : Thread} {waitForCompletion : Bool} :
      pool.calls thread = .shutdown waitForCompletion → pool.shutdown = false →
      Step pool (.lockShutdown thread)
        ({ pool with shutdown := true }.setCall thread (.notifyAll waitForCompletion))
  | notifyAll {thread : Thread} : pool.calls thread = .notifyAll true →
      Step pool (.notifyAll thread) (pool.wakeAll.setCall thread (.join 0))
  | notifyAllAndReturn {thread : Thread} : pool.calls thread = .notifyAll false →
      Step pool (.notifyAll thread) (pool.wakeAll.setCall thread .none)
  | skip {thread : Thread} {worker : Fin size} : pool.calls thread = .join worker →
      pool.joined worker = true →
      Step pool (.join thread) (pool.setCall thread (.join (worker + 1)))
  | join {thread : Thread} {worker : Fin size} : pool.calls thread = .join worker →
      pool.joined worker = false → pool.workers worker = .exited →
      Step pool (.join thread)
        ({ pool with joined := Function.update pool.joined worker true }.setCall thread
          (.join (worker + 1)))
  | returnShutdown {thread : Thread} : pool.calls thread = .join size →
      Step pool (.returnShutdown thread) (pool.setCall thread .none)

variable {pool next : Pool size Thread Task} {action : Action size Thread Task}

theorem step_cases (taken : pool.step action = some next) : Step pool action next := by
  cases action with
  | wait worker =>
      rcases Option.ite_some_none_eq_some.mp taken with ⟨⟨testing, unset, empty⟩, rfl⟩
      exact .wait testing unset empty
  | wakeSpuriously worker =>
      rcases Option.ite_some_none_eq_some.mp taken with ⟨waiting, rfl⟩
      exact .wakeSpuriously waiting
  | exit worker =>
      rcases Option.ite_some_none_eq_some.mp taken with ⟨⟨testing, set, empty⟩, rfl⟩
      exact .exit testing set empty
  | take worker task =>
      simp only [step] at taken
      split at taken
      next front rest tasks =>
          rcases Option.ite_some_none_eq_some.mp taken with ⟨⟨testing, rfl⟩, rfl⟩
          exact .take testing tasks
      next => cases taken
  | start worker task =>
      rcases Option.ite_some_none_eq_some.mp taken with ⟨holding, rfl⟩
      exact .start holding
  | finish worker task =>
      rcases Option.ite_some_none_eq_some.mp taken with ⟨running, rfl⟩
      exact .finish running
  | submit thread task throws =>
      rcases Option.ite_none_right_eq_some.mp taken with ⟨idle, locked⟩
      split at locked
      next set => exact Option.some.inj locked ▸ .submitThrows idle set
      next unset => exact Option.some.inj locked ▸ .submit idle unset
      next => cases locked
  | notifyOne thread woken =>
      rcases Option.ite_some_none_eq_some.mp taken with ⟨⟨inCall, mayWake⟩, rfl⟩
      exact .notifyOne inCall mayWake
  | callShutdown thread waitForCompletion =>
      rcases Option.ite_some_none_eq_some.mp taken with ⟨idle, rfl⟩
      exact .callShutdown idle
  | lockShutdown thread =>
      simp only [step] at taken
      split at taken
      next waitForCompletion inCall =>
          split at taken
          next set => exact Option.some.inj taken ▸ .returnAtOnce inCall set
          next unset => exact Option.some.inj taken ▸ .setShutdown inCall (by simpa using unset)
      next => cases taken
  | notifyAll thread =>
      simp only [step] at taken
      split at taken
      next inCall => exact Option.some.inj taken ▸ .notifyAll inCall
      next inCall => exact Option.some.inj taken ▸ .notifyAllAndReturn inCall
      next => cases taken
  | join thread =>
      simp only [step] at taken
      split at taken
      next number inCall =>
          split at taken
          next inside =>
              split at taken
              next joined => exact Option.some.inj taken ▸ .skip inCall joined
              next joinable =>
                  rcases Option.ite_some_none_eq_some.mp taken with ⟨exited, rfl⟩
                  exact .join inCall (by simpa using joinable) exited
          next => cases taken
      next => cases taken
  | returnShutdown thread =>
      rcases Option.ite_some_none_eq_some.mp taken with ⟨inCall, rfl⟩
      exact .returnShutdown inCall

/-! ## One thread, one worker -/

/-- The steps a thread takes through its calls. -/
inductive CallStep (next : Pool size Thread Task) : Call → Call → Prop where
  | submit : CallStep next .none .notifyOne
  | notifyOne : CallStep next .notifyOne .none
  | callShutdown {waitForCompletion : Bool} : CallStep next .none (.shutdown waitForCompletion)
  | returnAtOnce {waitForCompletion : Bool} : CallStep next (.shutdown waitForCompletion) .none
  | setShutdown {waitForCompletion : Bool} :
      CallStep next (.shutdown waitForCompletion) (.notifyAll waitForCompletion)
  | notifyAll : CallStep next (.notifyAll true) (.join 0)
  | notifyAllAndReturn : CallStep next (.notifyAll false) .none
  | join {worker : Fin size} : next.joined worker = true →
      CallStep next (.join worker) (.join (worker + 1))
  | returnShutdown : CallStep next (.join size) .none

omit [DecidableEq Task] in
theorem call_setCall {before after : Call} {thread : Thread} (called : pool.calls thread = before)
    (calls : next.calls = pool.calls) (moves : CallStep (next.setCall thread after) before after)
    (other : Thread) :
    (next.setCall thread after).calls other = pool.calls other ∨
      CallStep (next.setCall thread after) (pool.calls other)
        ((next.setCall thread after).calls other) := by
  rw [setCall_calls]
  split
  next same =>
      subst same
      rw [called]
      exact .inr moves
  next => exact .inl (congrFun calls other)

/-- A step leaves the call of a thread as it is, or is a step of this call. -/
theorem Step.call (steps : Step pool action next) (thread : Thread) :
    next.calls thread = pool.calls thread ∨
      CallStep next (pool.calls thread) (next.calls thread) := by
  cases steps with
  | wait _ _ _ | wakeSpuriously _ | exit _ _ _ | take _ _ | start _ | finish _
  | submitThrows _ _ => exact .inl rfl
  | submit called _ | callShutdown called | returnAtOnce called _ | setShutdown called _
  | notifyAll called | notifyAllAndReturn called | returnShutdown called =>
      apply call_setCall called
      · rfl
      · constructor
  | notifyOne called _ => exact call_setCall called (wake_calls ..) .notifyOne thread
  | skip called joined => exact call_setCall called rfl (.join joined) thread
  | join called _ _ =>
      apply call_setCall called
      · rfl
      · exact .join (Function.update_self ..)

/-- A worker that is joined stays so. -/
theorem Step.joined (steps : Step pool action next) {worker : Fin size}
    (joined : pool.joined worker = true) : next.joined worker = true := by
  cases steps with
  | notifyOne inCall mayWake => exact (congrFun (wake_joined ..) worker).trans joined
  | join inCall joinable exited =>
      simp only [setCall, Function.update_apply]
      split <;> simp [joined]
  | _ => exact joined

/-- A worker is gone after a step if it was before, or if the step is its exit. -/
theorem Step.exited_iff (steps : Step pool action next) (worker : Fin size) :
    next.workers worker = .exited ↔
      pool.workers worker = .exited ∨ action = .exit worker := by
  have quiet : (next.workers worker = .exited ↔ pool.workers worker = .exited) →
      action ≠ .exit worker →
      (next.workers worker = .exited ↔
        pool.workers worker = .exited ∨ action = .exit worker) :=
    fun same other => same.trans (or_iff_left other).symm
  cases steps with
  | wait testing _ _ =>
      exact quiet (exited_setWorker testing (by simp) (by simp) worker) (by simp)
  | wakeSpuriously waiting =>
      exact quiet (exited_setWorker waiting (by simp) (by simp) worker) (by simp)
  | exit testing _ _ =>
      rw [setWorker_workers]
      split
      next same => simp [same]
      next differs => simp [Ne.symm differs]
  | take testing _ =>
      exact quiet (exited_setWorker testing (by simp) (by simp) worker) (by simp)
  | start holding =>
      exact quiet (exited_setWorker holding (by simp) (by simp) worker) (by simp)
  | finish running =>
      exact quiet (exited_setWorker running (by simp) (by simp) worker) (by simp)
  | @notifyOne _ woken _ mayWake =>
      refine quiet ?_ (by simp)
      cases woken with
      | none => rfl
      | some chosen => exact exited_setWorker mayWake (by simp) (by simp) worker
  | notifyAll _ | notifyAllAndReturn _ =>
      refine quiet ?_ (by simp)
      simp only [setCall, wakeAll]
      split
      next waiting => simp [waiting]
      next => rfl
  | submit _ _ | submitThrows _ _ | callShutdown _ | returnAtOnce _ _ | setShutdown _ _
  | skip _ _ | join _ _ _ | returnShutdown _ => exact quiet Iff.rfl (by simp)

end Pool

end PPServer.ThreadPool
