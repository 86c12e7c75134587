import Mathlib.Data.Fin.Basic
import Mathlib.Tactic.Common

/-!
# The thread pool, lock by lock

The same pool with `queue_mutex_` as it is used: a thread that has locked it goes on step by step,
and any other may run in between.  What a worker or a call does next is settled by how far it has
come, so a step is labelled by who makes it; only who wakes up is open.
-/

namespace PPServer.ThreadPool

/-- How far a worker has come in the function that `CreateThread` gives it. -/
inductive Point (Task : Type) where
  /-- It is about to lock the mutex. -/
  | locking
  /-- It has the mutex and is about to test the predicate of the wait. -/
  | checking
  /-- It has the mutex, and the predicate was false. -/
  | blocking
  /-- It is in the wait set of `condition_`. -/
  | waiting
  /-- It is out of the wait set, and the wait is about to lock the mutex. -/
  | relocking
  /-- It has the mutex and is out of the wait. -/
  | passed
  /-- It has the mutex and a task. -/
  | popped (task : Task)
  | holding (task : Task)
  | running (task : Task)
  /-- It has the mutex and returns. -/
  | leaving
  | exited
  deriving DecidableEq, Repr

/-- How far a thread has come in a call. -/
inductive Progress (Task : Type) where
  | none
  /-- `Submit`, about to lock the mutex. -/
  | submitting (task : Task)
  /-- `Submit` with the mutex. -/
  | pushing (task : Task)
  /-- `Submit` with the mutex, which has found the flag set. -/
  | throwing
  /-- `Submit` with the mutex, which has queued its task. -/
  | pushed
  | notifyOne
  /-- `Shutdown`, about to lock the mutex. -/
  | shutdown (waitForCompletion : Bool)
  /-- `Shutdown` with the mutex. -/
  | setting (waitForCompletion : Bool)
  /-- `Shutdown` with the mutex, which has found the flag set. -/
  | returning
  /-- `Shutdown` with the mutex, which has set the flag. -/
  | set (waitForCompletion : Bool)
  | notifyAll (waitForCompletion : Bool)
  /-- `Shutdown` at this element of `threads_`. -/
  | join (next : Nat)
  deriving DecidableEq, Repr

/-- The part of a call that ends when the mutex is unlocked, and what comes next. -/
inductive Unlocks {Task : Type} : Progress Task → Progress Task → Prop where
  | throwing : Unlocks .throwing .none
  | pushed : Unlocks .pushed .notifyOne
  | returning : Unlocks .returning .none
  | set {waitForCompletion : Bool} : Unlocks (.set waitForCompletion) (.notifyAll waitForCompletion)

variable {Task : Type}

/-- The worker has the mutex. -/
def Point.Inside : Point Task → Prop
  | .checking | .blocking | .passed | .popped _ | .leaving => True
  | .locking | .waiting | .relocking | .holding _ | .running _ | .exited => False

/-- The call has the mutex. -/
def Progress.Inside : Progress Task → Prop
  | .pushing _ | .throwing | .pushed | .setting _ | .returning | .set _ => True
  | .none | .submitting _ | .notifyOne | .shutdown _ | .notifyAll _ | .join _ => False

/-- What the worker has found out with the mutex is so. -/
def Point.Fits (shutdown : Bool) (tasks : List Task) : Point Task → Prop
  | .blocking => shutdown = false ∧ tasks = []
  | .passed => shutdown = true ∨ tasks ≠ []
  | .locking | .checking | .waiting | .relocking | .popped _ | .holding _ | .running _
  | .leaving | .exited => True

theorem Point.fits_of_not_inside {point : Point Task} (outside : ¬point.Inside) (shutdown : Bool)
    (tasks : List Task) : point.Fits shutdown tasks := by
  cases point with
  | blocking | passed => exact absurd trivial outside
  | locking | checking | waiting | relocking | popped | holding | running | leaving | exited =>
      exact trivial

theorem Unlocks.inside {before after : Progress Task} (unlocks : Unlocks before after) :
    before.Inside ∧ ¬after.Inside := by
  cases unlocks <;> exact ⟨trivial, id⟩

structure LockedPool (size : Nat) (Thread Task : Type) where
  /-- Who has `queue_mutex_`, a worker or another thread. -/
  owner : Option (Fin size ⊕ Thread)
  tasks : List Task
  shutdown : Bool
  workers : Fin size → Point Task
  joined : Fin size → Bool
  calls : Thread → Progress Task

namespace LockedPool

variable {size : Nat} {Thread Task : Type}

inductive Action (size : Nat) (Thread Task : Type) where
  | work (worker : Fin size)
  /-- The wait ends without a notification. -/
  | wakeSpuriously (worker : Fin size)
  | callSubmit (thread : Thread) (task : Task)
  | callShutdown (thread : Thread) (waitForCompletion : Bool)
  | call (thread : Thread)
  /-- `notify_one`, which takes a worker out of the wait set if there is one. -/
  | notifyOne (thread : Thread) (woken : Option (Fin size))
  deriving DecidableEq, Repr

/-- `ThreadPool::ThreadPool`. -/
def new : LockedPool size Thread Task where
  owner := none
  tasks := []
  shutdown := false
  workers _ := .locking
  joined _ := false
  calls _ := .none

def moveWorker (pool : LockedPool size Thread Task) (worker : Fin size) (point : Point Task) :
    LockedPool size Thread Task :=
  { pool with workers := Function.update pool.workers worker point }

/-- The wait of the chosen worker ends. -/
def wake (pool : LockedPool size Thread Task) : Option (Fin size) → LockedPool size Thread Task
  | some worker => pool.moveWorker worker .relocking
  | none => pool

/-- `notify_one` may choose this worker, or none if no worker waits. -/
def MayWake (pool : LockedPool size Thread Task) : Option (Fin size) → Prop
  | some worker => pool.workers worker = .waiting
  | none => ∀ worker, pool.workers worker ≠ .waiting

instance [DecidableEq Task] (pool : LockedPool size Thread Task) :
    (woken : Option (Fin size)) → Decidable (pool.MayWake woken)
  | some _ => inferInstanceAs (Decidable (_ = _))
  | none => inferInstanceAs (Decidable (∀ _, _))

section Steps

variable [DecidableEq Thread]

def moveCall (pool : LockedPool size Thread Task) (thread : Thread) (progress : Progress Task) :
    LockedPool size Thread Task :=
  { pool with calls := Function.update pool.calls thread progress }

variable [DecidableEq Task]

/-- Every wait ends. -/
def wakeAll (pool : LockedPool size Thread Task) : LockedPool size Thread Task :=
  { pool with
    workers := fun worker =>
      if pool.workers worker = .waiting then .relocking else pool.workers worker }

/-- The next step of a worker, `none` where it has to wait for something. -/
def work (pool : LockedPool size Thread Task) (worker : Fin size) :
    Option (LockedPool size Thread Task) :=
  match pool.workers worker with
  | .locking | .relocking =>
      if pool.owner = none then
        some { pool.moveWorker worker .checking with owner := some (.inl worker) }
      else none
  | .checking =>
      if pool.shutdown = true ∨ pool.tasks ≠ [] then some (pool.moveWorker worker .passed)
      else some (pool.moveWorker worker .blocking)
  | .blocking => some { pool.moveWorker worker .waiting with owner := none }
  | .waiting => none
  | .passed =>
      match pool.tasks with
      | task :: rest => some ({ pool with tasks := rest }.moveWorker worker (.popped task))
      | [] => if pool.shutdown then some (pool.moveWorker worker .leaving) else none
  | .popped task => some { pool.moveWorker worker (.holding task) with owner := none }
  | .holding task => some (pool.moveWorker worker (.running task))
  | .running _ => some (pool.moveWorker worker .locking)
  | .leaving => some { pool.moveWorker worker .exited with owner := none }
  | .exited => none

/-- The next step of a call but for `notify_one`. -/
def call (pool : LockedPool size Thread Task) (thread : Thread) :
    Option (LockedPool size Thread Task) :=
  match pool.calls thread with
  | .none | .notifyOne => none
  | .submitting task =>
      if pool.owner = none then
        some { pool.moveCall thread (.pushing task) with owner := some (.inr thread) }
      else none
  | .pushing task =>
      if pool.shutdown then some (pool.moveCall thread .throwing)
      else some ({ pool with tasks := pool.tasks ++ [task] }.moveCall thread .pushed)
  | .throwing => some { pool.moveCall thread .none with owner := none }
  | .pushed => some { pool.moveCall thread .notifyOne with owner := none }
  | .shutdown waitForCompletion =>
      if pool.owner = none then
        some { pool.moveCall thread (.setting waitForCompletion) with owner := some (.inr thread) }
      else none
  | .setting waitForCompletion =>
      if pool.shutdown then some (pool.moveCall thread .returning)
      else some ({ pool with shutdown := true }.moveCall thread (.set waitForCompletion))
  | .returning => some { pool.moveCall thread .none with owner := none }
  | .set waitForCompletion =>
      some { pool.moveCall thread (.notifyAll waitForCompletion) with owner := none }
  | .notifyAll true => some (pool.wakeAll.moveCall thread (.join 0))
  | .notifyAll false => some (pool.wakeAll.moveCall thread .none)
  | .join next =>
      if inside : next < size then
        if pool.joined ⟨next, inside⟩ then some (pool.moveCall thread (.join (next + 1)))
        else if pool.workers ⟨next, inside⟩ = .exited then
          some ({ pool with joined := Function.update pool.joined ⟨next, inside⟩ true }.moveCall
            thread (.join (next + 1)))
        else none
      else if next = size then some (pool.moveCall thread .none)
      else none

/-- One step, `none` when it is not possible. -/
def step (pool : LockedPool size Thread Task) :
    Action size Thread Task → Option (LockedPool size Thread Task)
  | .work worker => pool.work worker
  | .wakeSpuriously worker =>
      if pool.workers worker = .waiting then some (pool.moveWorker worker .relocking) else none
  | .callSubmit thread task =>
      if pool.calls thread = .none then some (pool.moveCall thread (.submitting task)) else none
  | .callShutdown thread waitForCompletion =>
      if pool.calls thread = .none then some (pool.moveCall thread (.shutdown waitForCompletion))
      else none
  | .call thread => pool.call thread
  | .notifyOne thread woken =>
      if pool.calls thread = .notifyOne ∧ pool.MayWake woken then
        some ((pool.wake woken).moveCall thread .none)
      else none

/-! ## What a step can do -/

/-- The steps, each with the state it starts from and the one it makes. -/
inductive Step (pool : LockedPool size Thread Task) :
    Action size Thread Task → LockedPool size Thread Task → Prop where
  | lock {worker : Fin size} :
      pool.workers worker = .locking ∨ pool.workers worker = .relocking → pool.owner = none →
      Step pool (.work worker) { pool.moveWorker worker .checking with owner := some (.inl worker) }
  | pass {worker : Fin size} : pool.workers worker = .checking →
      pool.shutdown = true ∨ pool.tasks ≠ [] →
      Step pool (.work worker) (pool.moveWorker worker .passed)
  | block {worker : Fin size} : pool.workers worker = .checking → pool.shutdown = false →
      pool.tasks = [] → Step pool (.work worker) (pool.moveWorker worker .blocking)
  | wait {worker : Fin size} : pool.workers worker = .blocking →
      Step pool (.work worker) { pool.moveWorker worker .waiting with owner := none }
  | wakeSpuriously {worker : Fin size} : pool.workers worker = .waiting →
      Step pool (.wakeSpuriously worker) (pool.moveWorker worker .relocking)
  | pop {worker : Fin size} {task : Task} {rest : List Task} :
      pool.workers worker = .passed → pool.tasks = task :: rest →
      Step pool (.work worker) ({ pool with tasks := rest }.moveWorker worker (.popped task))
  | leave {worker : Fin size} : pool.workers worker = .passed → pool.tasks = [] →
      pool.shutdown = true → Step pool (.work worker) (pool.moveWorker worker .leaving)
  | unlock {worker : Fin size} {task : Task} : pool.workers worker = .popped task →
      Step pool (.work worker) { pool.moveWorker worker (.holding task) with owner := none }
  | start {worker : Fin size} {task : Task} : pool.workers worker = .holding task →
      Step pool (.work worker) (pool.moveWorker worker (.running task))
  | finish {worker : Fin size} {task : Task} : pool.workers worker = .running task →
      Step pool (.work worker) (pool.moveWorker worker .locking)
  | exit {worker : Fin size} : pool.workers worker = .leaving →
      Step pool (.work worker) { pool.moveWorker worker .exited with owner := none }
  | callSubmit {thread : Thread} {task : Task} : pool.calls thread = .none →
      Step pool (.callSubmit thread task) (pool.moveCall thread (.submitting task))
  | callShutdown {thread : Thread} {waitForCompletion : Bool} : pool.calls thread = .none →
      Step pool (.callShutdown thread waitForCompletion)
        (pool.moveCall thread (.shutdown waitForCompletion))
  | lockSubmit {thread : Thread} {task : Task} : pool.calls thread = .submitting task →
      pool.owner = none → Step pool (.call thread)
        { pool.moveCall thread (.pushing task) with owner := some (.inr thread) }
  | refuse {thread : Thread} {task : Task} : pool.calls thread = .pushing task →
      pool.shutdown = true → Step pool (.call thread) (pool.moveCall thread .throwing)
  | push {thread : Thread} {task : Task} : pool.calls thread = .pushing task →
      pool.shutdown = false → Step pool (.call thread)
        ({ pool with tasks := pool.tasks ++ [task] }.moveCall thread .pushed)
  | lockShutdown {thread : Thread} {waitForCompletion : Bool} :
      pool.calls thread = .shutdown waitForCompletion → pool.owner = none →
      Step pool (.call thread)
        { pool.moveCall thread (.setting waitForCompletion) with owner := some (.inr thread) }
  | findSet {thread : Thread} {waitForCompletion : Bool} :
      pool.calls thread = .setting waitForCompletion → pool.shutdown = true →
      Step pool (.call thread) (pool.moveCall thread .returning)
  | set {thread : Thread} {waitForCompletion : Bool} :
      pool.calls thread = .setting waitForCompletion → pool.shutdown = false →
      Step pool (.call thread)
        ({ pool with shutdown := true }.moveCall thread (.set waitForCompletion))
  | unlockCall {thread : Thread} {before after : Progress Task} :
      pool.calls thread = before → Unlocks before after →
      Step pool (.call thread) { pool.moveCall thread after with owner := none }
  | notifyOne {thread : Thread} {woken : Option (Fin size)} :
      pool.calls thread = .notifyOne → pool.MayWake woken →
      Step pool (.notifyOne thread woken) ((pool.wake woken).moveCall thread .none)
  | notifyAll {thread : Thread} : pool.calls thread = .notifyAll true →
      Step pool (.call thread) (pool.wakeAll.moveCall thread (.join 0))
  | notifyAllAndReturn {thread : Thread} : pool.calls thread = .notifyAll false →
      Step pool (.call thread) (pool.wakeAll.moveCall thread .none)
  | skip {thread : Thread} {worker : Fin size} : pool.calls thread = .join worker →
      pool.joined worker = true →
      Step pool (.call thread) (pool.moveCall thread (.join (worker + 1)))
  | join {thread : Thread} {worker : Fin size} : pool.calls thread = .join worker →
      pool.joined worker = false → pool.workers worker = .exited →
      Step pool (.call thread)
        ({ pool with joined := Function.update pool.joined worker true }.moveCall thread
          (.join (worker + 1)))
  | returnShutdown {thread : Thread} : pool.calls thread = .join size →
      Step pool (.call thread) (pool.moveCall thread .none)

variable {pool next : LockedPool size Thread Task} {action : Action size Thread Task}

theorem step_work_cases {worker : Fin size} (taken : pool.work worker = some next) :
    Step pool (.work worker) next := by
  cases point : pool.workers worker with
  | locking | relocking =>
      simp only [work, point] at taken
      rcases Option.ite_some_none_eq_some.mp taken with ⟨free, rfl⟩
      exact .lock (by simp [point]) free
  | checking =>
      simp only [work, point] at taken
      split at taken
      next passes => exact Option.some.inj taken ▸ .pass point passes
      next blocks =>
          rw [not_or, Bool.not_eq_true, not_not] at blocks
          exact Option.some.inj taken ▸ .block point blocks.1 blocks.2
  | blocking =>
      simp only [work, point] at taken
      exact Option.some.inj taken ▸ .wait point
  | waiting | exited =>
      simp only [work, point] at taken
      cases taken
  | passed =>
      simp only [work, point] at taken
      split at taken
      next task rest tasks => exact Option.some.inj taken ▸ .pop point tasks
      next empty =>
          rcases Option.ite_some_none_eq_some.mp taken with ⟨set, rfl⟩
          exact .leave point empty set
  | popped task =>
      simp only [work, point] at taken
      exact Option.some.inj taken ▸ .unlock point
  | holding task =>
      simp only [work, point] at taken
      exact Option.some.inj taken ▸ .start point
  | running task =>
      simp only [work, point] at taken
      exact Option.some.inj taken ▸ .finish point
  | leaving =>
      simp only [work, point] at taken
      exact Option.some.inj taken ▸ .exit point

theorem step_call_cases {thread : Thread} (taken : pool.call thread = some next) :
    Step pool (.call thread) next := by
  cases progress : pool.calls thread with
  | none | notifyOne =>
      simp only [call, progress] at taken
      cases taken
  | submitting task =>
      simp only [call, progress] at taken
      rcases Option.ite_some_none_eq_some.mp taken with ⟨free, rfl⟩
      exact .lockSubmit progress free
  | pushing task =>
      simp only [call, progress] at taken
      split at taken
      next set => exact Option.some.inj taken ▸ .refuse progress set
      next unset => exact Option.some.inj taken ▸ .push progress (by simpa using unset)
  | throwing =>
      simp only [call, progress] at taken
      exact Option.some.inj taken ▸ .unlockCall progress .throwing
  | pushed =>
      simp only [call, progress] at taken
      exact Option.some.inj taken ▸ .unlockCall progress .pushed
  | shutdown waitForCompletion =>
      simp only [call, progress] at taken
      rcases Option.ite_some_none_eq_some.mp taken with ⟨free, rfl⟩
      exact .lockShutdown progress free
  | setting waitForCompletion =>
      simp only [call, progress] at taken
      split at taken
      next set => exact Option.some.inj taken ▸ .findSet progress set
      next unset => exact Option.some.inj taken ▸ .set progress (by simpa using unset)
  | returning =>
      simp only [call, progress] at taken
      exact Option.some.inj taken ▸ .unlockCall progress .returning
  | set waitForCompletion =>
      simp only [call, progress] at taken
      exact Option.some.inj taken ▸ .unlockCall progress .set
  | notifyAll waitForCompletion =>
      cases waitForCompletion with
      | true =>
          simp only [call, progress] at taken
          exact Option.some.inj taken ▸ .notifyAll progress
      | false =>
          simp only [call, progress] at taken
          exact Option.some.inj taken ▸ .notifyAllAndReturn progress
  | join number =>
      simp only [call, progress] at taken
      split at taken
      next inside =>
          split at taken
          next joined => exact Option.some.inj taken ▸ .skip progress joined
          next joinable =>
              rcases Option.ite_some_none_eq_some.mp taken with ⟨exited, rfl⟩
              exact .join progress (by simpa using joinable) exited
      next =>
          rcases Option.ite_some_none_eq_some.mp taken with ⟨rfl, rfl⟩
          exact .returnShutdown progress

theorem step_cases (taken : pool.step action = some next) : Step pool action next := by
  cases action with
  | work worker => exact step_work_cases taken
  | wakeSpuriously worker =>
      rcases Option.ite_some_none_eq_some.mp taken with ⟨waiting, rfl⟩
      exact .wakeSpuriously waiting
  | callSubmit thread task =>
      rcases Option.ite_some_none_eq_some.mp taken with ⟨idle, rfl⟩
      exact .callSubmit idle
  | callShutdown thread waitForCompletion =>
      rcases Option.ite_some_none_eq_some.mp taken with ⟨idle, rfl⟩
      exact .callShutdown idle
  | call thread => exact step_call_cases taken
  | notifyOne thread woken =>
      rcases Option.ite_some_none_eq_some.mp taken with ⟨⟨inCall, mayWake⟩, rfl⟩
      exact .notifyOne inCall mayWake

end Steps

/-! ## Who has the mutex -/

variable {pool next : LockedPool size Thread Task}

def Inside (pool : LockedPool size Thread Task) : Fin size ⊕ Thread → Prop
  | .inl worker => (pool.workers worker).Inside
  | .inr thread => (pool.calls thread).Inside

/-- Whoever is inside a locked part has the mutex, and can rely on what it has found there. -/
structure Exclusive (pool : LockedPool size Thread Task) : Prop where
  owner : ∀ agent, pool.Inside agent → pool.owner = some agent
  fits : ∀ worker, (pool.workers worker).Fits pool.shutdown pool.tasks

theorem exclusive_new : Exclusive (new : LockedPool size Thread Task) where
  owner agent inside := by cases agent <;> cases inside
  fits _ := trivial

variable {agent : Fin size ⊕ Thread} {worker : Fin size} {thread : Thread}

theorem Exclusive.unique (exclusive : pool.Exclusive) {other : Fin size ⊕ Thread}
    (inside : pool.Inside agent) (isInside : pool.Inside other) : agent = other :=
  Option.some.inj ((exclusive.owner agent inside).symm.trans (exclusive.owner other isInside))

/-- How the mutex may be handed on by a step of the agent. -/
inductive Hands (pool next : LockedPool size Thread Task) (agent : Fin size ⊕ Thread) : Prop where
  | stays : next.owner = pool.owner → (next.Inside agent → pool.Inside agent) →
      Hands pool next agent
  | locks : pool.owner = none → next.owner = some agent → Hands pool next agent
  | unlocks : pool.Inside agent → ¬next.Inside agent → Hands pool next agent

theorem Exclusive.owner_of_hands (exclusive : pool.Exclusive) (hands : Hands pool next agent)
    (others : ∀ other, other ≠ agent → next.Inside other → pool.Inside other)
    (other : Fin size ⊕ Thread) (inside : next.Inside other) : next.owner = some other := by
  by_cases same : other = agent
  · subst same
    cases hands with
    | stays owner stays => exact owner.trans (exclusive.owner other (stays inside))
    | locks _ locks => exact locks
    | unlocks _ outside => exact absurd inside outside
  · have before := others other same inside
    cases hands with
    | stays owner _ => exact owner.trans (exclusive.owner other before)
    | locks free _ => cases free.symm.trans (exclusive.owner other before)
    | unlocks isInside _ => exact absurd (exclusive.unique before isInside) same

/-- Nobody else relies on the queue and the flag while the agent has the mutex. -/
theorem Exclusive.fits_other (exclusive : pool.Exclusive) (inside : pool.Inside agent)
    {other : Fin size} (differs : .inl other ≠ agent) (shutdown : Bool) (tasks : List Task) :
    (pool.workers other).Fits shutdown tasks :=
  Point.fits_of_not_inside (fun isInside => differs (exclusive.unique isInside inside)) _ _

theorem workers_moveWorker (pool : LockedPool size Thread Task) (worker other : Fin size)
    (point : Point Task) : (pool.moveWorker worker point).workers other =
      if other = worker then point else pool.workers other :=
  Function.update_apply ..

theorem inside_of_point {point : Point Task} (found : pool.workers worker = point)
    (inside : point.Inside) : pool.Inside (.inl worker) := by
  change (pool.workers worker).Inside
  rwa [found]

theorem inside_of_progress {progress : Progress Task} (found : pool.calls thread = progress)
    (inside : progress.Inside) : pool.Inside (.inr thread) := by
  change (pool.calls thread).Inside
  rwa [found]

theorem not_inside_moveWorker {point : Point Task} (outside : ¬point.Inside) :
    ¬(pool.moveWorker worker point).Inside (.inl worker) := by
  change ¬((pool.moveWorker worker point).workers worker).Inside
  rwa [workers_moveWorker, if_pos rfl]

/-- A step of a worker, which changes the queue only if the worker has the mutex. -/
theorem Exclusive.moveWorker (exclusive : pool.Exclusive) {point : Point Task} {tasks : List Task}
    {owner : Option (Fin size ⊕ Thread)}
    (hands : Hands pool { pool.moveWorker worker point with owner, tasks } (.inl worker))
    (fits : point.Fits pool.shutdown tasks)
    (quiet : tasks = pool.tasks ∨ pool.Inside (.inl worker)) :
    Exclusive { pool.moveWorker worker point with owner, tasks } where
  owner := by
    apply exclusive.owner_of_hands hands
    intro other differs inside
    cases other with
    | inl other =>
        have apart : other ≠ worker := fun same => differs (same ▸ rfl)
        have inside' : ((pool.moveWorker worker point).workers other).Inside := inside
        rwa [workers_moveWorker, if_neg apart] at inside'
    | inr thread => exact inside
  fits other := by
    change ((pool.moveWorker worker point).workers other).Fits pool.shutdown tasks
    rw [workers_moveWorker]
    split
    next => exact fits
    next apart =>
        rcases quiet with rfl | inside
        · exact exclusive.fits other
        · exact exclusive.fits_other inside (fun same => apart (Sum.inl.inj same)) _ _

/-- Waking up has nothing to do with the mutex. -/
theorem Exclusive.wake (exclusive : pool.Exclusive) (woken : Option (Fin size)) :
    (pool.wake woken).Exclusive := by
  cases woken with
  | none => exact exclusive
  | some worker =>
      have outside : ¬(pool.moveWorker worker .relocking).Inside (.inl worker) :=
        not_inside_moveWorker id
      exact exclusive.moveWorker (.stays rfl fun inside => absurd inside outside) trivial (.inl rfl)

theorem Exclusive.wakeAll [DecidableEq Task] (exclusive : pool.Exclusive) :
    pool.wakeAll.Exclusive where
  owner agent inside := by
    apply exclusive.owner agent
    cases agent with
    | inl worker =>
        have inside' : (pool.wakeAll.workers worker).Inside := inside
        simp only [LockedPool.wakeAll] at inside'
        split at inside'
        next => exact inside'.elim
        next => exact inside'
    | inr thread => exact inside
  fits worker := by
    simp only [LockedPool.wakeAll]
    split
    next => trivial
    next => exact exclusive.fits worker

variable [DecidableEq Thread]

theorem calls_moveCall (pool : LockedPool size Thread Task) (thread other : Thread)
    (progress : Progress Task) : (pool.moveCall thread progress).calls other =
      if other = thread then progress else pool.calls other :=
  Function.update_apply ..

theorem not_inside_moveCall {progress : Progress Task} (outside : ¬progress.Inside) :
    ¬(pool.moveCall thread progress).Inside (.inr thread) := by
  change ¬((pool.moveCall thread progress).calls thread).Inside
  rwa [calls_moveCall, if_pos rfl]

/-- A step of a call, which changes the queue and the flag only if it has the mutex. -/
theorem Exclusive.moveCall (exclusive : pool.Exclusive) {progress : Progress Task}
    {tasks : List Task} {shutdown : Bool} {joined : Fin size → Bool}
    {owner : Option (Fin size ⊕ Thread)}
    (hands : Hands pool { pool.moveCall thread progress with owner, tasks, shutdown, joined }
      (.inr thread))
    (quiet : (shutdown = pool.shutdown ∧ tasks = pool.tasks) ∨ pool.Inside (.inr thread)) :
    Exclusive { pool.moveCall thread progress with owner, tasks, shutdown, joined } where
  owner := by
    apply exclusive.owner_of_hands hands
    intro other differs inside
    cases other with
    | inl worker => exact inside
    | inr other =>
        have apart : other ≠ thread := fun same => differs (same ▸ rfl)
        have inside' : ((pool.moveCall thread progress).calls other).Inside := inside
        rwa [calls_moveCall, if_neg apart] at inside'
  fits other := by
    rcases quiet with ⟨rfl, rfl⟩ | inside
    · exact exclusive.fits other
    · exact exclusive.fits_other inside Sum.inl_ne_inr _ _

/-- A step of a call outside of the mutex. -/
theorem Exclusive.moveOutside (exclusive : pool.Exclusive) {progress : Progress Task}
    (joined : Fin size → Bool) (outside : ¬progress.Inside) :
    Exclusive ({ pool with joined }.moveCall thread progress) := by
  have notInside : ¬({ pool with joined }.moveCall thread progress).Inside (.inr thread) :=
    not_inside_moveCall outside
  exact exclusive.moveCall (.stays rfl fun inside => absurd inside notInside) (.inl ⟨rfl, rfl⟩)

variable [DecidableEq Task] {action : Action size Thread Task}

theorem Exclusive.step (exclusive : pool.Exclusive) (steps : Step pool action next) :
    next.Exclusive := by
  cases steps with
  | lock _ free => exact exclusive.moveWorker (.locks free rfl) trivial (.inl rfl)
  | pass point passes =>
      have inside := inside_of_point point trivial
      exact exclusive.moveWorker (.stays rfl fun _ => inside) passes (.inl rfl)
  | block point unset empty =>
      have inside := inside_of_point point trivial
      exact exclusive.moveWorker (.stays rfl fun _ => inside) ⟨unset, empty⟩ (.inl rfl)
  | wait point | unlock point | exit point =>
      have inside := inside_of_point point trivial
      exact exclusive.moveWorker (.unlocks inside (not_inside_moveWorker id)) trivial (.inl rfl)
  | @wakeSpuriously worker _ => exact exclusive.wake (some worker)
  | pop point tasks =>
      have inside := inside_of_point point trivial
      exact exclusive.moveWorker (.stays rfl fun _ => inside) trivial (.inr inside)
  | leave point _ _ =>
      have inside := inside_of_point point trivial
      exact exclusive.moveWorker (.stays rfl fun _ => inside) trivial (.inl rfl)
  | start | finish =>
      exact exclusive.moveWorker
        (.stays rfl fun inside => absurd inside (not_inside_moveWorker id)) trivial (.inl rfl)
  | callSubmit | callShutdown | skip | returnShutdown =>
      exact exclusive.moveOutside pool.joined id
  | join => exact exclusive.moveOutside _ id
  | lockSubmit _ free | lockShutdown _ free =>
      exact exclusive.moveCall (.locks free rfl) (.inl ⟨rfl, rfl⟩)
  | refuse progress _ | findSet progress _ =>
      have inside := inside_of_progress progress trivial
      exact exclusive.moveCall (.stays rfl fun _ => inside) (.inl ⟨rfl, rfl⟩)
  | push progress _ | set progress _ =>
      have inside := inside_of_progress progress trivial
      exact exclusive.moveCall (.stays rfl fun _ => inside) (.inr inside)
  | unlockCall progress unlocks =>
      have inside := inside_of_progress progress unlocks.inside.1
      exact exclusive.moveCall (.unlocks inside (not_inside_moveCall unlocks.inside.2))
        (.inl ⟨rfl, rfl⟩)
  | @notifyOne _ woken _ _ => exact (exclusive.wake woken).moveOutside _ id
  | notifyAll | notifyAllAndReturn => exact exclusive.wakeAll.moveOutside _ id

end LockedPool

end PPServer.ThreadPool
