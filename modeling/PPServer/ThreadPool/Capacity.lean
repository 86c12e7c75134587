import PPServer.ThreadPool.Pool

/-!
# The capacity of the queue

The configuration has a capacity of the queue of tasks.  Nothing but the constructor reads the
configuration, and of it only the number of threads to create.
-/

namespace PPServer.ThreadPool

open PPServer.Transition

/-- `ThreadPool::Config_thread_pool`, with the time in seconds. -/
structure ConfigThreadPool where
  coreThreads : Nat := 4
  maxThreads : Nat := 16
  maxTasks : Nat := 1000
  keepAliveTime : Nat := 60

namespace Pool

variable {config : ConfigThreadPool} {Thread Task : Type}

/-- The constructor with a configuration. -/
def ofConfig (config : ConfigThreadPool) : Pool config.coreThreads Thread Task := new

/-- The queue has no more tasks than it has room for. -/
def Fits (config : ConfigThreadPool) (pool : Pool config.coreThreads Thread Task) : Prop :=
  pool.tasks.length ≤ config.maxTasks

/-- There is no room for another task. -/
def Full (config : ConfigThreadPool) (pool : Pool config.coreThreads Thread Task) : Prop :=
  config.maxTasks ≤ pool.tasks.length

variable [DecidableEq Thread] [DecidableEq Task]
variable {pool next : Pool config.coreThreads Thread Task}
variable {action : Action config.coreThreads Thread Task}

/-- What the step needs for the queue to keep to its capacity. -/
def HasRoom (config : ConfigThreadPool) (pool : Pool config.coreThreads Thread Task) :
    Action config.coreThreads Thread Task → Prop
  | .submit _ _ _ => ¬Full config pool ∨ pool.shutdown = true
  | _ => True

/-- Only `Submit` makes the queue longer. -/
theorem Step.fits (steps : Step pool action next) (hasRoom : HasRoom config pool action)
    (fits : Fits config pool) : Fits config next := by
  cases steps with
  | take _ tasks =>
      rw [Fits, tasks, List.length_cons] at fits
      exact Nat.le_of_succ_le fits
  | submit _ unset =>
      have room := hasRoom.resolve_right (by rw [unset]; exact Bool.false_ne_true)
      rw [Full, Nat.not_le] at room
      simp only [Fits, setCall, List.length_append, List.length_singleton]
      exact room
  | @notifyOne thread woken _ _ =>
      have same : ((pool.wake woken).setCall thread .none).tasks = pool.tasks :=
        wake_tasks pool woken
      rwa [Fits, same]
  | _ => exact fits

/-- A `Submit` fails exactly if it finds the flag set, and then it leaves the queue alone. -/
theorem Step.submit_cases {thread : Thread} {task : Task} {throws : Bool}
    (steps : Step pool (.submit thread task throws) next) :
    throws = pool.shutdown ∧ (throws = true → next.tasks = pool.tasks) := by
  cases steps with
  | submit _ unset => exact ⟨unset.symm, fun throws => by cases throws⟩
  | submitThrows _ set => exact ⟨set.symm, fun _ => rfl⟩

/-- The capacity is kept: no state of the run has more tasks, and a `Submit` that finds the queue
full fails and leaves it alone. -/
structure KeepsCapacity (config : ConfigThreadPool)
    (actions : List (Action config.coreThreads Thread Task)) : Prop where
  fits : ∀ visited, Visits step (ofConfig config) actions visited → Fits config visited
  fails : ∀ current thread task throws next,
    Takes step (ofConfig config) actions current (.submit thread task throws) next →
    Full config current → throws = true ∧ next.tasks = current.tasks

/-- **The capacity of the queue is kept exactly as long as it is not needed.**  A run keeps it
exactly if every `Submit` finds room in the queue or the pool shut down. -/
theorem keepsCapacity_iff (config : ConfigThreadPool)
    (actions : List (Action config.coreThreads Thread Task)) :
    KeepsCapacity config actions ↔
      ∀ current thread task throws next,
        Takes step (ofConfig config) actions current (.submit thread task throws) next →
        current.tasks.length < config.maxTasks ∨ current.shutdown = true := by
  constructor
  · intro keeps current thread task throws next takes
    rw [← Nat.not_le]
    by_cases full : Full config current
    · have failed := (keeps.fails current thread task throws next takes full).1
      exact .inr ((step_cases takes.taken).submit_cases.1.symm.trans failed)
    · exact .inl full
  · intro room
    constructor
    case fits =>
      have start : Fits config (ofConfig config : Pool config.coreThreads Thread Task) :=
        Nat.zero_le _
      have grows : ∀ (current : Pool config.coreThreads Thread Task) action next,
          step current action = some next → Fits config current → HasRoom config current action →
            Fits config next :=
        fun current action next taken fits hasRoom => (step_cases taken).fits hasRoom fits
      refine forall_visits_of_takes start grows fun current action next takes => ?_
      cases action with
      | submit thread task throws =>
          exact (room current thread task throws next takes).imp_left Nat.not_le.mpr
      | _ => trivial
    case fails =>
      intro current thread task throws next takes full
      have set := (room current thread task throws next takes).resolve_left (Nat.not_lt.mpr full)
      rcases (step_cases takes.taken).submit_cases with ⟨same, unchanged⟩
      exact ⟨same.trans set, unchanged (same.trans set)⟩

/-- A capacity of one, and two calls of `Submit` while the worker is busy elsewhere. -/
theorem not_keepsCapacity_two :
    ∃ last : Pool 1 Nat Nat,
      run step (ofConfig { coreThreads := 1, maxTasks := 1 })
        [.submit 1 5 false, .submit 2 6 false] = some last ∧ last.tasks.length = 2 ∧
      ¬KeepsCapacity { coreThreads := 1, maxTasks := 1 }
        ([.submit 1 5 false, .submit 2 6 false] : List (Action 1 Nat Nat)) := by
  refine ⟨_, rfl, rfl, fun keeps => ?_⟩
  have fits := keeps.fits _ (visits_last rfl)
  exact Nat.not_succ_le_self 1 fits

end Pool

end PPServer.ThreadPool
