import Mathlib.Algebra.BigOperators.Fin
import Mathlib.Algebra.Order.Group.Multiset
import Mathlib.Tactic.Abel
import PPServer.ThreadPool.Closing

/-!
# Every task runs once, and `Shutdown` drains the queue

Tasks are counted where they can be: in the queue, in the hands of a worker, in progress.
Each step moves them along (`Step.balance`), so the tasks that were queued, taken, started
and finished in a run differ by what is still on the way.  A worker leaves only an empty
queue behind, to which nothing is added any more (`Drained`).
-/

namespace PPServer.ThreadPool

open PPServer.Transition

variable {size : Nat} {Thread Task : Type}

/-! ## Where a task can be -/

namespace Worker

/-- The task the worker has taken and not started. -/
def held : Worker Task → Multiset Task
  | holding task => {task}
  | testing | waiting | running _ | exited => 0

/-- The task the worker is in. -/
def current : Worker Task → Multiset Task
  | running task => {task}
  | testing | waiting | holding _ | exited => 0

end Worker

namespace Action

/-- The task that `Submit` queues. -/
def queued : Action size Thread Task → Option Task
  | submit _ task false => some task
  | _ => none

def taken : Action size Thread Task → Option Task
  | take _ task => some task
  | _ => none

def started : Action size Thread Task → Option Task
  | start _ task => some task
  | _ => none

def finished : Action size Thread Task → Option Task
  | finish _ task => some task
  | _ => none

end Action

namespace Pool

variable {pool next : Pool size Thread Task} {action : Action size Thread Task}

/-- The tasks that are taken and not started. -/
def held (pool : Pool size Thread Task) : Multiset Task :=
  ∑ worker, (pool.workers worker).held

/-- The tasks in progress. -/
def current (pool : Pool size Thread Task) : Multiset Task :=
  ∑ worker, (pool.workers worker).current

/-- A change of one summand. -/
theorem sum_update_add {α : Type} (count : α → Multiset Task) (values : Fin size → α)
    (index : Fin size) (value : α) :
    ∑ other, count (Function.update values index value other) + count (values index) =
      ∑ other, count (values other) + count value := by
  rw [← Finset.add_sum_erase _ _ (Finset.mem_univ index),
    ← Finset.add_sum_erase Finset.univ (fun other => count (values other)) (Finset.mem_univ index)]
  have others :
      ∑ other ∈ Finset.univ.erase index, count (Function.update values index value other) =
        ∑ other ∈ Finset.univ.erase index, count (values other) :=
    Finset.sum_congr rfl fun other member => by
      rw [Function.update_of_ne (Finset.ne_of_mem_erase member)]
  rw [Function.update_self, others]
  abel

/-- What one step does to the tasks on their way. -/
structure Balance (pool : Pool size Thread Task) (action : Action size Thread Task)
    (next : Pool size Thread Task) : Prop where
  tasks : pool.tasks ++ action.queued.toList = action.taken.toList ++ next.tasks
  held : pool.held + action.taken.toList = next.held + action.started.toList
  current : pool.current + action.started.toList = next.current + action.finished.toList

/-- A worker moves from `before` to `after`: what it takes it then holds, and what it starts
it has held. -/
theorem Balance.of_worker {worker : Fin size} {before after : Worker Task}
    (known : pool.workers worker = before)
    (moved : next.workers = Function.update pool.workers worker after)
    (tasks : pool.tasks ++ action.queued.toList = action.taken.toList ++ next.tasks)
    (takes : ↑action.taken.toList = after.held) (lays : ↑action.started.toList = before.held)
    (starts : ↑action.started.toList = after.current)
    (ends : ↑action.finished.toList = before.current) : Balance pool action next where
  tasks := tasks
  held := by
    rw [takes, lays, ← known, Pool.held, Pool.held, moved]
    exact (sum_update_add Worker.held pool.workers worker after).symm
  current := by
    rw [starts, ends, ← known, Pool.current, Pool.current, moved]
    exact (sum_update_add Worker.current pool.workers worker after).symm

/-- No worker gets or loses a task. -/
theorem Balance.of_idle (held : ∀ worker, (next.workers worker).held = (pool.workers worker).held)
    (current : ∀ worker, (next.workers worker).current = (pool.workers worker).current)
    (tasks : pool.tasks ++ action.queued.toList = action.taken.toList ++ next.tasks)
    (takes : action.taken = none) (starts : action.started = none)
    (ends : action.finished = none) : Balance pool action next where
  tasks := tasks
  held := by
    rw [takes, starts]
    exact congrArg (· + 0) (Finset.sum_congr rfl fun worker _ => (held worker).symm)
  current := by
    rw [starts, ends]
    exact congrArg (· + 0) (Finset.sum_congr rfl fun worker _ => (current worker).symm)

theorem wake_idle {woken : Option (Fin size)} (mayWake : pool.MayWake woken)
    (worker : Fin size) :
    ((pool.wake woken).workers worker).held = (pool.workers worker).held ∧
      ((pool.wake woken).workers worker).current = (pool.workers worker).current := by
  cases woken with
  | none => exact ⟨rfl, rfl⟩
  | some chosen =>
      have waiting : pool.workers chosen = .waiting := mayWake
      simp only [wake, setWorker, Function.update_apply]
      split
      next same => rw [same, waiting]; exact ⟨rfl, rfl⟩
      next => exact ⟨rfl, rfl⟩

/-- With all workers gone no task is in their hands. -/
theorem held_eq_zero (gone : ∀ worker, pool.workers worker = .exited) :
    pool.held = 0 ∧ pool.current = 0 := by
  constructor
  · exact Finset.sum_eq_zero fun worker _ => by rw [gone worker]; rfl
  · exact Finset.sum_eq_zero fun worker _ => by rw [gone worker]; rfl

/-! ## The tasks of a run -/

/-- How the tasks queued, taken, started and finished so far differ. -/
structure Accounts (labels : List (Action size Thread Task)) (pool : Pool size Thread Task) :
    Prop where
  /-- Tasks are taken in the order in which they were queued. -/
  tasks : labels.filterMap Action.queued = labels.filterMap Action.taken ++ pool.tasks
  held : ↑(labels.filterMap Action.taken) = ↑(labels.filterMap Action.started) + pool.held
  current : ↑(labels.filterMap Action.started) = ↑(labels.filterMap Action.finished) + pool.current

theorem accounts_new : Accounts [] (new : Pool size Thread Task) where
  tasks := rfl
  held := by simp [Pool.held, new, Worker.held]
  current := by simp [Pool.current, new, Worker.current]

variable [DecidableEq Task]

theorem wakeAll_idle (pool : Pool size Thread Task) (worker : Fin size) :
    (pool.wakeAll.workers worker).held = (pool.workers worker).held ∧
      (pool.wakeAll.workers worker).current = (pool.workers worker).current := by
  simp only [wakeAll]
  split
  next waiting => rw [waiting]; exact ⟨rfl, rfl⟩
  next => exact ⟨rfl, rfl⟩

variable [DecidableEq Thread]

theorem Step.balance (steps : Step pool action next) : Balance pool action next := by
  cases steps with
  | wait testing _ _ | exit testing _ _ =>
      exact .of_worker testing rfl (List.append_nil _) rfl rfl rfl rfl
  | wakeSpuriously waiting => exact .of_worker waiting rfl (List.append_nil _) rfl rfl rfl rfl
  | take testing tasks =>
      exact .of_worker testing rfl ((List.append_nil _).trans tasks) rfl rfl rfl rfl
  | start holding => exact .of_worker holding rfl (List.append_nil _) rfl rfl rfl rfl
  | finish running => exact .of_worker running rfl (List.append_nil _) rfl rfl rfl rfl
  | submit _ _ => exact .of_idle (fun _ => rfl) (fun _ => rfl) rfl rfl rfl rfl
  | notifyOne _ mayWake =>
      exact .of_idle (fun worker => (wake_idle mayWake worker).1)
        (fun worker => (wake_idle mayWake worker).2)
        ((List.append_nil _).trans (wake_tasks pool _).symm) rfl rfl rfl
  | notifyAll _ | notifyAllAndReturn _ =>
      exact .of_idle (fun worker => (pool.wakeAll_idle worker).1)
        (fun worker => (pool.wakeAll_idle worker).2) (List.append_nil _) rfl rfl rfl
  | submitThrows _ _ | callShutdown _ | returnAtOnce _ _ | setShutdown _ _ | skip _ _
  | join _ _ _ | returnShutdown _ =>
      exact .of_idle (fun _ => rfl) (fun _ => rfl) (List.append_nil _) rfl rfl rfl

theorem filterMap_concat {α β : Type} (f : α → Option β) (values : List α) (value : α) :
    (values ++ [value]).filterMap f = values.filterMap f ++ (f value).toList := by
  rw [List.filterMap_append]
  cases image : f value <;> simp [image]

theorem Accounts.step {labels : List (Action size Thread Task)} (accounts : Accounts labels pool)
    (steps : Step pool action next) : Accounts (labels ++ [action]) next where
  tasks := by
    rw [filterMap_concat, filterMap_concat, accounts.tasks, List.append_assoc,
      List.append_assoc, steps.balance.tasks]
  held := by
    rw [filterMap_concat, filterMap_concat, ← Multiset.coe_add, ← Multiset.coe_add,
      accounts.held, add_assoc, steps.balance.held]
    abel
  current := by
    rw [filterMap_concat, filterMap_concat, ← Multiset.coe_add, ← Multiset.coe_add,
      accounts.current, add_assoc, steps.balance.current]
    abel

variable {labels : List (Action size Thread Task)}

theorem accounts_of_run (ran : run step new labels = some pool) : Accounts labels pool :=
  run_induction accounts_new
    (fun _ _ _ _ accounts taken => Accounts.step accounts (step_cases taken)) ran

/-- **Every task runs exactly once.**  In every run tasks are taken in the order in which they
were queued, no task is started more often than it was queued, and `Submit` throws and queues
nothing once the flag is set.  When the `Shutdown(true)` that set it returns, the queue is
empty, and the tasks that have been run are, each counted as often as it was queued, the tasks
that were queued. -/
theorem runs_exactly_once (positive : 0 < size) (ran : run step new labels = some pool) :
    labels.filterMap Action.taken <+: labels.filterMap Action.queued ∧
    (labels.filterMap Action.started).Subperm (labels.filterMap Action.queued) ∧
    (pool.shutdown = true → ∀ thread task throws next,
      pool.step (.submit thread task throws) = some next → throws = true ∧ next = pool) ∧
    ∀ closer next, pool.step (.returnShutdown closer) = some next →
      pool.tasks = [] ∧
        (labels.filterMap Action.finished).Perm (labels.filterMap Action.queued) := by
  have accounts := accounts_of_run ran
  have closing := closing_of_run ran
  refine ⟨⟨pool.tasks, accounts.tasks.symm⟩, ?_, ?_, ?_⟩
  · have started : (labels.filterMap Action.started).Subperm (labels.filterMap Action.taken) := by
      rw [← Multiset.coe_le, accounts.held]
      exact Multiset.le_add_right _ _
    have taken : (labels.filterMap Action.taken).Sublist (labels.filterMap Action.queued) := by
      rw [accounts.tasks]
      exact List.sublist_append_left _ _
    exact started.trans taken.subperm
  · intro set thread task throws next taken
    cases step_cases taken with
    | submitThrows _ _ => exact ⟨rfl, rfl⟩
    | submit _ unset =>
        rw [set] at unset
        cases unset
  · intro closer next taken
    cases step_cases taken with
    | returnShutdown inCall =>
        have gone : ∀ worker, pool.workers worker = .exited := fun worker =>
          closing.joined worker (closing.joining closer size inCall worker worker.isLt)
        have empty : pool.tasks = [] := (closing.exited _ (gone ⟨0, positive⟩)).2
        rcases held_eq_zero gone with ⟨noneHeld, noneRunning⟩
        have ran : ↑(labels.filterMap Action.finished) = (↑(labels.filterMap Action.queued) :
            Multiset Task) := by
          rw [accounts.tasks, empty, List.append_nil, accounts.held, accounts.current, noneHeld,
            noneRunning, add_zero, add_zero]
        exact ⟨empty, Multiset.coe_eq_coe.mp ran⟩

/-- Two workers share two tasks, and leave before the `Shutdown` of thread 3 returns. -/
def twoTasks : List (Action 2 Nat Nat) :=
  [.submit 1 7 false, .notifyOne 1 none, .submit 2 8 false, .take 0 7, .callShutdown 3 true,
    .take 1 8, .notifyOne 2 none, .lockShutdown 3, .start 1 8, .notifyAll 3, .start 0 7,
    .finish 1 8, .exit 1, .submit 1 9 true, .finish 0 7, .exit 0, .join 3, .join 3]

theorem runs_exactly_once_twoTasks :
    ∃ pool : Pool 2 Nat Nat, run step new twoTasks = some pool ∧
      (twoTasks.filterMap Action.taken <+: twoTasks.filterMap Action.queued ∧
      (twoTasks.filterMap Action.started).Subperm (twoTasks.filterMap Action.queued) ∧
      (pool.shutdown = true → ∀ thread task throws next,
        pool.step (.submit thread task throws) = some next → throws = true ∧ next = pool) ∧
      ∀ closer next, pool.step (.returnShutdown closer) = some next →
        pool.tasks = [] ∧
          (twoTasks.filterMap Action.finished).Perm (twoTasks.filterMap Action.queued)) :=
  ⟨_, rfl, runs_exactly_once (by decide) rfl⟩

end Pool

end PPServer.ThreadPool
