import Mathlib.Algebra.Order.BigOperators.Group.Finset
import Mathlib.Data.Fintype.BigOperators
import PPServer.Library.Variant
import PPServer.ThreadPool.LockedParts

/-!
# The pool comes to rest

A call gives the pool only so much to do, and so does a wake-up without a notification: every other
step of a worker or of a call takes the pool nearer to a state in which nobody can go on.  There all
calls have returned, and all tasks have been run; the workers have exited if the pool has been shut
down, and wait otherwise.  So every `Submit` and every `Shutdown` comes to its end, in whatever
order the threads are scheduled, and nobody waits for good for a lock, a notification or a worker.

The calls are made by other threads than the workers, and tasks come to an end.
-/

namespace PPServer.ThreadPool

open PPServer.Transition

variable {size : Nat} {Thread Task : Type}

/-- At most so many steps are left of the worker without another task. -/
def Point.effort : Point Task → Nat
  | .waiting | .exited => 0
  | .blocking | .leaving => 1
  | .passed => 2
  | .checking => 3
  | .locking | .relocking => 4
  | .running _ => 5
  | .holding _ => 6
  | .popped _ => 7

/-- At most so many steps are left of the call, and of what it gives the workers to do. -/
def Progress.effort (size : Nat) : Progress Task → Nat
  | .none => 0
  | .throwing | .returning => 1
  | .notifyOne => 5
  | .pushed => 6
  | .pushing _ => 13
  | .submitting _ => 14
  | .join next => size + 1 - next
  | .notifyAll _ => 5 * size + 2
  | .set _ => 5 * size + 3
  | .setting _ => 5 * size + 4
  | .shutdown _ => 5 * size + 5

/-- The call has set the flag, or found it set by the call that it is. -/
def Progress.Closes : Progress Task → Prop
  | .set _ | .notifyAll _ | .join _ => True
  | .none | .submitting _ | .pushing _ | .throwing | .pushed | .notifyOne | .shutdown _
  | .setting _ | .returning => False

namespace LockedPool

/-- A step that is neither a call from outside nor a spurious wake-up. -/
def Action.GoesOn : Action size Thread Task → Prop
  | .work _ | .call _ | .notifyOne _ _ => True
  | .wakeSpuriously _ | .callSubmit _ _ | .callShutdown _ _ => False

/-- At most so many steps come of this one, the step among them. -/
def Action.credit : Action size Thread Task → Nat
  | .work _ | .call _ | .notifyOne _ _ => 0
  | .wakeSpuriously _ => 5
  | .callSubmit _ _ => 15
  | .callShutdown _ _ => 5 * size + 6

/-- The thread that enters a call. -/
def Action.caller : Action size Thread Task → Option Thread
  | .callSubmit thread _ | .callShutdown thread _ => some thread
  | .work _ | .call _ | .notifyOne _ _ | .wakeSpuriously _ => none

/-- The threads other than these are in no call. -/
def Covers (threads : Finset Thread) (pool : LockedPool size Thread Task) : Prop :=
  ∀ thread, pool.calls thread ≠ .none → thread ∈ threads

def effort (threads : Finset Thread) (pool : LockedPool size Thread Task) : Nat :=
  6 * pool.tasks.length + ∑ worker, (pool.workers worker).effort +
    ∑ thread ∈ threads, (pool.calls thread).effort size

variable {pool next last : LockedPool size Thread Task} {worker : Fin size} {thread : Thread}
variable {threads : Finset Thread}

theorem effort_new : effort threads (new : LockedPool size Thread Task) = 4 * size := by
  simp [effort, new, Point.effort, Progress.effort, Nat.mul_comm]

/-- A step of a worker. -/
theorem effort_moveWorker {point before : Point Task} {tasks : List Task}
    {owner : Option (Fin size ⊕ Thread)} (found : pool.workers worker = before)
    (less : 6 * tasks.length + point.effort < 6 * pool.tasks.length + before.effort) :
    effort threads { pool.moveWorker worker point with owner, tasks } < pool.effort threads := by
  have workers := sum_update_add (Finset.mem_univ worker) Point.effort pool.workers point
  rw [found] at workers
  change 6 * tasks.length + (∑ other, (Function.update pool.workers worker point other).effort) +
    (∑ thread ∈ threads, (pool.calls thread).effort size) < _
  rw [effort]
  omega

/-- The wait of one worker costs four steps when it ends. -/
theorem effort_wake (tasks calls : Nat) (waiting : pool.workers worker = .waiting) :
    6 * tasks + (∑ other, ((pool.moveWorker worker .relocking).workers other).effort) + calls =
      6 * tasks + (∑ other, (pool.workers other).effort) + calls + 4 := by
  have workers := sum_update_add (Finset.mem_univ worker) Point.effort pool.workers .relocking
  rw [waiting, Point.effort, Point.effort] at workers
  change 6 * tasks + (∑ other, (Function.update pool.workers worker .relocking other).effort) +
    calls = _
  omega

/-- The waits cost at most four steps each when they end. -/
theorem effort_wakeAll [DecidableEq Task] (pool : LockedPool size Thread Task) :
    (∑ worker, (pool.wakeAll.workers worker).effort) ≤
      (∑ worker, (pool.workers worker).effort) + 4 * size := by
  have each (worker : Fin size) :
      (pool.wakeAll.workers worker).effort ≤ (pool.workers worker).effort + 4 := by
    simp only [wakeAll]
    split
    next waiting => simp [waiting, Point.effort]
    next => exact Nat.le_add_right _ 4
  calc
    (∑ worker, (pool.wakeAll.workers worker).effort) ≤
        ∑ worker, ((pool.workers worker).effort + 4) :=
      Finset.sum_le_sum fun worker _ => each worker
    _ = (∑ worker, (pool.workers worker).effort) + 4 * size := by
        rw [Finset.sum_add_distrib]
        simp [Nat.mul_comm]

variable [DecidableEq Thread]

/-- A call that is entered. -/
theorem effort_enter {progress : Progress Task} (member : thread ∈ threads)
    (idle : pool.calls thread = .none) :
    (pool.moveCall thread progress).effort threads =
      pool.effort threads + progress.effort size := by
  have calls := sum_update_add member (Progress.effort size) pool.calls progress
  rw [idle] at calls
  change 6 * pool.tasks.length + (∑ worker, (pool.workers worker).effort) +
    (∑ other ∈ threads, (Function.update pool.calls thread progress other).effort size) = _
  rw [effort]
  simp only [Progress.effort] at calls ⊢
  omega

/-- A step of a call. -/
theorem effort_moveCall {progress before : Progress Task} {tasks : List Task} {shutdown : Bool}
    {joined : Fin size → Bool} {owner : Option (Fin size ⊕ Thread)}
    {workers : Fin size → Point Task} (covers : pool.Covers threads)
    (found : pool.calls thread = before) (inCall : before ≠ .none)
    (less : 6 * tasks.length + (∑ worker, (workers worker).effort) + progress.effort size <
      6 * pool.tasks.length + (∑ worker, (pool.workers worker).effort) + before.effort size) :
    effort threads
        { pool.moveCall thread progress with owner, tasks, shutdown, joined, workers } <
      pool.effort threads := by
  have member : thread ∈ threads := covers thread (by rwa [found])
  have calls := sum_update_add member (Progress.effort size) pool.calls progress
  rw [found] at calls
  change 6 * tasks.length + (∑ worker, (workers worker).effort) +
    (∑ other ∈ threads, (Function.update pool.calls thread progress other).effort size) < _
  rw [effort]
  omega

variable [DecidableEq Task] {action : Action size Thread Task}

theorem Step.covers (steps : Step pool action next)
    (called : ∀ thread ∈ action.caller, thread ∈ threads) (covers : pool.Covers threads) :
    next.Covers threads := by
  have moved {thread : Thread} {progress : Progress Task} (member : thread ∈ threads)
      (other : Thread) (inCall : Function.update pool.calls thread progress other ≠ .none) :
      other ∈ threads := by
    by_cases same : other = thread
    · exact same ▸ member
    · exact covers other (by rwa [Function.update_of_ne same] at inCall)
  cases steps with
  | wakeSpuriously | lock | pass | block | wait | pop | leave | unlock | start | finish | exit =>
      exact covers
  | callSubmit | callShutdown => exact moved (called _ rfl)
  | @lockSubmit thread _ found _ | @lockShutdown thread _ found _ | @refuse thread _ found _
  | @findSet thread _ found _ | @push thread _ found _ | @set thread _ found _
  | @notifyAll thread found | @notifyAllAndReturn thread found | @skip thread _ found _
  | @join thread _ found _ _ | @returnShutdown thread found =>
      exact moved (covers thread (by simp [found]))
  | @unlockCall thread _ _ found unlocks =>
      exact moved (covers thread (by cases unlocks <;> simp [found]))
  | @notifyOne thread woken found _ =>
      cases woken <;> exact moved (covers thread (by simp [found]))

/-- Every step leaves less to be done than there was, with what comes from outside. -/
theorem Step.effort_lt (steps : Step pool action next)
    (called : ∀ thread ∈ action.caller, thread ∈ threads) (covers : pool.Covers threads) :
    next.effort threads < pool.effort threads + action.credit := by
  cases steps with
  | wakeSpuriously waiting =>
      have woken := effort_wake pool.tasks.length
        (∑ thread ∈ threads, (pool.calls thread).effort size) waiting
      exact Nat.lt_of_le_of_lt (Nat.le_of_eq woken) (Nat.lt_succ_self _)
  | callSubmit idle | callShutdown idle =>
      rw [effort_enter (called _ rfl) idle]
      simp [Progress.effort, Action.credit]
  | lock found _ =>
      rcases found with found | found <;>
        exact effort_moveWorker found (by simp [Point.effort, moveWorker])
  | pass found _ | block found _ _ | wait found | leave found _ _ | unlock found | start found
  | finish found | exit found =>
      exact effort_moveWorker found (by simp [Point.effort, moveWorker])
  | pop found tasks =>
      refine effort_moveWorker found ?_
      simp only [tasks, List.length_cons, Point.effort]
      omega
  | lockSubmit found _ | lockShutdown found _ | refuse found _ | findSet found _ | set found _ =>
      exact effort_moveCall covers found (by simp) (by simp [Progress.effort, moveCall])
  | push found _ =>
      refine effort_moveCall covers found (by simp) ?_
      simp only [List.length_append, List.length_singleton, Progress.effort]
      omega
  | unlockCall found unlocks =>
      cases unlocks <;>
        exact effort_moveCall covers found (by simp) (by simp [Progress.effort, moveCall])
  | @notifyOne thread woken found mayWake =>
      cases woken with
      | none => exact effort_moveCall covers found (by simp) (by simp [wake, Progress.effort])
      | some worker =>
          refine effort_moveCall covers found (by simp) ?_
          have woken := effort_wake pool.tasks.length 0 mayWake
          exact Nat.lt_of_le_of_lt (Nat.le_of_eq woken) (Nat.lt_succ_self _)
  | notifyAll found | notifyAllAndReturn found =>
      refine effort_moveCall covers found (by simp) ?_
      have woken := pool.effort_wakeAll
      change 6 * pool.tasks.length + (∑ worker, (pool.wakeAll.workers worker).effort) + _ < _
      simp only [Progress.effort]
      omega
  | @skip _ worker found _ | @join _ worker found _ _ =>
      refine effort_moveCall covers found (by simp) ?_
      have inside := worker.isLt
      simp only [Progress.effort]
      omega
  | returnShutdown found => exact effort_moveCall covers found (by simp) (by simp [Progress.effort])

/-! ## How many steps a run has -/

/-- Whoever enters a call is one of these. -/
def Action.Within (threads : Finset Thread) (action : Action size Thread Task) : Prop :=
  ∀ thread ∈ action.caller, thread ∈ threads

theorem keeps_covers :
    Keeps (step : LockedPool size Thread Task → Action size Thread Task → _)
      (Action.Within threads) (Covers threads) :=
  fun _ _ _ called taken covers => (step_cases taken).covers called covers

theorem spends_effort :
    Spends (step : LockedPool size Thread Task → Action size Thread Task → _)
      (Action.Within threads) (Covers threads) (fun _ => 1) Action.credit (effort threads) :=
  fun _ _ _ called taken covers => (step_cases taken).effort_lt called covers

omit [DecidableEq Thread] [DecidableEq Task] in
/-- A step that is not from outside enters no call and brings nothing along. -/
theorem Action.GoesOn.quiet (goesOn : action.GoesOn) :
    action.caller = none ∧ action.credit = 0 := by
  cases action with
  | work | call | notifyOne => exact ⟨rfl, rfl⟩
  | wakeSpuriously | callSubmit | callShutdown => exact goesOn.elim

omit [DecidableEq Thread] [DecidableEq Task] in
theorem Action.GoesOn.within (goesOn : action.GoesOn) : action.Within threads := by
  rw [Action.Within, goesOn.quiet.1]
  exact nofun

variable {actions : List (Action size Thread Task)}

/-- The threads that enter a call. -/
def callers (actions : List (Action size Thread Task)) : Finset Thread :=
  (actions.filterMap Action.caller).toFinset

omit [DecidableEq Task] in
theorem within_callers (action : Action size Thread Task) (member : action ∈ actions) :
    action.Within (callers actions) := by
  intro thread called
  rw [callers, List.mem_toFinset, List.mem_filterMap]
  exact ⟨action, member, called⟩

omit [DecidableEq Thread] [DecidableEq Task] in
theorem covers_new : Covers threads (new : LockedPool size Thread Task) :=
  fun _ inCall => absurd rfl inCall

/-- Whatever has been done, the pool can go on by itself until nobody can. -/
theorem exists_stuck_of_run (ran : run step new actions = some pool) :
    ∃ more last, run step pool more = some last ∧ (∀ action ∈ more, action.GoesOn) ∧
      Stuck step Action.GoesOn last := by
  have covers : pool.Covers (callers actions) := keeps_covers.run ran within_callers covers_new
  have keeps : Keeps (step : LockedPool size Thread Task → Action size Thread Task → _)
      Action.GoesOn (Covers (callers actions)) :=
    fun pool action next goesOn => keeps_covers pool action next goesOn.within
  have spends : Spends (step : LockedPool size Thread Task → Action size Thread Task → _)
      Action.GoesOn (Covers (callers actions)) (fun _ => 1) (fun _ => 0)
      (effort (callers actions)) := by
    intro pool action next goesOn taken covers
    have spent := spends_effort pool action next goesOn.within taken covers
    rwa [goesOn.quiet.2] at spent
  exact spends.exists_stuck keeps covers

/-- **The pool has no more to do than it is given.**  In every run there are no more steps than
four for each worker that starts, and a fixed number for each call and each wake-up without a
notification, however the threads are scheduled. -/
theorem length_le_of_run (ran : run step new actions = some pool) :
    actions.length ≤ 4 * size + (actions.map Action.credit).sum := by
  have spent := spends_effort.sum_le keeps_covers ran within_callers covers_new
  rw [effort_new, List.map_const', List.sum_replicate_nat, Nat.mul_one] at spent
  exact Nat.le_of_add_right_le spent

/-- The worker waits, runs a task and leaves. -/
def oneTask : List (Action 1 Unit Nat) :=
  [.work 0, .work 0, .work 0, .callSubmit () 5, .call (), .call (), .call (),
    .notifyOne () (some 0), .work 0, .work 0, .callShutdown () true, .work 0, .work 0, .call (),
    .work 0, .call (), .call (), .call (), .work 0, .work 0, .work 0, .work 0, .work 0, .call (),
    .call ()]

theorem length_le_of_run_oneTask : oneTask.length ≤ 4 * 1 + (oneTask.map Action.credit).sum := by
  have ran : ∃ pool : LockedPool 1 Unit Nat, run step new oneTask = some pool := ⟨_, rfl⟩
  rcases ran with ⟨pool, ran⟩
  exact length_le_of_run ran

/-! ## Where nobody can go on -/

/-- The mutex is with somebody who will unlock it, and a call that has set the flag goes through
the workers there are. -/
structure Orderly (pool : LockedPool size Thread Task) : Prop where
  inside : ∀ agent, pool.owner = some agent → pool.Inside agent
  closing : ∀ thread, (pool.calls thread).Closes → pool.shutdown = true
  joining : ∀ thread next, pool.calls thread = .join next → next ≤ size

omit [DecidableEq Thread] [DecidableEq Task] in
theorem orderly_new : Orderly (new : LockedPool size Thread Task) where
  inside _ owns := by cases owns
  closing _ closes := closes.elim
  joining _ _ joins := by cases joins

omit [DecidableEq Thread] [DecidableEq Task] in
/-- A step of a worker. -/
theorem Orderly.moveWorker (orderly : pool.Orderly) {point : Point Task} {tasks : List Task}
    {owner : Option (Fin size ⊕ Thread)} (self : owner = some (.inl worker) → point.Inside)
    (others : ∀ agent, agent ≠ .inl worker → owner = some agent → pool.owner = some agent) :
    Orderly { pool.moveWorker worker point with owner, tasks } where
  inside agent owns := by
    by_cases same : agent = .inl worker
    · subst same
      change ((pool.moveWorker worker point).workers worker).Inside
      rw [workers_moveWorker, if_pos rfl]
      exact self owns
    · have before := orderly.inside agent (others agent same owns)
      cases agent with
      | inr thread => exact before
      | inl other =>
          change ((pool.moveWorker worker point).workers other).Inside
          rwa [workers_moveWorker, if_neg fun equal => same (congrArg Sum.inl equal)]
  closing := orderly.closing
  joining := orderly.joining

omit [DecidableEq Thread] [DecidableEq Task] in
/-- A step of a worker that leaves the mutex alone. -/
theorem Orderly.moveOutside (orderly : pool.Orderly) {before point : Point Task}
    (found : pool.workers worker = before) (outside : ¬before.Inside) :
    (pool.moveWorker worker point).Orderly := by
  apply orderly.moveWorker
  case self =>
    intro owns
    have inside : (pool.workers worker).Inside := orderly.inside _ owns
    rw [found] at inside
    exact absurd inside outside
  case others => exact fun _ _ owns => owns

omit [DecidableEq Thread] in
theorem Orderly.wakeAll (orderly : pool.Orderly) : pool.wakeAll.Orderly where
  inside agent owns := by
    have before := orderly.inside agent owns
    cases agent with
    | inr thread => exact before
    | inl worker =>
        change (pool.wakeAll.workers worker).Inside
        simp only [LockedPool.wakeAll]
        split
        next waiting =>
            have inside : (pool.workers worker).Inside := before
            rw [waiting] at inside
            exact inside.elim
        next => exact before
  closing := orderly.closing
  joining := orderly.joining

omit [DecidableEq Task] in
/-- A step of a call. -/
theorem Orderly.moveCall (orderly : pool.Orderly) {progress : Progress Task} {tasks : List Task}
    {shutdown : Bool} {joined : Fin size → Bool} {owner : Option (Fin size ⊕ Thread)}
    (self : owner = some (.inr thread) → progress.Inside)
    (others : ∀ agent, agent ≠ .inr thread → owner = some agent → pool.owner = some agent)
    (set : pool.shutdown = true → shutdown = true) (closes : progress.Closes → shutdown = true)
    (joins : ∀ next, progress = .join next → next ≤ size) :
    Orderly { pool.moveCall thread progress with owner, tasks, shutdown, joined } where
  inside agent owns := by
    by_cases same : agent = .inr thread
    · subst same
      change ((pool.moveCall thread progress).calls thread).Inside
      rw [calls_moveCall, if_pos rfl]
      exact self owns
    · have before := orderly.inside agent (others agent same owns)
      cases agent with
      | inl worker => exact before
      | inr other =>
          change ((pool.moveCall thread progress).calls other).Inside
          rwa [calls_moveCall, if_neg fun equal => same (congrArg Sum.inr equal)]
  closing other closing := by
    change ((pool.moveCall thread progress).calls other).Closes at closing
    rw [calls_moveCall] at closing
    split at closing
    next => exact closes closing
    next => exact set (orderly.closing other closing)
  joining other next joining := by
    change (pool.moveCall thread progress).calls other = .join next at joining
    rw [calls_moveCall] at joining
    split at joining
    next => exact joins next joining
    next => exact orderly.joining other next joining

omit [DecidableEq Task] in
/-- A step of a call that leaves the mutex and the flag alone. -/
theorem Orderly.moveCallOutside (orderly : pool.Orderly) {before progress : Progress Task}
    (joined : Fin size → Bool) (found : pool.calls thread = before) (outside : ¬before.Inside)
    (closes : progress.Closes → pool.shutdown = true)
    (joins : ∀ next, progress = .join next → next ≤ size) :
    Orderly ({ pool with joined }.moveCall thread progress) := by
  apply orderly.moveCall
  case self =>
    intro owns
    have inside : (pool.calls thread).Inside := orderly.inside _ owns
    rw [found] at inside
    exact absurd inside outside
  case others => exact fun _ _ owns => owns
  case set => exact id
  case closes => exact closes
  case joins => exact joins

theorem Orderly.step (orderly : pool.Orderly) (steps : Step pool action next) : next.Orderly := by
  have locks {agent : Fin size ⊕ Thread} (other : Fin size ⊕ Thread) (differs : other ≠ agent)
      (owns : some agent = some other) : pool.owner = some other :=
    absurd (Option.some.inj owns).symm differs
  have stays (agent other : Fin size ⊕ Thread) (_ : other ≠ agent)
      (owns : pool.owner = some other) : pool.owner = some other := owns
  cases steps with
  | lock => exact orderly.moveWorker (fun _ => trivial) locks
  | pass | block | pop | leave => exact orderly.moveWorker (fun _ => trivial) (stays _)
  | wait | unlock | exit => exact orderly.moveWorker nofun nofun
  | wakeSpuriously found | start found | finish found => exact orderly.moveOutside found id
  | callSubmit found => exact orderly.moveCallOutside _ found id nofun nofun
  | callShutdown found => exact orderly.moveCallOutside _ found id nofun nofun
  | lockSubmit | lockShutdown =>
      exact orderly.moveCall (fun _ => trivial) locks id nofun nofun
  | refuse | findSet | push =>
      exact orderly.moveCall (fun _ => trivial) (stays _) id nofun nofun
  | set =>
      exact orderly.moveCall (fun _ => trivial) (stays _) (fun _ => rfl) (fun _ => rfl) nofun
  | @unlockCall thread _ _ found unlocks =>
      have closing := orderly.closing thread
      rw [found] at closing
      cases unlocks with
      | throwing | pushed | returning => exact orderly.moveCall nofun nofun id nofun nofun
      | set => exact orderly.moveCall nofun nofun id closing nofun
  | @notifyOne _ woken found mayWake =>
      cases woken with
      | none => exact orderly.moveCallOutside _ found id nofun nofun
      | some worker =>
          exact (orderly.moveOutside mayWake id).moveCallOutside _ found id nofun nofun
  | @notifyAll thread found =>
      have set := orderly.closing thread (by rw [found]; trivial)
      exact orderly.wakeAll.moveCallOutside _ found id (fun _ => set)
        (fun _ joins => Progress.join.inj joins ▸ Nat.zero_le size)
  | notifyAllAndReturn found => exact orderly.wakeAll.moveCallOutside _ found id nofun nofun
  | @skip thread worker found _ | @join thread worker found _ _ =>
      have set := orderly.closing thread (by rw [found]; trivial)
      exact orderly.moveCallOutside _ found id (fun _ => set)
        (fun _ joins => Progress.join.inj joins ▸ worker.isLt)
  | returnShutdown found => exact orderly.moveCallOutside _ found id nofun nofun

theorem orderly_of_run (ran : run step new actions = some pool) : pool.Orderly := by
  have keeps : Keeps step (fun _ => True) (Orderly : LockedPool size Thread Task → Prop) :=
    fun _ _ _ _ taken orderly => orderly.step (step_cases taken)
  exact keeps.run ran (fun _ _ => trivial) orderly_new

omit [DecidableEq Thread] [DecidableEq Task] in
/-- A worker that cannot go on waits, for a notification, the mutex or nothing. -/
theorem point_of_work_eq_none (none : pool.work worker = none)
    (fits : (pool.workers worker).Fits pool.shutdown pool.tasks) :
    pool.workers worker = .waiting ∨ pool.workers worker = .exited ∨
      ¬(pool.workers worker).Inside ∧ pool.owner ≠ .none := by
  cases found : pool.workers worker with
  | waiting => exact .inl rfl
  | exited => exact .inr (.inl rfl)
  | locking | relocking =>
      simp only [work, found, ite_eq_right_iff, reduceCtorEq] at none
      exact .inr (.inr ⟨id, none⟩)
  | checking =>
      simp only [work, found] at none
      split at none <;> cases none
  | passed =>
      simp only [work, found] at none
      rw [found] at fits
      split at none
      next => cases none
      next empty =>
          have set := fits.resolve_right (not_not.mpr empty)
          rw [if_pos set] at none
          cases none
  | blocking | popped | holding | running | leaving =>
      simp only [work, found] at none
      cases none

/-- A call that cannot go on has returned, or waits for the mutex or for a worker. -/
theorem progress_of_call_eq_none (none : pool.call thread = none)
    (joining : ∀ next, pool.calls thread = .join next → next ≤ size) :
    pool.calls thread = .none ∨ pool.calls thread = .notifyOne ∨
      ¬(pool.calls thread).Inside ∧ pool.owner ≠ .none ∨
        ∃ worker : Fin size, pool.calls thread = .join worker ∧ pool.workers worker ≠ .exited := by
  cases found : pool.calls thread with
  | none => exact .inl rfl
  | notifyOne => exact .inr (.inl rfl)
  | submitting | shutdown =>
      simp only [call, found, ite_eq_right_iff, reduceCtorEq] at none
      exact .inr (.inr (.inl ⟨id, none⟩))
  | pushing | setting =>
      simp only [call, found] at none
      split at none <;> cases none
  | throwing | pushed | returning | set =>
      simp only [call, found] at none
      cases none
  | notifyAll waitForCompletion =>
      cases waitForCompletion <;> simp only [call, found] at none <;> cases none
  | join next =>
      simp only [call, found] at none
      split at none
      next inside =>
          split at none
          next => cases none
          next =>
              simp only [ite_eq_right_iff, reduceCtorEq] at none
              exact .inr (.inr (.inr ⟨⟨next, inside⟩, rfl, none⟩))
      next outside =>
          have last : next = size := Nat.le_antisymm (joining next found) (Nat.not_lt.mp outside)
          rw [if_pos last] at none
          cases none

/-- All calls have returned and all tasks have been run, and the workers do what they should. -/
structure Settled (pool : LockedPool size Thread Task) : Prop where
  free : pool.owner = none
  returned : ∀ thread, pool.calls thread = .none
  gone : pool.shutdown = true → ∀ worker, pool.workers worker = .exited
  waits : pool.shutdown = false → ∀ worker, pool.workers worker = .waiting
  done : 0 < size → pool.tasks = []

omit [DecidableEq Thread] [DecidableEq Task] in
/-- There is always somebody to notify, or nobody who waits. -/
theorem exists_mayWake (pool : LockedPool size Thread Task) : ∃ woken, pool.MayWake woken := by
  by_cases waits : ∃ worker, pool.workers worker = .waiting
  · rcases waits with ⟨worker, waiting⟩
    exact ⟨some worker, waiting⟩
  · exact ⟨none, not_exists.mp waits⟩

/-- Nobody is stuck with the mutex. -/
theorem Orderly.owner_eq_none (orderly : pool.Orderly) (exclusive : pool.Exclusive)
    (stuck : Stuck LockedPool.step Action.GoesOn pool) : pool.owner = none := by
  by_contra owned
  rcases Option.ne_none_iff_exists'.mp owned with ⟨agent, owns⟩
  have inside := orderly.inside agent owns
  cases agent with
  | inl worker =>
      have inside : (pool.workers worker).Inside := inside
      rcases point_of_work_eq_none (stuck (.work worker) trivial) (exclusive.fits worker) with
        waits | gone | ⟨outside, -⟩
      · rwa [waits] at inside
      · rwa [gone] at inside
      · exact outside inside
  | inr thread =>
      have inside : (pool.calls thread).Inside := inside
      rcases progress_of_call_eq_none (stuck (.call thread) trivial) (orderly.joining thread) with
        idle | notifies | ⟨outside, -⟩ | ⟨worker, joins, -⟩
      · rwa [idle] at inside
      · rwa [notifies] at inside
      · exact outside inside
      · rwa [joins] at inside

/-- What nobody can go on from looks like, but for what the pool has been told. -/
structure Stands (pool : LockedPool size Thread Task) : Prop where
  free : pool.owner = none
  workers : ∀ worker, pool.workers worker = .waiting ∨ pool.workers worker = .exited
  calls : ∀ thread, pool.calls thread = .none ∨
    ∃ worker : Fin size, pool.calls thread = .join worker ∧ pool.workers worker ≠ .exited

theorem Orderly.stands (orderly : pool.Orderly) (exclusive : pool.Exclusive)
    (stuck : Stuck LockedPool.step Action.GoesOn pool) : pool.Stands := by
  have free := orderly.owner_eq_none exclusive stuck
  refine ⟨free, fun worker => ?_, fun thread => ?_⟩
  · rcases point_of_work_eq_none (stuck (.work worker) trivial) (exclusive.fits worker) with
      waits | gone | ⟨-, owned⟩
    · exact .inl waits
    · exact .inr gone
    · exact absurd free owned
  · rcases progress_of_call_eq_none (stuck (.call thread) trivial) (orderly.joining thread) with
      idle | notifies | ⟨-, owned⟩ | joins
    · exact .inl idle
    · rcases exists_mayWake pool with ⟨woken, mayWake⟩
      have goesOn : LockedPool.step pool (.notifyOne thread woken) = _ := if_pos ⟨notifies, mayWake⟩
      exact absurd goesOn (stuck.ne_some trivial)
    · exact absurd free owned
    · exact .inr joins

omit [DecidableEq Thread] [DecidableEq Task] in
theorem Stands.not_owes (stands : pool.Stands) (thread : Thread) :
    ¬(pool.abstraction.calls thread).Owes := by
  rcases stands.calls thread with idle | ⟨worker, joins, -⟩
  · rw [calls_abstraction idle]
    exact id
  · rw [calls_abstraction joins]
    exact id

omit [DecidableEq Thread] [DecidableEq Task] in
/-- Nobody waits in a pool that has been shut down. -/
theorem Stands.gone (stands : pool.Stands) (alert : pool.abstraction.Alert)
    (set : pool.shutdown = true) (worker : Fin size) : pool.workers worker = .exited := by
  apply (stands.workers worker).resolve_left
  intro waiting
  rcases alert.closing set worker (workers_abstraction waiting) with
    ⟨thread, waitForCompletion, notifies⟩
  apply stands.not_owes thread
  rw [notifies]
  trivial

/-- **The pool settles.**  If nobody can go on in a state that a run has come to, all calls have
returned and the mutex is free; the workers have exited if the pool has been shut down and wait
otherwise, and if there are any, no task is left. -/
theorem settled_of_stuck (ran : run step new actions = some pool)
    (stuck : Stuck step Action.GoesOn pool) : pool.Settled := by
  have exclusive : pool.Exclusive := refines.keeps.run ran (fun _ _ => trivial) exclusive_new
  rcases refines.run ran exclusive_new with ⟨coarseActions, coarseRan⟩
  have alert := Pool.alert_of_run coarseRan
  have closing := Pool.closing_of_run coarseRan
  have orderly := orderly_of_run ran
  have stands := orderly.stands exclusive stuck
  have returned (thread : Thread) : pool.calls thread = .none := by
    rcases stands.calls thread with idle | ⟨worker, joins, left⟩
    · exact idle
    · have set := orderly.closing thread (by rw [joins]; trivial)
      exact absurd (stands.gone alert set worker) left
  have waits (unset : pool.shutdown = false) (worker : Fin size) :
      pool.workers worker = .waiting := by
    apply (stands.workers worker).resolve_right
    intro exited
    have set : pool.shutdown = true := (closing.exited worker (workers_abstraction exited)).1
    cases unset.symm.trans set
  refine ⟨stands.free, returned, stands.gone alert, waits, fun positive => ?_⟩
  let worker : Fin size := ⟨0, positive⟩
  cases set : pool.shutdown with
  | true =>
      have exited := workers_abstraction (stands.gone alert set worker)
      exact (closing.exited worker exited).2
  | false =>
      by_contra work
      rcases alert.submitted work worker (workers_abstraction (waits set worker)) with
        ⟨other, awake⟩ | ⟨thread, notifies⟩
      · exact awake (workers_abstraction (waits set other))
      · apply stands.not_owes thread
        rw [notifies]
        trivial

theorem stuck_oneTask :
    ∃ pool : LockedPool 1 Unit Nat, run step new oneTask = some pool ∧ pool.shutdown = true ∧
      pool.joined 0 = true ∧ Stuck step Action.GoesOn pool := by
  refine ⟨_, rfl, rfl, rfl, fun action goesOn => ?_⟩
  cases action with
  | work worker =>
      rw [Subsingleton.elim worker 0]
      rfl
  | call | notifyOne => rfl
  | wakeSpuriously | callSubmit | callShutdown => exact goesOn.elim

end LockedPool

end PPServer.ThreadPool
