import PPServer.ThreadPool.Settling

/-!
# Who joins the workers

The one `Shutdown` that sets the flag decides whether the workers are joined: when the pool has
come to rest all of them are if this call is one that waits, and none otherwise.  So a pool that
nobody but its destructor shuts down is left without workers, and its destructor always returns.
-/

namespace PPServer.ThreadPool

open PPServer.Transition

namespace LockedPool

variable {size : Nat} {Thread Task : Type} [DecidableEq Thread] [DecidableEq Task]
variable {pool next last : LockedPool size Thread Task} {worker : Fin size} {thread : Thread}
variable {actions : List (Action size Thread Task)} {action : Action size Thread Task}
variable {waitForCompletion : Bool}

/-! ## The call that sets the flag -/

/-- The step in which `Shutdown(waitForCompletion)` sets the flag. -/
def Sets (waitForCompletion : Bool) (pool : LockedPool size Thread Task)
    (action : Action size Thread Task) : Prop :=
  ∃ thread, action = .call thread ∧ pool.calls thread = .setting waitForCompletion ∧
    pool.shutdown = false

/-- The flag is set in the run by `Shutdown(waitForCompletion)`. -/
def SetBy (actions : List (Action size Thread Task)) (waitForCompletion : Bool) : Prop :=
  ∃ pool action next, Takes step new actions pool action next ∧
    pool.Sets waitForCompletion action

theorem Step.shutdown (steps : Step pool action next) (set : pool.shutdown = true) :
    next.shutdown = true := by
  cases steps with
  | @notifyOne _ woken => cases woken <;> exact set
  | set => rfl
  | _ => exact set

/-- Nothing else sets the flag. -/
theorem Step.sets (steps : Step pool action next) (unset : pool.shutdown = false)
    (set : next.shutdown = true) : ∃ waitForCompletion, pool.Sets waitForCompletion action := by
  cases steps with
  | @set thread waitForCompletion found => exact ⟨waitForCompletion, thread, rfl, found, unset⟩
  | @notifyOne _ woken => cases woken <;> cases unset.symm.trans set
  | _ => cases unset.symm.trans set

theorem setBy_of_run (ran : run step new actions = some pool) (set : pool.shutdown = true) :
    ∃ waitForCompletion, SetBy actions waitForCompletion := by
  by_contra none
  have grows (pool : LockedPool size Thread Task) (action : Action size Thread Task)
      (next : LockedPool size Thread Task) (taken : step pool action = some next)
      (unset : pool.shutdown = false)
      (quiet : ∀ waitForCompletion, ¬pool.Sets waitForCompletion action) :
      next.shutdown = false := by
    by_contra set
    rcases (step_cases taken).sets unset (by simpa using set) with ⟨waitForCompletion, sets⟩
    exact quiet waitForCompletion sets
  have quiet (pool : LockedPool size Thread Task) (action : Action size Thread Task)
      (next : LockedPool size Thread Task) (takes : Takes step new actions pool action next)
      (waitForCompletion : Bool) : ¬pool.Sets waitForCompletion action := fun sets =>
    none ⟨waitForCompletion, pool, action, next, takes, sets⟩
  have unset : ∀ visited, Visits step new actions visited → visited.shutdown = false :=
    forall_visits_of_takes rfl grows quiet
  cases (unset pool (visits_last ran)).symm.trans set

/-- What the pool looks like when the call has set the flag. -/
theorem abstraction_of_sets (sets : pool.Sets waitForCompletion action)
    (taken : step pool action = some next) :
    ∃ thread, next.abstraction =
      Pool.setCall { pool.abstraction with shutdown := true } thread
        (.notifyAll waitForCompletion) := by
  rcases sets with ⟨thread, rfl, setting, unset⟩
  refine ⟨thread, ?_⟩
  simp only [step, call, setting, unset, Bool.false_eq_true, if_false] at taken
  rw [← Option.some.inj taken, abstraction_moveCall]
  rfl

/-! ## What becomes of the workers -/

/-- Nobody has joined a worker before the flag is set. -/
theorem unwaited_of_run (ran : run step new actions = some pool) (unset : pool.shutdown = false) :
    Pool.Unwaited { pool.abstraction with shutdown := true } where
  set := rfl
  calls thread joins := by
    have closes : (pool.calls thread).Closes := by
      change Pool.Joins (pool.calls thread).seen at joins
      cases progress : pool.calls thread <;> rw [progress] at joins <;> trivial
    cases unset.symm.trans ((orderly_of_run ran).closing thread closes)
  joined worker := by
    rcases refines.run ran exclusive_new with ⟨coarseActions, coarseRan⟩
    have closing := Pool.closing_of_run coarseRan
    by_contra joined
    have exited := closing.joined worker (by simpa using joined)
    cases unset.symm.trans (closing.exited worker exited).1

/-- When all calls have returned, the workers are joined exactly if the call that has set the flag
waits. -/
theorem SetBy.joined (setBy : SetBy actions waitForCompletion)
    (ran : run step new actions = some last) (returned : ∀ thread, last.calls thread = .none)
    (worker : Fin size) : last.joined worker = waitForCompletion := by
  rcases setBy with ⟨pool, action, next, takes, sets⟩
  rcases takes.visits_next with ⟨before, -, toNext⟩
  rcases takes.run_rest ran with ⟨after, toLast⟩
  have exclusive : next.Exclusive := refines.keeps.run toNext (fun _ _ => trivial) exclusive_new
  rcases refines.run toLast exclusive with ⟨coarseAfter, coarseToLast⟩
  rcases abstraction_of_sets sets takes.taken with ⟨thread, looks⟩
  cases waitForCompletion with
  | true =>
      rcases refines.run toNext exclusive_new with ⟨coarseBefore, coarseToNext⟩
      have waits : next.abstraction.Waits thread := by
        rw [looks]
        exact .inl (Function.update_self ..)
      have allJoined := waits.allJoined (Pool.closing_of_run coarseToNext) coarseToLast
        (calls_abstraction (returned thread))
      exact (allJoined worker).2
  | false =>
      rcases takes.visits with ⟨between, -, toPool⟩
      rcases sets with ⟨-, -, -, unset⟩
      have unwaited : next.abstraction.Unwaited := looks ▸ (unwaited_of_run toPool unset).setCall id
      exact (unwaited.run coarseToLast).joined worker

theorem SetBy.shutdown (setBy : SetBy actions waitForCompletion)
    (ran : run step new actions = some last) : last.shutdown = true := by
  rcases setBy with ⟨pool, action, next, takes, sets⟩
  rcases takes.run_rest ran with ⟨after, toLast⟩
  rcases abstraction_of_sets sets takes.taken with ⟨thread, looks⟩
  have keeps : Keeps step (fun _ => True)
      fun pool : LockedPool size Thread Task => pool.shutdown = true :=
    fun _ _ _ _ taken set => (step_cases taken).shutdown set
  have set : next.abstraction.shutdown = true := by rw [looks]; rfl
  exact keeps.run toLast (fun _ _ => trivial) set

/-- **Who joins the workers.**  If nobody can go on in a state that a run has come to, the pool has
settled.  If it has been shut down, all its workers have been joined if the call that did so waits,
and none of them otherwise. -/
theorem joined_of_stuck (ran : run step new actions = some pool)
    (stuck : Stuck step Action.GoesOn pool) :
    pool.Settled ∧
      (pool.shutdown = true ↔ ∃ waitForCompletion, SetBy actions waitForCompletion) ∧
      ∀ waitForCompletion, SetBy actions waitForCompletion →
        ∀ worker, pool.joined worker = waitForCompletion := by
  have settled := settled_of_stuck ran stuck
  exact ⟨settled, ⟨setBy_of_run ran, fun setBy => setBy.elim fun _ setBy => setBy.shutdown ran⟩,
    fun _ setBy => setBy.joined ran settled.returned⟩

/-- The flag is set by a call that waits. -/
theorem joined_of_stuck_oneTask :
    ∃ pool : LockedPool 1 Unit Nat, run step new oneTask = some pool ∧
      Stuck step Action.GoesOn pool ∧ pool.Settled ∧ SetBy oneTask true ∧
      pool.joined 0 = true := by
  rcases stuck_oneTask with ⟨pool, ran, set, joined, stuck⟩
  have ends := joined_of_stuck ran stuck
  rcases ends.2.1.mp set with ⟨waitForCompletion, setBy⟩
  have waits : true = waitForCompletion := joined.symm.trans (ends.2.2 waitForCompletion setBy 0)
  exact ⟨pool, ran, stuck, ends.1, waits ▸ setBy, joined⟩

/-! ## One call of `Shutdown` -/

/-- The call is that of `Shutdown` until it has the mutex and has looked at the flag. -/
theorem Step.shutdown_of_seen (steps : Step pool action next)
    (seen : (next.calls thread).seen = .shutdown waitForCompletion) :
    (pool.calls thread).seen = .shutdown waitForCompletion ∨
      action = .callShutdown thread waitForCompletion := by
  have moved {other : Thread} {progress : Progress Task}
      (seen : (Function.update pool.calls other progress thread).seen =
        .shutdown waitForCompletion)
      (quiet : progress.seen ≠ .shutdown waitForCompletion) :
      (pool.calls thread).seen = .shutdown waitForCompletion := by
    rw [Function.update_apply] at seen
    split at seen
    next => exact absurd seen quiet
    next => exact seen
  cases steps with
  | wakeSpuriously | lock | pass | block | wait | pop | leave | unlock | start | finish | exit =>
      exact .inl seen
  | callSubmit | lockSubmit | refuse | push | findSet | set | notifyAll | notifyAllAndReturn
  | skip | join | returnShutdown => exact .inl (moved seen nofun)
  | unlockCall _ unlocks => cases unlocks <;> exact .inl (moved seen nofun)
  | @notifyOne _ woken => cases woken <;> exact .inl (moved seen nofun)
  | @lockShutdown other _ found =>
      change (Function.update pool.calls other _ thread).seen = _ at seen
      rw [Function.update_apply] at seen
      split at seen
      next same =>
          left
          rw [same, found]
          exact seen
      next => exact .inl seen
  | @callShutdown other waits =>
      change (Function.update pool.calls other _ thread).seen = _ at seen
      rw [Function.update_apply] at seen
      split at seen
      next same =>
          right
          rw [same, Call.shutdown.inj seen]
      next => exact .inl seen

/-- A call of `Shutdown` that goes on leaves the flag set. -/
theorem Step.seen_shutdown (steps : Step pool action next)
    (seen : (pool.calls thread).seen = .shutdown waitForCompletion) :
    (next.calls thread).seen = .shutdown waitForCompletion ∨ next.shutdown = true := by
  have moved {other : Thread} {before progress : Progress Task}
      (found : pool.calls other = before) (quiet : before.seen ≠ .shutdown waitForCompletion) :
      (Function.update pool.calls other progress thread).seen = .shutdown waitForCompletion := by
    rw [Function.update_of_ne]
    · exact seen
    · rintro rfl
      exact quiet (found ▸ seen)
  cases steps with
  | wakeSpuriously | lock | pass | block | wait | pop | leave | unlock | start | finish | exit =>
      exact .inl seen
  | callSubmit found | callShutdown found | lockSubmit found | refuse found | push found
  | notifyAll found | notifyAllAndReturn found | skip found | join found | returnShutdown found =>
      exact .inl (moved found nofun)
  | unlockCall found unlocks => cases unlocks <;> exact .inl (moved found nofun)
  | @notifyOne _ woken found => cases woken <;> exact .inl (moved found nofun)
  | findSet _ set => exact .inr set
  | set => exact .inr rfl
  | @lockShutdown other _ found =>
      left
      change (Function.update pool.calls other _ thread).seen = _
      rw [Function.update_apply]
      split
      next same =>
          rw [same, found] at seen
          exact seen
      next => exact seen

/-- Every `Shutdown` that is about to look at the flag has been called. -/
def Records (actions : List (Action size Thread Task)) (pool : LockedPool size Thread Task) :
    Prop :=
  ∀ thread waitForCompletion, (pool.calls thread).seen = .shutdown waitForCompletion →
    .callShutdown thread waitForCompletion ∈ actions

theorem Records.step (records : Records actions pool) (steps : Step pool action next) :
    Records (actions ++ [action]) next := by
  intro thread waitForCompletion seen
  rcases steps.shutdown_of_seen seen with before | calls
  · exact List.mem_append_left _ (records thread waitForCompletion before)
  · exact calls ▸ List.mem_append_right _ (List.mem_singleton_self _)

theorem records_of_run (ran : run step new actions = some pool) : Records actions pool := by
  have start : Records [] (new : LockedPool size Thread Task) := fun _ _ seen => by cases seen
  exact run_induction start (fun _ _ _ _ records taken => records.step (step_cases taken)) ran

theorem SetBy.called (setBy : SetBy actions waitForCompletion) :
    ∃ thread, .callShutdown thread waitForCompletion ∈ actions := by
  rcases setBy with ⟨pool, action, next, takes, thread, -, setting, -⟩
  rcases takes.visits with ⟨before, isPrefix, toPool⟩
  have seen : (pool.calls thread).seen = .shutdown waitForCompletion := by rw [setting]; rfl
  exact ⟨thread, isPrefix.subset (records_of_run toPool thread waitForCompletion seen)⟩

theorem shutdown_of_returned (ran : run step new actions = some last)
    (called : .callShutdown thread waitForCompletion ∈ actions)
    (returned : last.calls thread = .none) : last.shutdown = true := by
  rcases exists_takes_of_mem ran called with ⟨pool, next, takes⟩
  rcases takes.run_rest ran with ⟨after, toLast⟩
  have keeps : Keeps step (fun _ => True) fun pool : LockedPool size Thread Task =>
      (pool.calls thread).seen = .shutdown waitForCompletion ∨ pool.shutdown = true := by
    rintro pool action next - taken (seen | set)
    · exact (step_cases taken).seen_shutdown seen
    · exact .inr ((step_cases taken).shutdown set)
  have inCall : (next.calls thread).seen = .shutdown waitForCompletion := by
    cases step_cases takes.taken with
    | callShutdown =>
        change (Function.update pool.calls thread _ thread).seen = _
        rw [Function.update_self]
        rfl
  rcases keeps.run toLast (fun _ _ => trivial) (.inl inCall) with seen | set
  · rw [returned] at seen
    cases seen
  · exact set

/-- If every call of `Shutdown` waits and all have returned, no worker is left. -/
theorem joined_of_returned (ran : run step new actions = some pool)
    (called : .callShutdown thread true ∈ actions)
    (waits : ∀ thread, .callShutdown thread false ∉ actions)
    (returned : ∀ thread, pool.calls thread = .none) (worker : Fin size) :
    pool.joined worker = true := by
  have set := shutdown_of_returned ran called (returned thread)
  rcases setBy_of_run ran set with ⟨waitForCompletion, setBy⟩
  cases waitForCompletion with
  | true => exact setBy.joined ran returned worker
  | false => exact setBy.called.elim fun thread called => absurd called (waits thread)

/-! ## The destructor -/

/-- The threads that are not joined. -/
def unjoined (pool : LockedPool size Thread Task) : Nat :=
  (List.finRange size).countP fun worker => !pool.joined worker

end LockedPool

/-- What becomes of a pool to which nobody gives a task, until its destructor returns. -/
structure Life where
  size : Nat
  /-- The steps before the destructor is called. -/
  idling : List (LockedPool.Action size Unit Empty)
  /-- The steps while the destructor is in `Shutdown(true)`. -/
  closing : List (LockedPool.Action size Unit Empty)

namespace Life

def actions (life : Life) : List (LockedPool.Action life.size Unit Empty) :=
  life.idling ++ .callShutdown () true :: life.closing

/-- No call is made but the destructor's. -/
def Undisturbed (life : Life) : Prop :=
  ∀ action ∈ life.idling ++ life.closing, action.caller = none

instance (life : Life) : Decidable life.Undisturbed :=
  inferInstanceAs (Decidable (∀ action ∈ _, _))

/-- The pool when `ThreadPool::~ThreadPool` has returned. -/
def destroyed (life : Life) : Option (LockedPool life.size Unit Empty) :=
  if life.Undisturbed then
    (run LockedPool.step .new life.actions).filter fun pool => pool.calls () = .none
  else none

theorem destroyed_eq_some_iff {life : Life} {pool : LockedPool life.size Unit Empty} :
    life.destroyed = some pool ↔
      life.Undisturbed ∧ run LockedPool.step .new life.actions = some pool ∧
        pool.calls () = .none := by
  simp only [destroyed, Option.ite_none_right_eq_some, Option.filter_eq_some_iff,
    decide_eq_true_eq]

/-- The destructor leaves no thread. -/
theorem unjoined_destroyed {life : Life} {pool : LockedPool life.size Unit Empty}
    (destroyed : life.destroyed = some pool) : pool.unjoined = 0 := by
  rcases destroyed_eq_some_iff.mp destroyed with ⟨undisturbed, ran, returned⟩
  have waits (thread : Unit) : .callShutdown thread false ∉ life.actions := by
    intro member
    rcases List.mem_append.mp member with idling | closing
    · cases undisturbed _ (List.mem_append_left _ idling)
    · rcases List.mem_cons.mp closing with same | closing
      · cases same
      · cases undisturbed _ (List.mem_append_right _ closing)
  have called : .callShutdown () true ∈ life.actions :=
    List.mem_append_right _ List.mem_cons_self
  have joined := LockedPool.joined_of_returned ran called waits fun _ => returned
  simp [LockedPool.unjoined, joined]

/-- The destructor can always return. -/
theorem exists_destroyed (size : Nat) :
    ∃ (life : Life) (pool : LockedPool life.size Unit Empty),
      life.size = size ∧ life.destroyed = some pool := by
  let called : LockedPool size Unit Empty := LockedPool.new.moveCall () (.shutdown true)
  have calls : run LockedPool.step .new [.callShutdown () true] = some called := rfl
  rcases LockedPool.exists_stuck_of_run calls with ⟨closing, pool, ran, goesOn, stuck⟩
  have ranAll := run_append_iff.mpr ⟨called, calls, ran⟩
  have returned := (LockedPool.settled_of_stuck ranAll stuck).returned ()
  refine ⟨⟨size, [], closing⟩, pool, rfl, destroyed_eq_some_iff.mpr ⟨?_, ranAll, returned⟩⟩
  exact fun action member => (goesOn action member).quiet.1

end Life

end PPServer.ThreadPool
