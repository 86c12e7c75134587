import PPServer.EventLoop.Returning
import PPServer.EventLoop.Timeout

/-!
# No timer is slept over

The loop thread computes its timeout and then enters `epoll_wait`, and other threads register timers
before, between and after.  Here the loop and its timers are put together: a registration changes
the timers and then writes to the eventfd, and `ProcessExpiredTimers` runs where `Run` calls it.
The wait is over in time for every timer there is, or the eventfd ends it.

An exception that leaves `ProcessExpiredTimers` ends the process, so there is no step for it.
-/

namespace PPServer.EventLoop

open Heap Transition

variable {Thread Task : Type}

structure TimedLoop (Thread Task : Type) where
  loop : LoopState Thread Task
  store : TimerState
  /-- What `CalculateNextTimeout` has read from the clock and returned in this round. -/
  timeout : Option (UInt64 × Int32)

inductive TimedAction (Thread Task : Type) where
  | run (action : RunAction Thread Task)
  | calculateNextTimeout (now : UInt64)
  /-- A step of a thread with the timers. -/
  | timers (thread : Thread) (action : Action)

/-- A wait that begins at `clock` with this timeout is over when the timer expires. -/
def Timer.InTime (clock : UInt64) (timeout : Int32) (timer : Timer) : Prop :=
  0 ≤ timeout.toInt ∧ timeout.toInt ≤ max 0 ((timer.expiration.toNat : Int) - clock.toNat)

/-- The timer has expired, or expires within the longest time that fits into an `int`. -/
def Timer.Near (now : UInt64) (timer : Timer) : Prop :=
  timer.expiration ≤ now ∨ (timer.expiration - now).toNat < 2 ^ 31

instance (now : UInt64) (timer : Timer) : Decidable (timer.Near now) :=
  inferInstanceAs (Decidable (_ ∨ _))

theorem TimerState.inTime_of_near {store : TimerState} {now : UInt64}
    (isHeap : IsHeap Timer.Ordered store.timers) (near : ∀ timer ∈ store.timers, timer.Near now)
    (timer : Timer) (member : timer ∈ store.timers) :
    timer.InTime now (store.calculateNextTimeout now) := by
  cases timers : store.timers with
  | nil =>
      rw [timers] at member
      cases member
  | cons front rest =>
      have isFront : front ∈ store.timers := by simp [timers]
      have computed : store.calculateNextTimeout now =
          if front.expiration ≤ now then 0 else castToInt (front.expiration - now) := by
        simp only [calculateNextTimeout, timers]
      have short : front.expiration ≤ now ∨ (front.expiration - now).toNat % 2 ^ 32 < 2 ^ 31 :=
        (near front isFront).imp_right fun less => Nat.lt_of_le_of_lt (Nat.mod_le ..) less
      rcases (inTime_front_iff computed).mpr short with ⟨nonneg, atMost⟩
      have earliest := (earliest_front isHeap timers).2 timer member
      have order : (front.expiration.toNat : Int) ≤ timer.expiration.toNat :=
        Int.ofNat_le.mpr (UInt64.le_iff_toNat_le.mp earliest)
      exact ⟨nonneg, atMost.trans (by omega)⟩

namespace TimedLoop

/-- `EventLoop::EventLoop`. -/
def new : TimedLoop Thread Task where
  loop := .new
  store := .new
  timeout := none

/-- The step of `Run` is possible as far as the timers go; a registration is a step of its own. -/
def Ready (state : TimedLoop Thread Task) : RunAction Thread Task → Prop
  | .loop .enterWait => state.timeout.isSome = true
  | .loop .finishTimers => state.store.phase = .outside
  | .thread _ .registerTimer => False
  | _ => True

instance (state : TimedLoop Thread Task) (action : RunAction Thread Task) :
    Decidable (state.Ready action) := by
  unfold Ready
  split <;> infer_instance

variable [DecidableEq Thread] [DecidableEq Task] (heap : HeapAlgorithms Timer.Ordered)
variable (owner : Thread)

/-- `RunAfter` and `RunEvery` with what they do to the timers, and the call that is left of them. -/
def register (state : TimedLoop Thread Task) (thread : Thread) (action : Action) :
    Option (TimedLoop Thread Task) := do
  let loop ← state.loop.step owner (.thread thread .registerTimer)
  let store ← state.store.step heap action
  return { state with loop, store }

/-- One step, `none` when it is not possible. -/
def step (state : TimedLoop Thread Task) :
    TimedAction Thread Task → Option (TimedLoop Thread Task)
  | .run action =>
      if state.Ready action then
        (state.loop.step owner action).map fun loop =>
          { state with
            loop
            timeout := if action = .loop .testRunning then none else state.timeout }
      else none
  | .calculateNextTimeout now =>
      if state.loop.point = .polling ∧ state.timeout = none then
        some { state with timeout := some (now, state.store.calculateNextTimeout now) }
      else none
  | .timers thread (.runAfter clock delayMs returned) =>
      state.register heap owner thread (.runAfter clock delayMs returned)
  | .timers thread (.runEvery clock intervalMs returned) =>
      state.register heap owner thread (.runEvery clock intervalMs returned)
  | .timers thread (.cancelTimer timerId) =>
      if thread = owner → state.loop.point.Yields then
        (state.store.step heap (.cancelTimer timerId)).map ({ state with store := · })
      else none
  | .timers _ .unwind => none
  | .timers thread action =>
      if thread = owner ∧ state.loop.point = .timers then
        (state.store.step heap action).map ({ state with store := · })
      else none

variable {heap owner} {state next last : TimedLoop Thread Task} {action : TimedAction Thread Task}

/-- The steps, each with the state it starts from and the one it makes. -/
inductive Step (heap : HeapAlgorithms Timer.Ordered) (owner : Thread)
    (state : TimedLoop Thread Task) :
    TimedAction Thread Task → TimedLoop Thread Task → Prop where
  | run {action : RunAction Thread Task} {loop : LoopState Thread Task} : state.Ready action →
      state.loop.step owner action = some loop →
      Step heap owner state (.run action)
        { state with
          loop
          timeout := if action = .loop .testRunning then none else state.timeout }
  | calculateNextTimeout {now : UInt64} : state.loop.point = .polling → state.timeout = none →
      Step heap owner state (.calculateNextTimeout now)
        { state with timeout := some (now, state.store.calculateNextTimeout now) }
  | register {thread : Thread} {action : Action} {loop : LoopState Thread Task}
      {store : TimerState} :
      state.loop.step owner (.thread thread .registerTimer) = some loop →
      state.store.step heap action = some store →
      Step heap owner state (.timers thread action) { state with loop, store }
  | cancelTimer {thread : Thread} {timerId : UInt64} :
      Step heap owner state (.timers thread (.cancelTimer timerId))
        { state with store := state.store.cancelTimer heap timerId }
  | processExpired {action : Action} {store : TimerState} : state.loop.point = .timers →
      state.store.step heap action = some store →
      Step heap owner state (.timers owner action) { state with store }

theorem step_register_cases {thread : Thread} {action : Action}
    (taken : state.register heap owner thread action = some next) :
    Step heap owner state (.timers thread action) next := by
  rcases Option.bind_eq_some_iff.mp taken with ⟨loop, called, taken⟩
  rcases Option.bind_eq_some_iff.mp taken with ⟨store, registered, taken⟩
  exact Option.some.inj taken ▸ .register called registered

theorem step_cases (taken : step heap owner state action = some next) :
    Step heap owner state action next := by
  cases action with
  | run action =>
      rcases Option.ite_none_right_eq_some.mp taken with ⟨ready, mapped⟩
      rcases Option.map_eq_some_iff.mp mapped with ⟨loop, goesOn, rfl⟩
      exact .run ready goesOn
  | calculateNextTimeout now =>
      rcases Option.ite_some_none_eq_some.mp taken with ⟨⟨polling, first⟩, rfl⟩
      exact .calculateNextTimeout polling first
  | timers thread action =>
      cases action with
      | runAfter | runEvery => exact step_register_cases taken
      | cancelTimer timerId =>
          rcases Option.ite_none_right_eq_some.mp taken with ⟨-, mapped⟩
          cases mapped
          exact .cancelTimer
      | unwind => cases taken
      | enter | takeExpired | startCallback | finishCallback | leave =>
          rcases Option.ite_none_right_eq_some.mp taken with ⟨⟨rfl, point⟩, mapped⟩
          rcases Option.map_eq_some_iff.mp mapped with ⟨store, processes, rfl⟩
          exact .processExpired point processes

/-! ## What the wait is over for -/

/-- The eventfd has been written to, or a thread is about to for the timer it has registered. -/
def Wakes (loop : LoopState Thread Task) : Prop :=
  0 < loop.eventFd ∨ ∃ thread, loop.calls thread = .registerTimer

/-- The wait that is about to begin, or has begun, is in time for the timers or ended otherwise. -/
structure Watchful (state : TimedLoop Thread Task) : Prop where
  isHeap : IsHeap Timer.Ordered state.store.timers
  computed : state.loop.point = .waiting → state.timeout.isSome = true
  inTime : ∀ clock timeout, state.timeout = some (clock, timeout) → state.loop.point.Sleeps →
    ∀ timer ∈ state.store.timers, timer.InTime clock timeout ∨ Wakes state.loop

omit [DecidableEq Thread] [DecidableEq Task] in
theorem watchful_new : Watchful (new : TimedLoop Thread Task) where
  isHeap := isHeap_nil
  computed waiting := by cases waiting
  inTime _ _ computed := by cases computed

omit [DecidableEq Thread] in
/-- The timers do not change while the loop thread takes a step in `Run`. -/
theorem Watchful.loopStep (watchful : state.Watchful) {action : LoopAction Task}
    {loop : LoopState Thread Task} (ready : state.Ready (.loop action))
    (steps : LoopState.LoopStep state.loop action loop) :
    Watchful { state with
      loop
      timeout := if action = .testRunning then none else state.timeout } where
  isHeap := watchful.isHeap
  computed waiting := by
    cases steps with
    | alreadyRunning => exact watchful.computed waiting
    | enterWait => exact ready
    | _ => cases waiting
  inTime clock timeout computed sleeps := by
    cases steps with
    | alreadyRunning point =>
        rw [point] at sleeps
        exact sleeps.elim
    | goOn => cases computed
    | enterWait point => exact watchful.inTime clock timeout computed (by rw [point]; trivial)
    | _ => exact sleeps.elim

omit [DecidableEq Task] in
/-- A call of another kind leaves the timers alone. -/
theorem Watchful.threadStep (watchful : state.Watchful) {thread : Thread}
    {action : ThreadAction Task} {loop : LoopState Thread Task}
    (ready : state.Ready (.thread thread action))
    (steps : LoopState.ThreadStep state.loop thread action loop) :
    Watchful { state with loop } where
  isHeap := watchful.isHeap
  computed waiting := watchful.computed (steps.point.symm.trans waiting)
  inTime clock timeout computed sleeps timer member := by
    rw [steps.point] at sleeps
    refine (watchful.inTime clock timeout computed sleeps timer member).imp_right fun wakes => ?_
    cases steps with
    | registerTimer => exact ready.elim
    | wakeUp => exact .inl (wakeUp_pos _)
    | pushTask idle | clearRunning idle =>
        refine wakes.imp_right fun ⟨other, registers⟩ => ?_
        refine ⟨other, (LoopState.setCall_calls_of_ne ?_ ..).trans registers⟩
        intro same
        rw [same, idle] at registers
        cases registers

/-- The timers expire within the longest time that fits into an `int`, where that matters. -/
def Near (state : TimedLoop Thread Task) : TimedAction Thread Task → Prop
  | .calculateNextTimeout now => ∀ timer ∈ state.store.timers, timer.Near now
  | .run _ | .timers _ _ => True

theorem Watchful.step (watchful : state.Watchful) (steps : Step heap owner state action next)
    (near : state.Near action) : next.Watchful := by
  cases steps with
  | @run action loop ready taken =>
      cases action with
      | loop action =>
          have kept := watchful.loopStep ready (LoopState.step_loop_iff.mp taken).2
          simpa using kept
      | thread thread action =>
          have kept := watchful.threadStep ready (LoopState.step_thread_iff.mp taken).2
          simpa using kept
  | @calculateNextTimeout now polling first =>
      refine ⟨watchful.isHeap, fun _ => rfl, fun clock timeout computed _ timer member => ?_⟩
      cases computed
      exact .inl (TimerState.inTime_of_near watchful.isHeap near timer member)
  | @register thread action loop store called registered =>
      have steps := (LoopState.step_thread_iff.mp called).2
      have isHeap := TimerState.keeps_isHeap _ _ _ trivial registered watchful.isHeap
      have point := steps.point
      have registers : loop.calls thread = .registerTimer := by
        cases steps
        exact LoopState.setCall_calls_self ..
      exact ⟨isHeap, fun waiting => watchful.computed (point.symm.trans waiting),
        fun _ _ _ _ _ _ => .inr (.inr ⟨thread, registers⟩)⟩
  | @cancelTimer thread timerId =>
      refine ⟨TimerState.isHeap_cancelTimer watchful.isHeap, watchful.computed, ?_⟩
      intro clock timeout computed sleeps timer member
      have before : timer ∈ state.store.timers :=
        List.mem_of_mem_eraseP (TimerState.perm_cancelTimer.mem_iff.mp member)
      exact watchful.inTime clock timeout computed sleeps timer before
  | @processExpired action store point taken =>
      have isHeap := TimerState.keeps_isHeap _ _ _ trivial taken watchful.isHeap
      refine ⟨isHeap, watchful.computed, fun _ _ _ sleeps => ?_⟩
      have sleeps : state.loop.point.Sleeps := sleeps
      rw [point] at sleeps
      exact sleeps.elim

variable {actions : List (TimedAction Thread Task)}

/-- **No timer is slept over.**  Whenever the loop thread is in `epoll_wait`, its timeout is in time
for every timer there is, those of other threads among them, or the eventfd has been written to, or
a thread is about to write to it for the timer that it has registered. -/
theorem inTime_of_run (ran : run (step heap owner) new actions = some state)
    (near : ∀ current action next, Takes (step heap owner) new actions current action next →
      current.Near action)
    (waits : state.loop.point = .waiting) :
    ∃ clock timeout, state.timeout = some (clock, timeout) ∧
      ∀ timer ∈ state.store.timers, timer.InTime clock timeout ∨ Wakes state.loop := by
  have grows (current : TimedLoop Thread Task) (action : TimedAction Thread Task)
      (next : TimedLoop Thread Task) (taken : step heap owner current action = some next)
      (watchful : current.Watchful) (near : current.Near action) : next.Watchful :=
    watchful.step (step_cases taken) near
  have watchful := forall_visits_of_takes watchful_new grows near state (visits_last ran)
  rcases Option.isSome_iff_exists.mp (watchful.computed waits) with ⟨⟨clock, timeout⟩, computed⟩
  exact ⟨clock, timeout, computed,
    watchful.inTime clock timeout computed (by rw [waits]; trivial)⟩

/-- Thread 1 registers a timer between the computation of the timeout and the wait. -/
def registersBetween : List (TimedAction Nat Nat) :=
  [.run (.loop .callRun), .run (.loop .setRunning), .run (.loop .testRunning),
    .timers 2 (.runAfter 0 500 1), .run (.thread 2 .wakeUp), .calculateNextTimeout 100,
    .timers 1 (.runAfter 150 10 2), .run (.loop .enterWait)]

theorem inTime_of_run_registersBetween :
    ∃ state, run (step (.sorting Timer.Ordered) 0) new registersBetween = some state ∧
      state.store.timers.length = 2 ∧
      ∃ clock timeout, state.timeout = some (clock, timeout) ∧
        ∀ timer ∈ state.store.timers, timer.InTime clock timeout ∨ Wakes state.loop := by
  have ran : ∃ state, run (step (.sorting Timer.Ordered) 0) new registersBetween = some state ∧
      state.store.timers.length = 2 ∧ state.loop.point = .waiting := ⟨_, rfl, rfl, rfl⟩
  have near : ∀ current action next,
      Takes (step (.sorting Timer.Ordered) 0) new registersBetween current action next →
        current.Near action := by
    have soon : ∀ timer ∈ ([⟨1, 500, 0, false⟩] : List Timer), timer.Near 100 := by decide
    refine forall_takes_cons rfl trivial (forall_takes_cons rfl trivial ?_)
    refine forall_takes_cons rfl trivial (forall_takes_cons rfl trivial ?_)
    refine forall_takes_cons rfl trivial (forall_takes_cons rfl soon ?_)
    refine forall_takes_cons rfl trivial (forall_takes_cons rfl trivial ?_)
    rintro current action next ⟨before, isPrefix, -⟩
    simp at isPrefix
  rcases ran with ⟨state, ran, two, waits⟩
  exact ⟨state, ran, two, inTime_of_run ran near waits⟩

end TimedLoop

end PPServer.EventLoop
