import PPServer.EventLoop.Timers

/-!
# The timers stay a heap

Each operation is described by what it does to the timers as a collection, up to the order
in which the vector holds them.  The heap algorithms promise nothing about a vector that is
no heap, so the descriptions ask for one, and every step leaves one behind.
-/

namespace PPServer.EventLoop.TimerState

open PPServer.Heap PPServer.Transition

variable {heap : HeapAlgorithms Timer.Ordered} {loop next : TimerState} {timer : Timer}
variable {timerId now : UInt64}

/-! ## What a step can do -/

theorem step_runAfter_iff {clock delayMs returned : UInt64} :
    step heap loop (.runAfter clock delayMs returned) = some next ↔
      loop.runAfter heap clock delayMs = (returned, next) := by
  simp [step, Prod.ext_iff]

theorem step_runEvery_iff {clock intervalMs returned : UInt64} :
    step heap loop (.runEvery clock intervalMs returned) = some next ↔
      loop.runEvery heap clock intervalMs = (returned, next) := by
  simp [step, Prod.ext_iff]

theorem step_enter_iff :
    step heap loop (.enter now) = some next ↔
      loop.phase = .outside ∧ { loop with phase := .entered now } = next := by
  simp only [step]
  cases loop.phase <;> simp

theorem step_takeExpired_iff :
    step heap loop .takeExpired = some next ↔
      ∃ now, loop.phase = .entered now ∧ loop.takeExpired heap now = next := by
  simp only [step]
  cases loop.phase <;> simp

theorem step_startCallback_iff :
    step heap loop (.startCallback timerId) = some next ↔
      ∃ now timer rest, loop.phase = .serving now (timer :: rest) ∧ timer.id = timerId ∧
        { loop with phase := .running now timer rest } = next := by
  simp only [step]
  cases loop.phase with
  | serving now batch => cases batch <;> simp
  | outside | entered | running => simp

theorem step_finishCallback_iff :
    step heap loop .finishCallback = some next ↔
      ∃ now timer rest, loop.phase = .running now timer rest ∧
        { loop.reinsert heap now timer with phase := .serving now rest } = next := by
  simp only [step]
  cases loop.phase <;> simp

theorem step_unwind_iff :
    step heap loop .unwind = some next ↔
      (∃ now timer rest, loop.phase = .running now timer rest) ∧
        { loop with phase := .outside } = next := by
  simp only [step]
  cases loop.phase <;> simp

theorem step_leave_iff :
    step heap loop .leave = some next ↔
      (∃ now, loop.phase = .serving now []) ∧ { loop with phase := .outside } = next := by
  simp only [step]
  cases loop.phase with
  | serving now batch => cases batch <;> simp
  | outside | entered | running => simp

/-- What a step does, wherever the loop thread is. -/
inductive Step (heap : HeapAlgorithms Timer.Ordered) (loop : TimerState) :
    Action → TimerState → Prop where
  | runAfter (clock delayMs : UInt64) :
      Step heap loop (.runAfter clock delayMs loop.nextTimerId)
        (loop.register heap clock delayMs 0 false).2
  | runEvery (clock intervalMs : UInt64) :
      Step heap loop (.runEvery clock intervalMs loop.nextTimerId)
        (loop.register heap clock intervalMs intervalMs true).2
  | cancelTimer (timerId : UInt64) :
      Step heap loop (.cancelTimer timerId) (loop.cancelTimer heap timerId)
  | enter (now : UInt64) (outside : loop.phase = .outside) :
      Step heap loop (.enter now) { loop with phase := .entered now }
  | takeExpired {now : UInt64} (entered : loop.phase = .entered now) :
      Step heap loop .takeExpired (loop.takeExpired heap now)
  | startCallback {now : UInt64} {timer : Timer} {rest : List Timer}
      (serving : loop.phase = .serving now (timer :: rest)) :
      Step heap loop (.startCallback timer.id) { loop with phase := .running now timer rest }
  | finishCallback {now : UInt64} {timer : Timer} {rest : List Timer}
      (running : loop.phase = .running now timer rest) :
      Step heap loop .finishCallback
        { loop.reinsert heap now timer with phase := .serving now rest }
  | unwind {now : UInt64} {timer : Timer} {rest : List Timer}
      (running : loop.phase = .running now timer rest) :
      Step heap loop .unwind { loop with phase := .outside }
  | leave {now : UInt64} (serving : loop.phase = .serving now []) :
      Step heap loop .leave { loop with phase := .outside }

theorem step_cases {action : Action} (taken : step heap loop action = some next) :
    Step heap loop action next := by
  cases action with
  | runAfter clock delayMs returned =>
      cases step_runAfter_iff.mp taken
      exact .runAfter clock delayMs
  | runEvery clock intervalMs returned =>
      cases step_runEvery_iff.mp taken
      exact .runEvery clock intervalMs
  | cancelTimer timerId =>
      cases taken
      exact .cancelTimer timerId
  | enter now =>
      rcases step_enter_iff.mp taken with ⟨outside, rfl⟩
      exact .enter now outside
  | takeExpired =>
      rcases step_takeExpired_iff.mp taken with ⟨now, entered, rfl⟩
      exact .takeExpired entered
  | startCallback timerId =>
      rcases step_startCallback_iff.mp taken with ⟨now, timer, rest, serving, rfl, rfl⟩
      exact .startCallback serving
  | finishCallback =>
      rcases step_finishCallback_iff.mp taken with ⟨now, timer, rest, running, rfl⟩
      exact .finishCallback running
  | unwind =>
      rcases step_unwind_iff.mp taken with ⟨⟨now, timer, rest, running⟩, rfl⟩
      exact .unwind running
  | leave =>
      rcases step_leave_iff.mp taken with ⟨⟨now, serving⟩, rfl⟩
      exact .leave serving

/-! ## Registrations and cancellations -/

theorem perm_pushTimer (isHeap : IsHeap Timer.Ordered loop.timers) :
    (loop.pushTimer heap timer).timers.Perm (loop.timers ++ [timer]) :=
  (heap.pushHeap_spec loop.timers timer isHeap).1

theorem isHeap_pushTimer (isHeap : IsHeap Timer.Ordered loop.timers) :
    IsHeap Timer.Ordered (loop.pushTimer heap timer).timers :=
  (heap.pushHeap_spec loop.timers timer isHeap).2

theorem isHeap_reinsert (isHeap : IsHeap Timer.Ordered loop.timers) :
    IsHeap Timer.Ordered (loop.reinsert heap now timer).timers := by
  simp only [reinsert]
  split
  · exact isHeap_pushTimer isHeap
  · exact isHeap

/-- A cancellation takes out the first timer with the id. -/
theorem perm_cancelTimer :
    (loop.cancelTimer heap timerId).timers.Perm
      (loop.timers.eraseP fun timer => timer.id == timerId) := by
  rw [List.eraseP_eq_eraseIdx]
  simp only [cancelTimer]
  split
  next index found =>
      rw [found]
      exact (heap.makeHeap_spec _).1
  next notFound => rw [notFound]

theorem isHeap_cancelTimer (isHeap : IsHeap Timer.Ordered loop.timers) :
    IsHeap Timer.Ordered (loop.cancelTimer heap timerId).timers := by
  simp only [cancelTimer]
  split
  · exact (heap.makeHeap_spec _).2
  · exact isHeap

@[simp] theorem cancelTimer_phase : (loop.cancelTimer heap timerId).phase = loop.phase := by
  simp only [cancelTimer]
  split <;> rfl

/-! ## The batch of expired timers -/

section Expired

variable (heap now)

/-- One pass moves the front of the heap to the batch. -/
theorem exists_popExpired_cons (fuel : Nat) (expired : List Timer) {rest : List Timer}
    (isHeap : IsHeap Timer.Ordered (timer :: rest)) (isExpired : timer.expiration ≤ now) :
    ∃ others, others.Perm rest ∧ IsHeap Timer.Ordered others ∧
      popExpired heap now (fuel + 1) expired (timer :: rest) =
        popExpired heap now fuel (expired ++ [timer]) others := by
  rcases heap.popHeap_spec timer rest isHeap with ⟨others, popped, perm, isHeapOthers⟩
  refine ⟨others, perm, isHeapOthers, ?_⟩
  rw [popExpired, if_pos isExpired, popped, List.dropLast_concat]

theorem popExpired_spec {fuel : Nat} (expired : List Timer) {timers : List Timer}
    (isHeap : IsHeap Timer.Ordered timers) (enough : timers.length ≤ fuel) :
    ∃ batch left, popExpired heap now fuel expired timers = (expired ++ batch, left) ∧
      (batch ++ left).Perm timers ∧ IsHeap Timer.Ordered left ∧
      (∀ timer ∈ batch, timer.expiration ≤ now) ∧ ∀ timer ∈ left, now < timer.expiration := by
  induction fuel generalizing expired timers with
  | zero =>
      rcases List.length_eq_zero_iff.mp (Nat.le_zero.mp enough) with rfl
      exact ⟨[], [], by simp [popExpired], .refl _, isHeap, by simp, by simp⟩
  | succ fuel ih =>
      cases timers with
      | nil => exact ⟨[], [], by simp [popExpired], .refl _, isHeap, by simp, by simp⟩
      | cons front rest =>
          by_cases isExpired : front.expiration ≤ now
          · obtain ⟨others, perm, isHeapOthers, popped⟩ :=
              exists_popExpired_cons heap now fuel expired isHeap isExpired
            obtain ⟨batch, left, result, permRest, isHeapLeft, due, late⟩ :=
              ih (expired ++ [front]) isHeapOthers (by rw [perm.length_eq]; simpa using enough)
            refine ⟨front :: batch, left, by rw [popped, result]; simp, ?_, isHeapLeft, ?_, late⟩
            · exact (permRest.trans perm).cons front
            · exact List.forall_mem_cons.mpr ⟨isExpired, due⟩
          · refine
              ⟨[], front :: rest, by simp [popExpired, isExpired], .refl _, isHeap, by simp, ?_⟩
            intro timer member
            have notBefore := Timer.ordered_iff.mp (isHeap.front member)
            exact UInt64.lt_of_lt_of_le (UInt64.not_le.mp isExpired) notBefore

/-- The locked part of `ProcessExpiredTimers` splits the timers into those that have expired
and a heap of the others. -/
theorem takeExpired_spec (isHeap : IsHeap Timer.Ordered loop.timers) :
    ∃ batch left, loop.takeExpired heap now =
        { loop with timers := left, phase := .serving now batch } ∧
      (batch ++ left).Perm loop.timers ∧ IsHeap Timer.Ordered left ∧
      (∀ timer ∈ batch, timer.expiration ≤ now) ∧ ∀ timer ∈ left, now < timer.expiration := by
  obtain ⟨batch, left, result, spec⟩ :=
    popExpired_spec heap now [] isHeap le_rfl
  exact ⟨batch, left, by rw [takeExpired, result]; rfl, spec⟩

end Expired

/-! ## Runs -/

theorem keeps_isHeap :
    Keeps (step heap) (fun _ => True) fun loop => IsHeap Timer.Ordered loop.timers := by
  intro loop action next _ taken isHeap
  cases step_cases taken with
  | runAfter | runEvery => exact isHeap_pushTimer isHeap
  | cancelTimer timerId => exact isHeap_cancelTimer isHeap
  | @takeExpired now entered =>
      rcases takeExpired_spec heap now isHeap with ⟨batch, left, result, -, isHeapLeft, -⟩
      rw [result]
      exact isHeapLeft
  | finishCallback running => exact isHeap_reinsert isHeap
  | enter | startCallback | unwind | leave => exact isHeap

theorem isHeap_of_run {actions : List Action} (ran : run (step heap) new actions = some loop) :
    IsHeap Timer.Ordered loop.timers :=
  keeps_isHeap.run ran (fun _ _ => trivial) isHeap_nil

end PPServer.EventLoop.TimerState
