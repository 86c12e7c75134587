import PPServer.EventLoop.TimerHeap

/-!
# Cancelled timers

`CancelTimer` looks for its timer in `timers_` only.  A timer that has expired is in the
batch of `ProcessExpiredTimers` until its callback has ended, and then goes back if it is
repeated.  So a timer that cancels itself, or another timer of its batch, is not cancelled.

The timers that are still to be called are those in `timers_` and those that the loop thread
holds.  A callback can be started again, before its id is given out again, exactly when its
timer is among them, and `CancelTimer` is final exactly when none is left among them.
-/

namespace PPServer.EventLoop

open PPServer.Heap PPServer.Transition

/-- The timers of the batch that the loop thread has still to call or to put back. -/
def Phase.held : Phase → List Timer
  | .outside => []
  | .entered _ => []
  | .serving _ rest => rest
  | .running _ timer rest => if timer.repeated then timer :: rest else rest

namespace TimerState

variable {heap : HeapAlgorithms Timer.Ordered} {loop next : TimerState} {timerId now : UInt64}

/-- The ids of the timers that are still to be called. -/
def pendingIds (loop : TimerState) : List UInt64 :=
  loop.timers.map Timer.id ++ loop.phase.held.map Timer.id

theorem mem_pendingIds_iff :
    timerId ∈ loop.pendingIds ↔
      timerId ∈ loop.timers.map Timer.id ∨ timerId ∈ loop.phase.held.map Timer.id :=
  List.mem_append

/-! ## What the operations leave pending -/

theorem mem_ids_pushTimer_iff {timer : Timer} (isHeap : IsHeap Timer.Ordered loop.timers) :
    timerId ∈ (loop.pushTimer heap timer).timers.map Timer.id ↔
      timerId ∈ loop.timers.map Timer.id ∨ timerId = timer.id := by
  rw [((perm_pushTimer isHeap).map Timer.id).mem_iff]
  simp

theorem mem_ids_reinsert_iff {timer : Timer} (isHeap : IsHeap Timer.Ordered loop.timers) :
    timerId ∈ (loop.reinsert heap now timer).timers.map Timer.id ↔
      timerId ∈ loop.timers.map Timer.id ∨ timer.repeated ∧ timerId = timer.id := by
  simp only [reinsert]
  split
  next repeated =>
      rw [mem_ids_pushTimer_iff isHeap]
      simp [repeated]
  next once => simp [once]

theorem perm_pendingIds_register {clock delay interval : UInt64} {repeated : Bool}
    (isHeap : IsHeap Timer.Ordered loop.timers) :
    (loop.register heap clock delay interval repeated).2.pendingIds.Perm
      (loop.nextTimerId :: loop.pendingIds) := by
  let timer : Timer := ⟨loop.nextTimerId, clock + delay, interval, repeated⟩
  have pushed : (loop.pushTimer heap timer).timers.Perm (loop.timers ++ [timer]) :=
    perm_pushTimer isHeap
  have stored := (pushed.map Timer.id).append_right (loop.phase.held.map Timer.id)
  rw [List.map_append, List.append_assoc] at stored
  exact stored.trans List.perm_middle

/-- The end of a callback changes nothing: a repeated timer goes from the batch back to
`timers_`. -/
theorem perm_pendingIds_finish {timer : Timer} {rest : List Timer}
    (isHeap : IsHeap Timer.Ordered loop.timers) (running : loop.phase = .running now timer rest) :
    { loop.reinsert heap now timer with phase := .serving now rest }.pendingIds.Perm
      loop.pendingIds := by
  simp only [pendingIds, running, Phase.held, reinsert]
  split
  next repeated =>
      let later : Timer := { timer with expiration := now + timer.interval }
      have pushed : (loop.pushTimer heap later).timers.Perm (loop.timers ++ [later]) :=
        perm_pushTimer isHeap
      simpa using (pushed.map Timer.id).append_right (rest.map Timer.id)
  next => exact .refl _

theorem perm_pendingIds_takeExpired (isHeap : IsHeap Timer.Ordered loop.timers)
    (entered : loop.phase = .entered now) :
    (loop.takeExpired heap now).pendingIds.Perm loop.pendingIds := by
  rcases takeExpired_spec heap now isHeap with ⟨batch, left, result, perm, -⟩
  have parts := perm.map Timer.id
  rw [List.map_append] at parts
  rw [result]
  simpa [pendingIds, entered, Phase.held] using List.perm_append_comm.trans parts

theorem perm_ids_cancelTimer :
    ((loop.cancelTimer heap timerId).timers.map Timer.id).Perm
      ((loop.timers.map Timer.id).erase timerId) := by
  rw [List.erase_eq_eraseP', List.eraseP_map]
  exact perm_cancelTimer.map Timer.id

/-- A cancellation does not reach the batch, and takes one timer out of `timers_`. -/
theorem mem_pendingIds_cancelTimer_iff :
    timerId ∈ (loop.cancelTimer heap timerId).pendingIds ↔
      1 < (loop.timers.map Timer.id).count timerId ∨ timerId ∈ loop.phase.held.map Timer.id := by
  rw [mem_pendingIds_iff, perm_ids_cancelTimer.mem_iff, cancelTimer_phase, ← List.count_pos_iff,
    List.count_erase_self, Nat.sub_pos_iff_lt]

/-- The id that the action gives out in the state. -/
def issued (loop : TimerState) : Action → List UInt64
  | .runAfter _ _ _ | .runEvery _ _ _ => [loop.nextTimerId]
  | _ => []

/-- Nothing becomes pending but the id that is given out. -/
theorem Step.subperm_pendingIds {action : Action} (steps : Step heap loop action next)
    (isHeap : IsHeap Timer.Ordered loop.timers) :
    next.pendingIds.Subperm (loop.issued action ++ loop.pendingIds) := by
  cases steps with
  | runAfter | runEvery => exact (perm_pendingIds_register isHeap).subperm
  | cancelTimer timerId =>
      have fewer : ((loop.cancelTimer heap timerId).timers.map Timer.id).Subperm
          (loop.timers.map Timer.id) :=
        perm_ids_cancelTimer.subperm.trans List.erase_sublist.subperm
      rw [pendingIds, cancelTimer_phase]
      exact (List.subperm_append_right _).mpr fewer
  | enter now outside =>
      simpa [issued, pendingIds, outside, Phase.held] using
        List.Subperm.refl (loop.timers.map Timer.id)
  | takeExpired entered => exact (perm_pendingIds_takeExpired isHeap entered).subperm
  | @startCallback now timer rest serving =>
      have held : (Phase.running now timer rest).held.Sublist (timer :: rest) := by
        simp only [Phase.held]
        split <;> simp
      simp only [issued, pendingIds, serving, List.nil_append]
      exact ((held.map Timer.id).append_left _).subperm
  | finishCallback running => exact (perm_pendingIds_finish isHeap running).subperm
  | unwind | leave =>
      simp only [issued, pendingIds, Phase.held, List.map_nil, List.append_nil, List.nil_append]
      exact (List.sublist_append_left _ _).subperm

/-! ## Finality -/

/-- Only the registration that gives the id out makes it pending. -/
theorem keeps_not_pending :
    Keeps (step heap) (fun action => ¬action.GivesOut timerId) fun loop =>
      IsHeap Timer.Ordered loop.timers ∧ timerId ∉ loop.pendingIds := by
  intro loop action next other taken invariant
  rcases invariant with ⟨isHeap, notPending⟩
  refine ⟨keeps_isHeap loop action next trivial taken isHeap, fun pending => ?_⟩
  have steps := step_cases taken
  rcases List.mem_append.mp ((steps.subperm_pendingIds isHeap).subset pending) with new | old
  · cases steps with
    | runAfter | runEvery => exact other (List.mem_singleton.mp new).symm
    | _ => cases new
  · exact notPending old

theorem not_canTake_startCallback (isHeap : IsHeap Timer.Ordered loop.timers)
    (notPending : timerId ∉ loop.pendingIds) :
    ¬CanTake (step heap) (fun action => ¬action.GivesOut timerId)
      (.startCallback timerId) loop := by
  apply keeps_not_pending.not_canTake ⟨isHeap, notPending⟩
  intro loop invariant
  rcases invariant with ⟨-, notPending⟩
  refine Option.eq_none_iff_forall_ne_some.mpr fun next taken => notPending ?_
  rcases step_startCallback_iff.mp taken with ⟨now, timer, rest, serving, rfl, -⟩
  simp [pendingIds, serving, Phase.held]

/-! ## Pending timers are called -/

section Starts

variable (heap timerId)

/-- Some run starts the callback of the timer before its id is given out again. -/
def CanStart (loop : TimerState) : Prop :=
  CanTake (step heap) (fun action => ¬action.GivesOut timerId) (.startCallback timerId) loop

end Starts

/-- The loop thread calls a timer of its batch, and is then through with it. -/
theorem canStart_of_serve {timer : Timer} {rest : List Timer}
    (serving : loop.phase = .serving now (timer :: rest))
    (later : CanStart heap timerId
      { loop.reinsert heap now timer with phase := .serving now rest }) :
    CanStart heap timerId loop := by
  have started : step heap loop (.startCallback timer.id) =
      some { loop with phase := .running now timer rest } :=
    step_startCallback_iff.mpr ⟨now, timer, rest, serving, rfl, rfl⟩
  have finished : step heap { loop with phase := .running now timer rest } .finishCallback =
      some { loop.reinsert heap now timer with phase := .serving now rest } := by
    refine step_finishCallback_iff.mpr ⟨now, timer, rest, rfl, ?_⟩
    simp only [reinsert]
    split <;> rfl
  exact (later.of_step finished not_false).of_step started not_false

/-- A timer of the batch is called when those before it have been. -/
theorem canStart_of_mem_batch {batch : List Timer} (serving : loop.phase = .serving now batch)
    (inBatch : timerId ∈ batch.map Timer.id) : CanStart heap timerId loop := by
  induction batch generalizing loop with
  | nil => simp at inBatch
  | cons timer rest ih =>
      rcases List.mem_cons.mp inBatch with rfl | inRest
      · exact canTake_of_step
          (step_startCallback_iff.mpr ⟨now, timer, rest, serving, rfl, rfl⟩) not_false
      · exact canStart_of_serve serving (ih rfl inRest)

/-- A timer in `timers_` is called when the clock reaches its greatest value. -/
theorem canStart_of_outside (isHeap : IsHeap Timer.Ordered loop.timers)
    (outside : loop.phase = .outside) (inTimers : timerId ∈ loop.timers.map Timer.id) :
    CanStart heap timerId loop := by
  have greatest (expiration : UInt64) : ¬(18446744073709551615 : UInt64) < expiration := by
    have bound := expiration.toNat_lt
    rw [UInt64.lt_iff_toNat_lt, Nat.not_lt]
    exact Nat.le_of_lt_succ bound
  have entered : step heap loop (.enter 18446744073709551615) =
      some { loop with phase := .entered 18446744073709551615 } :=
    step_enter_iff.mpr ⟨outside, rfl⟩
  obtain ⟨batch, left, result, perm, -, -, late⟩ :=
    takeExpired_spec heap 18446744073709551615
      (show IsHeap Timer.Ordered { loop with phase := .entered 18446744073709551615 }.timers
        from isHeap)
  have taken := step_takeExpired_iff.mpr ⟨18446744073709551615, rfl, result⟩
  obtain rfl : left = [] := List.eq_nil_iff_forall_not_mem.mpr fun timer member =>
    greatest timer.expiration (late timer member)
  rw [List.append_nil] at perm
  have inBatch : timerId ∈ batch.map Timer.id := (perm.map Timer.id).mem_iff.mpr inTimers
  exact ((canStart_of_mem_batch rfl inBatch).of_step taken not_false).of_step entered not_false

/-- A timer in `timers_` is called in the next batch, once this one has been served. -/
theorem canStart_of_serving {batch : List Timer} (isHeap : IsHeap Timer.Ordered loop.timers)
    (serving : loop.phase = .serving now batch) (inTimers : timerId ∈ loop.timers.map Timer.id) :
    CanStart heap timerId loop := by
  induction batch generalizing loop with
  | nil =>
      have left : step heap loop .leave = some { loop with phase := .outside } :=
        step_leave_iff.mpr ⟨⟨now, serving⟩, rfl⟩
      have later : CanStart heap timerId { loop with phase := .outside } :=
        canStart_of_outside isHeap rfl inTimers
      exact later.of_step left not_false
  | cons timer rest ih =>
      exact canStart_of_serve serving
        (ih (isHeap_reinsert isHeap) rfl ((mem_ids_reinsert_iff isHeap).mpr (.inl inTimers)))

/-- Whatever the loop thread is doing, a timer that is still to be called can be. -/
theorem canStart_of_pending (isHeap : IsHeap Timer.Ordered loop.timers)
    (pending : timerId ∈ loop.pendingIds) : CanStart heap timerId loop := by
  have ofServing {loop : TimerState} {now : UInt64} {batch : List Timer}
      (isHeap : IsHeap Timer.Ordered loop.timers) (serving : loop.phase = .serving now batch)
      (pending : timerId ∈ loop.pendingIds) : CanStart heap timerId loop := by
    rw [mem_pendingIds_iff, serving] at pending
    exact pending.elim (canStart_of_serving isHeap serving) (canStart_of_mem_batch serving)
  cases phase : loop.phase with
  | outside =>
      rw [mem_pendingIds_iff, phase] at pending
      exact canStart_of_outside isHeap phase (pending.resolve_right (by simp [Phase.held]))
  | entered now =>
      have taken : step heap loop .takeExpired = some (loop.takeExpired heap now) :=
        step_takeExpired_iff.mpr ⟨now, phase, rfl⟩
      rcases takeExpired_spec heap now isHeap with ⟨batch, left, result, -, isHeapLeft, -⟩
      have stillPending : timerId ∈ (loop.takeExpired heap now).pendingIds :=
        (perm_pendingIds_takeExpired isHeap phase).mem_iff.mpr pending
      rw [result] at stillPending taken
      exact (ofServing isHeapLeft rfl stillPending).of_step taken not_false
  | serving now batch => exact ofServing isHeap phase pending
  | running now timer rest =>
      have finished : step heap loop .finishCallback =
          some { loop.reinsert heap now timer with phase := .serving now rest } :=
        step_finishCallback_iff.mpr ⟨now, timer, rest, phase, rfl⟩
      have later : CanStart heap timerId
          { loop.reinsert heap now timer with phase := .serving now rest } :=
        ofServing (isHeap_reinsert isHeap) rfl
          ((perm_pendingIds_finish isHeap phase).mem_iff.mpr pending)
      exact later.of_step finished not_false

theorem canStart_iff (isHeap : IsHeap Timer.Ordered loop.timers) :
    CanStart heap timerId loop ↔ timerId ∈ loop.pendingIds :=
  ⟨fun canStart => by_contra fun notPending =>
      not_canTake_startCallback isHeap notPending canStart,
    canStart_of_pending isHeap⟩

/-- In every run, `CancelTimer(timerId)` is final exactly when the timer is neither in the
batch with its callback still to come nor repeated and in its callback, and no other timer
has its id. -/
theorem cancelTimer_final_iff {before : List Action}
    (ran : run (step heap) new before = some loop) :
    (∀ after last, run (step heap) loop (.cancelTimer timerId :: after) = some last →
        (∀ action ∈ after, ¬action.GivesOut timerId) → .startCallback timerId ∉ after) ↔
      timerId ∉ loop.phase.held.map Timer.id ∧
        (loop.timers.map Timer.id).count timerId ≤ 1 := by
  have isHeap : IsHeap Timer.Ordered (loop.cancelTimer heap timerId).timers :=
    isHeap_cancelTimer (isHeap_of_run ran)
  have cannotStart :
      ¬CanStart heap timerId (loop.cancelTimer heap timerId) ↔
        timerId ∉ loop.phase.held.map Timer.id ∧
          (loop.timers.map Timer.id).count timerId ≤ 1 := by
    rw [canStart_iff isHeap, mem_pendingIds_cancelTimer_iff, not_or, Nat.not_lt, and_comm]
  rw [← cannotStart]
  constructor
  · intro final canStart
    rcases canStart with ⟨after, last, ranAfter, other, member⟩
    exact final after last (run_cons_iff.mpr ⟨_, rfl, ranAfter⟩) other member
  · intro cannot after last ranAfter other member
    rcases run_cons_iff.mp ranAfter with ⟨next, cancelled, ranNext⟩
    cases cancelled
    exact cannot ⟨after, last, ranNext, other, member⟩

/-- The only timer, which has not expired, can be cancelled for good. -/
theorem cancelTimer_final_iff_waiting :
    (∀ after last,
        run (step (.sorting Timer.Ordered)) ⟨[⟨1, 10, 10, true⟩], 2, .outside⟩
          (.cancelTimer 1 :: after) = some last →
        (∀ action ∈ after, ¬action.GivesOut 1) → .startCallback 1 ∉ after) ↔
      (1 : UInt64) ∉ Phase.outside.held.map Timer.id ∧
        ([⟨1, 10, 10, true⟩].map Timer.id).count 1 ≤ 1 :=
  cancelTimer_final_iff (show run (step (.sorting Timer.Ordered)) new [.runEvery 0 10 1] =
    some ⟨[⟨1, 10, 10, true⟩], 2, .outside⟩ by decide)

/-- A repeated timer that cancels itself is called again, and so is a timer that another
timer of its batch cancels. -/
theorem cancelTimer_not_final_in_batch :
    (¬∀ after last,
      run (step (.sorting Timer.Ordered)) new
        ([.runEvery 0 10 1, .enter 10, .takeExpired, .startCallback 1, .cancelTimer 1] ++ after) =
          some last →
      (∀ action ∈ after, ¬action.GivesOut 1) → .startCallback 1 ∉ after) ∧
    ¬∀ after last,
      run (step (.sorting Timer.Ordered)) new
        ([.runAfter 0 10 1, .runAfter 0 10 2, .enter 10, .takeExpired, .startCallback 1,
          .cancelTimer 2] ++ after) = some last →
      (∀ action ∈ after, ¬action.GivesOut 2) → .startCallback 2 ∉ after := by
  constructor
  · intro final
    exact final [.finishCallback, .leave, .enter 20, .takeExpired, .startCallback 1]
      ⟨[], 2, .running 20 ⟨1, 20, 10, true⟩ []⟩ (by decide) (by simp [Action.GivesOut])
      (by decide)
  · intro final
    exact final [.finishCallback, .startCallback 2]
      ⟨[], 3, .running 10 ⟨2, 10, 0, false⟩ []⟩ (by decide) (by simp [Action.GivesOut])
      (by decide)

end TimerState

end PPServer.EventLoop
