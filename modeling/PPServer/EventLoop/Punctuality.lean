import Mathlib.Algebra.Group.Nat.Defs
import Mathlib.Data.List.Perm.Subperm
import PPServer.EventLoop.Cancellation

/-!
# Timers are not early

A timer stores the 64-bit sum of a clock and a delay, and is put back with the sum of the clock
of its call and its interval.  As long as no such sum wraps, the stored numbers are the times
at which the timers are to fire.

The firings that are still to come, with their times as unbounded numbers, are those of the
timers in `timers_` and in the batch, and the next firing of a repeated timer whose callback is
running.  Only a registration adds one, and only the start of a callback changes one.
-/

namespace PPServer.EventLoop

open Heap Transition

/-- A firing that is still to come, and the interval to the one after it. -/
structure Firing where
  id : UInt64
  notBefore : Nat
  interval : UInt64
  deriving DecidableEq

/-- The firing for which a timer is stored. -/
def Timer.firing (timer : Timer) : Firing :=
  ⟨timer.id, timer.expiration.toNat, timer.interval⟩

/-- The firing after one in a call at `now`. -/
def Timer.again (now : UInt64) (timer : Timer) : List Firing :=
  if timer.repeated then [⟨timer.id, now.toNat + timer.interval.toNat, timer.interval⟩] else []

def Phase.firings : Phase → List Firing
  | .outside | .entered _ => []
  | .serving _ rest => rest.map Timer.firing
  | .running now timer rest => timer.again now ++ rest.map Timer.firing

/-- The first firing of a timer that is registered. -/
def Action.firing : Action → List Firing
  | .runAfter clock delayMs returned => [⟨returned, clock.toNat + delayMs.toNat, 0⟩]
  | .runEvery clock intervalMs returned =>
      [⟨returned, clock.toNat + intervalMs.toNat, intervalMs⟩]
  | _ => []

theorem Action.GivesOut.unique {action : Action} {first second : UInt64}
    (givesOut : action.GivesOut first) (other : action.GivesOut second) : first = second := by
  cases action with
  | runAfter clock delayMs returned | runEvery clock intervalMs returned =>
      exact givesOut.symm.trans other
  | _ => exact givesOut.elim

theorem Action.firing_of_not_givesOut {action : Action} {id : UInt64}
    (other : ¬action.GivesOut id) :
    (action.firing.filter fun firing => firing.id == id) = [] := by
  cases action with
  | runAfter clock delayMs returned | runEvery clock intervalMs returned =>
      simpa [Action.firing, Action.GivesOut] using other
  | _ => rfl

/-- The batch has expired. -/
def Phase.Due : Phase → Prop
  | .outside | .entered _ => True
  | .serving now rest | .running now _ rest => ∀ timer ∈ rest, timer.expiration ≤ now

namespace TimerState

variable {heap : HeapAlgorithms Timer.Ordered} {loop next last : TimerState}
variable {id now interval : UInt64} {action : Action} {labels : List Action} {bound : Nat}

/-- The firings that are still to come. -/
def firings (loop : TimerState) : List Firing :=
  loop.timers.map Timer.firing ++ loop.phase.firings

/-- The additions that the step makes do not wrap. -/
def NoWrap (loop : TimerState) : Action → Prop
  | .runAfter clock delayMs _ => clock.toNat + delayMs.toNat < 2 ^ 64
  | .runEvery clock intervalMs _ => clock.toNat + intervalMs.toNat < 2 ^ 64
  | .finishCallback => ∀ now timer rest, loop.phase = .running now timer rest →
      timer.repeated → now.toNat + timer.interval.toNat < 2 ^ 64
  | _ => True

/-! ## What a step does to the firings -/

theorem toNat_add_of_lt {clock delay : UInt64} (noWrap : clock.toNat + delay.toNat < 2 ^ 64) :
    (clock + delay).toNat = clock.toNat + delay.toNat := by
  rw [UInt64.toNat_add, Nat.mod_eq_of_lt noWrap]

variable (heap) in
theorem perm_firings_pushTimer (isHeap : IsHeap Timer.Ordered loop.timers) (timer : Timer) :
    (loop.pushTimer heap timer).firings.Perm (loop.firings ++ [timer.firing]) := by
  have pushed : (loop.pushTimer heap timer).timers.Perm (loop.timers ++ [timer]) :=
    perm_pushTimer isHeap
  have stored := (pushed.map Timer.firing).append_right loop.phase.firings
  rw [List.map_append, List.append_assoc] at stored
  apply stored.trans
  rw [firings, List.append_assoc]
  exact List.perm_append_comm.append_left _

/-- A timer that is put back waits for its next firing. -/
theorem perm_firings_reinsert {timer : Timer} (isHeap : IsHeap Timer.Ordered loop.timers)
    (noWrap : timer.repeated → now.toNat + timer.interval.toNat < 2 ^ 64) :
    ((loop.reinsert heap now timer).timers.map Timer.firing).Perm
      (loop.timers.map Timer.firing ++ timer.again now) := by
  simp only [reinsert]
  split
  next isRepeated =>
      let later : Timer := { timer with expiration := now + timer.interval }
      have pushed : (loop.pushTimer heap later).timers.Perm (loop.timers ++ [later]) :=
        perm_pushTimer isHeap
      have exact_ : later.firing =
          ⟨timer.id, now.toNat + timer.interval.toNat, timer.interval⟩ := by
        simp only [Timer.firing, later, toNat_add_of_lt (noWrap isRepeated)]
      rw [Timer.again, if_pos isRepeated, ← exact_]
      simpa using pushed.map Timer.firing
  next once => simp [Timer.again, once]

/-- Apart from the start of a callback, only a registration adds a firing. -/
theorem subperm_firings_step (isHeap : IsHeap Timer.Ordered loop.timers)
    (noWrap : loop.NoWrap action) (taken : step heap loop action = some next)
    (notStart : ∀ id, action ≠ .startCallback id) :
    next.firings.Subperm (loop.firings ++ action.firing) := by
  cases step_cases taken with
  | runAfter clock delayMs =>
      have pushed := (perm_firings_pushTimer heap isHeap
        ⟨loop.nextTimerId, clock + delayMs, 0, false⟩).subperm
      rwa [Timer.firing, toNat_add_of_lt noWrap] at pushed
  | runEvery clock intervalMs =>
      have pushed := (perm_firings_pushTimer heap isHeap
        ⟨loop.nextTimerId, clock + intervalMs, intervalMs, true⟩).subperm
      rwa [Timer.firing, toNat_add_of_lt noWrap] at pushed
  | cancelTimer timerId =>
      have fewer : ((loop.cancelTimer heap timerId).timers.map Timer.firing).Subperm
          (loop.timers.map Timer.firing) :=
        (perm_cancelTimer.map Timer.firing).subperm.trans
          (List.eraseP_sublist.map Timer.firing).subperm
      rw [firings, cancelTimer_phase]
      simpa [Action.firing, firings, List.subperm_append_right] using fewer
  | enter now point | leave point =>
      simpa [firings, Phase.firings, Action.firing, point] using List.Subperm.refl _
  | @takeExpired now entered =>
      rcases takeExpired_spec heap now isHeap with ⟨batch, left, result, perm, -⟩
      have parts := perm.map Timer.firing
      rw [List.map_append] at parts
      rw [result]
      simpa [firings, Phase.firings, Action.firing, entered] using
        (List.perm_append_comm.trans parts).subperm
  | startCallback serving => exact absurd rfl (notStart _)
  | @finishCallback now timer rest running =>
      have putBack : ((loop.reinsert heap now timer).timers.map Timer.firing).Perm
          (loop.timers.map Timer.firing ++ timer.again now) :=
        perm_firings_reinsert isHeap (noWrap now timer rest running)
      simpa [firings, Phase.firings, Action.firing, running] using
        (putBack.append_right (rest.map Timer.firing)).subperm
  | unwind running =>
      simpa [firings, Phase.firings, Action.firing] using
        (List.sublist_append_left _ loop.phase.firings).subperm

/-- The start of a callback replaces its firing by the next one of its timer. -/
theorem perm_firings_start {timer : Timer} {rest : List Timer}
    (serving : loop.phase = .serving now (timer :: rest)) :
    loop.firings.Perm (timer.firing :: (loop.timers ++ rest).map Timer.firing) ∧
      { loop with phase := .running now timer rest }.firings.Perm
        (timer.again now ++ (loop.timers ++ rest).map Timer.firing) := by
  constructor
  · simp [firings, Phase.firings, serving]
  · simpa [firings, Phase.firings] using List.perm_append_comm_assoc ..

/-! ## Following one timer -/

/-- The only firing to come with the id is not before the bound, and repeats after the interval. -/
def Follows (loop : TimerState) (id : UInt64) (bound : Nat) (interval : UInt64) : Prop :=
  ∃ notBefore, bound ≤ notBefore ∧
    (loop.firings.filter fun firing => firing.id == id).Subperm [⟨id, notBefore, interval⟩]

theorem Follows.mono {bound' : Nat} (follows : loop.Follows id bound interval)
    (atMost : bound' ≤ bound) : loop.Follows id bound' interval := by
  rcases follows with ⟨notBefore, isBound, only⟩
  exact ⟨notBefore, atMost.trans isBound, only⟩

/-- The timer that is called is the one that is followed. -/
theorem Follows.isTimer (follows : loop.Follows id bound interval) {timer : Timer}
    {rest : List Timer} (serving : loop.phase = .serving now (timer :: rest))
    (sameId : timer.id = id) :
    bound ≤ timer.expiration.toNat ∧ timer.interval = interval ∧
      ((loop.timers ++ rest).map Timer.firing).filter (fun firing => firing.id == id) = [] := by
  rcases follows with ⟨notBefore, isBound, only⟩
  have isOnly := ((perm_firings_start serving).1.filter _).symm.subperm.trans only
  have matches_ : (timer.firing.id == id) = true := beq_iff_eq.mpr sameId
  rw [List.filter_cons, if_pos matches_, List.subperm_singleton_iff] at isOnly
  rcases isOnly with none | one
  · cases none
  · rcases List.cons.inj one with ⟨isTimer, noOthers⟩
    have expiration : timer.expiration.toNat = notBefore := congrArg Firing.notBefore isTimer
    exact ⟨expiration ▸ isBound, congrArg Firing.interval isTimer, noOthers⟩

/-- The timer is not called before the bound. -/
theorem Follows.not_early (follows : loop.Follows id bound interval) (due : loop.phase.Due)
    {timer : Timer} {rest : List Timer} (serving : loop.phase = .serving now (timer :: rest))
    (sameId : timer.id = id) : bound ≤ now.toNat := by
  rw [serving] at due
  have expired : timer.expiration ≤ now := due timer List.mem_cons_self
  exact (follows.isTimer serving sameId).1.trans (UInt64.le_iff_toNat_le.mp expired)

/-- After a call at `now` the timer is not called before its interval is over. -/
theorem Follows.start (follows : loop.Follows id bound interval) {timer : Timer}
    {rest : List Timer} (serving : loop.phase = .serving now (timer :: rest))
    (sameId : timer.id = id) :
    { loop with phase := .running now timer rest }.Follows id (now.toNat + interval.toNat)
      interval := by
  rcases follows.isTimer serving sameId with ⟨-, sameInterval, noOthers⟩
  refine ⟨now.toNat + interval.toNat, le_rfl, ?_⟩
  apply ((perm_firings_start serving).2.filter _).subperm.trans
  rw [List.filter_append, noOthers, List.append_nil]
  apply List.filter_sublist.subperm.trans
  rw [Timer.again, sameInterval, sameId]
  split
  · exact .refl _
  · exact List.nil_subperm

/-- The call of another timer does not matter. -/
theorem Follows.start_other (follows : loop.Follows id bound interval) {timer : Timer}
    {rest : List Timer} (serving : loop.phase = .serving now (timer :: rest))
    (otherId : timer.id ≠ id) :
    { loop with phase := .running now timer rest }.Follows id bound interval := by
  rcases follows with ⟨notBefore, isBound, only⟩
  rcases perm_firings_start serving with ⟨before, after⟩
  have notThis : ¬(timer.firing.id == id) = true := fun same => otherId (beq_iff_eq.mp same)
  have noAgain : (timer.again now).filter (fun firing => firing.id == id) = [] := by
    rw [Timer.again]
    split
    · simpa using otherId
    · rfl
  refine ⟨notBefore, isBound, List.Subperm.trans ?_ only⟩
  apply (after.filter _).subperm.trans
  rw [List.filter_append, noAgain, List.nil_append]
  apply List.Subperm.trans _ (before.filter _).symm.subperm
  rw [List.filter_cons, if_neg notThis]

/-- No step but a registration with its id puts the timer's next firing earlier. -/
theorem Follows.step (follows : loop.Follows id bound interval) (due : loop.phase.Due)
    (isHeap : IsHeap Timer.Ordered loop.timers) (noWrap : loop.NoWrap action)
    (other : ¬action.GivesOut id) (taken : step heap loop action = some next) :
    next.Follows id bound interval := by
  by_cases starts : ∃ started, action = .startCallback started
  · rcases starts with ⟨started, rfl⟩
    rcases step_startCallback_iff.mp taken with ⟨now, timer, rest, serving, -, rfl⟩
    by_cases sameId : timer.id = id
    · have inTime := follows.not_early due serving sameId
      exact (follows.start serving sameId).mono (inTime.trans (Nat.le_add_right _ _))
    · exact follows.start_other serving sameId
  · have notStart : ∀ started, action ≠ .startCallback started := fun started isStart =>
      starts ⟨started, isStart⟩
    rcases follows with ⟨notBefore, isBound, only⟩
    have fewer := (subperm_firings_step isHeap noWrap taken notStart).filter
      fun firing => firing.id == id
    rw [List.filter_append, Action.firing_of_not_givesOut other, List.append_nil] at fewer
    exact ⟨notBefore, isBound, fewer.trans only⟩

/-- What is in the batch has expired. -/
theorem due_step (due : loop.phase.Due) (isHeap : IsHeap Timer.Ordered loop.timers)
    (taken : step heap loop action = some next) : next.phase.Due := by
  cases step_cases taken with
  | runAfter | runEvery => exact due
  | cancelTimer timerId => rwa [cancelTimer_phase]
  | @takeExpired now entered =>
      rcases takeExpired_spec heap now isHeap with ⟨batch, left, result, -, -, expired, -⟩
      rw [result]
      exact expired
  | startCallback serving =>
      rw [serving] at due
      exact (List.forall_mem_cons.mp due).2
  | finishCallback running =>
      rw [running] at due
      exact due
  | enter | unwind | leave => trivial

theorem due_of_run (ran : run (step heap) new labels = some loop) : loop.phase.Due := by
  have keeps : Keeps (step heap) (fun _ => True) fun loop =>
      IsHeap Timer.Ordered loop.timers ∧ loop.phase.Due := fun loop action next _ taken holds =>
    ⟨keeps_isHeap loop action next trivial taken holds.1, due_step holds.2 holds.1 taken⟩
  exact (keeps.run ran (fun _ _ => trivial) ⟨isHeap_nil, trivial⟩).2

/-- What holds of the timer with the id between its registration and its last call. -/
structure Punctual (id : UInt64) (bound : Nat) (interval : UInt64) (loop : TimerState) :
    Prop where
  isHeap : IsHeap Timer.Ordered loop.timers
  due : loop.phase.Due
  follows : loop.Follows id bound interval

theorem Punctual.run (punctual : loop.Punctual id bound interval)
    (ran : run (step heap) loop labels = some last)
    (noWrap : ∀ current action next, Takes (step heap) loop labels current action next →
      current.NoWrap action)
    (other : ∀ action ∈ labels, ¬action.GivesOut id) : last.Punctual id bound interval := by
  have grows (current : TimerState) (action : Action) (next : TimerState)
      (taken : step heap current action = some next)
      (holds : current.Punctual id bound interval)
      (meets : current.NoWrap action ∧ ¬action.GivesOut id) :
      next.Punctual id bound interval :=
    { isHeap := keeps_isHeap current action next trivial taken holds.isHeap
      due := due_step holds.due holds.isHeap taken
      follows := holds.follows.step holds.due holds.isHeap meets.1 meets.2 taken }
  refine forall_visits_of_takes punctual grows ?_ last (visits_last ran)
  intro current action next takes
  exact ⟨noWrap current action next takes, other action takes.mem⟩

/-! ## Registered timers -/

/-- The ids of the timers that are still to be called are those of the firings to come. -/
theorem ids_firings (loop : TimerState) : loop.firings.map Firing.id = loop.pendingIds := by
  have ids (timers : List Timer) :
      (timers.map Timer.firing).map Firing.id = timers.map Timer.id := by
    rw [List.map_map]
    rfl
  rw [firings, pendingIds, List.map_append, ids]
  congr 1
  cases loop.phase with
  | outside | entered now => rfl
  | serving now rest => exact ids rest
  | running now timer rest =>
      rw [Phase.firings, Phase.held, List.map_append, ids, Timer.again]
      split <;> rfl

/-- A timer that gets an id which no other has is followed from its registration on. -/
theorem punctual_of_registration (isHeap : IsHeap Timer.Ordered loop.timers)
    (due : loop.phase.Due) (fresh : id ∉ loop.pendingIds) {clock delay : UInt64}
    (registers : action.firing = [⟨id, clock.toNat + delay.toNat, interval⟩])
    (noWrap : loop.NoWrap action) (taken : step heap loop action = some next) :
    next.Punctual id (clock.toNat + delay.toNat) interval where
  isHeap := keeps_isHeap loop action next trivial taken isHeap
  due := due_step due isHeap taken
  follows := by
    have notStart : ∀ started, action ≠ .startCallback started := by
      rintro started rfl
      cases registers
    have none : (loop.firings.filter fun firing => firing.id == id) = [] := by
      rw [← ids_firings] at fresh
      rw [List.filter_eq_nil_iff]
      intro firing member same
      exact fresh (List.mem_map.mpr ⟨firing, member, beq_iff_eq.mp same⟩)
    have only := (subperm_firings_step isHeap noWrap taken notStart).filter
      fun firing => firing.id == id
    rw [List.filter_append, none, List.nil_append, registers] at only
    exact ⟨_, le_rfl, only.trans List.filter_sublist.subperm⟩

section Calls

variable (heap)

/-- After the steps, the loop thread is about to call the timer with the id, in a call of
`ProcessExpiredTimers` that has read `now`. -/
def AboutToCall (labels : List Action) (id now : UInt64) : Prop :=
  ∃ loop timer rest, run (step heap) new labels = some loop ∧
    loop.phase = .serving now (timer :: rest) ∧ timer.id = id

/-- The registration gives the id to a timer while no other has it, and no other gets it while
the run goes on. -/
structure Names (before : List Action) (registration : Action) (after : List Action)
    (id : UInt64) : Prop where
  givesOut : registration.GivesOut id
  fresh : ∀ loop, run (step heap) new before = some loop → id ∉ loop.pendingIds
  onlyOne : ∀ action ∈ after, ¬action.GivesOut id

end Calls

/-- A step that gives out an id gives out the next one. -/
theorem nextTimerId_step (taken : step heap loop action = some next) :
    (action.GivesOut loop.nextTimerId ∧ next.nextTimerId = loop.nextTimerId + 1) ∨
      ((∀ id, ¬action.GivesOut id) ∧ next.nextTimerId = loop.nextTimerId) := by
  cases step_cases taken with
  | runAfter | runEvery => exact .inl ⟨rfl, rfl⟩
  | cancelTimer timerId =>
      refine .inr ⟨fun _ => id, ?_⟩
      rw [cancelTimer]
      split <;> rfl
  | finishCallback running =>
      refine .inr ⟨fun _ => id, ?_⟩
      simp only [reinsert]
      split <;> rfl
  | enter | takeExpired | startCallback | unwind | leave => exact .inr ⟨fun _ => id, rfl⟩

/-- The ids below the next one have been given out, and no others. -/
structure Numbered (loop : TimerState) (count : Nat) : Prop where
  isHeap : IsHeap Timer.Ordered loop.timers
  next_le : loop.nextTimerId.toNat ≤ count + 1
  pending_lt : ∀ id ∈ loop.pendingIds, id.toNat < loop.nextTimerId.toNat

theorem Numbered.advance {count : Nat} (numbered : loop.Numbered count) (short : count + 2 < 2 ^ 64)
    (taken : step heap loop action = some next) :
    next.Numbered (count + 1) ∧ loop.nextTimerId ≤ next.nextTimerId := by
  have isHeap := keeps_isHeap loop action next trivial taken numbered.isHeap
  have stillPending (id : UInt64) (other : ¬action.GivesOut id) (pending : id ∈ next.pendingIds) :
      id ∈ loop.pendingIds := by
    by_contra notPending
    exact (keeps_not_pending loop action next other taken ⟨numbered.isHeap, notPending⟩).2 pending
  have below := numbered.next_le
  rcases nextTimerId_step taken with ⟨givesOut, isNext⟩ | ⟨none, same⟩
  · have isSucc : next.nextTimerId.toNat = loop.nextTimerId.toNat + 1 := by
      rw [isNext]
      exact toNat_add_of_lt (show _ + 1 < 2 ^ 64 by omega)
    refine ⟨⟨isHeap, by omega, fun id pending => ?_⟩, UInt64.le_iff_toNat_le.mpr (by omega)⟩
    by_cases isThis : action.GivesOut id
    · rw [isThis.unique givesOut]
      omega
    · have before := numbered.pending_lt id (stillPending id isThis pending)
      omega
  · refine ⟨⟨isHeap, by rw [same]; omega, fun id pending => ?_⟩, same ▸ UInt64.le_refl _⟩
    rw [same]
    exact numbered.pending_lt id (stillPending id (none id) pending)

theorem numbered_of_run (ran : run (step heap) new labels = some loop)
    (short : labels.length + 1 < 2 ^ 64) : loop.Numbered labels.length := by
  let relation (labels : List Action) (loop : TimerState) : Prop :=
    labels.length + 1 < 2 ^ 64 → loop.Numbered labels.length
  have start : relation [] new := fun _ =>
    ⟨isHeap_nil, by decide, by simp [pendingIds, new, Phase.held]⟩
  have numbered : relation labels loop := by
    refine run_induction start ?_ ran
    intro labels loop action next ih taken short
    rw [List.length_append] at short ⊢
    exact ((ih (Nat.lt_of_succ_lt short)).advance short taken).1
  exact numbered short

/-- The ids that a run gives out have not been given out before. -/
theorem Numbered.le_of_givesOut {count : Nat} (numbered : loop.Numbered count)
    (ran : run (step heap) loop labels = some last) (short : count + labels.length + 1 < 2 ^ 64)
    (member : action ∈ labels) (givesOut : action.GivesOut id) : loop.nextTimerId ≤ id := by
  induction labels generalizing loop count with
  | nil => cases member
  | cons first labels ih =>
      rcases run_cons_iff.mp ran with ⟨next, taken, rest⟩
      rw [List.length_cons] at short
      rcases numbered.advance (by omega) taken with ⟨numberedNext, atMost⟩
      rcases List.mem_cons.mp member with rfl | later
      · rcases nextTimerId_step taken with ⟨isNext, -⟩ | ⟨none, -⟩
        · exact givesOut.unique isNext ▸ UInt64.le_refl _
        · exact absurd givesOut (none id)
      · exact UInt64.le_trans atMost (ih numberedNext rest (by omega) later)

/-- In a run of fewer than `2 ^ 64 - 1` steps every id names the timer that got it. -/
theorem names_of_run {before after : List Action} {registration : Action}
    (ran : run (step heap) new (before ++ registration :: after) = some last)
    (short : (before ++ registration :: after).length + 1 < 2 ^ 64)
    (givesOut : registration.GivesOut id) : Names heap before registration after id := by
  rcases run_append_iff.mp ran with ⟨loop, toLoop, fromLoop⟩
  rcases run_cons_iff.mp fromLoop with ⟨next, taken, rest⟩
  rw [List.length_append, List.length_cons] at short
  have numbered := numbered_of_run toLoop (by omega)
  have numberedNext := (numbered.advance (by omega) taken).1
  rcases nextTimerId_step taken with ⟨isNext, isSucc⟩ | ⟨none, -⟩
  · have sameId := givesOut.unique isNext
    refine ⟨givesOut, fun loop' toLoop' => ?_, fun action member again => ?_⟩
    · cases toLoop.symm.trans toLoop'
      intro pending
      have below := numbered.pending_lt id pending
      rw [sameId] at below
      exact Nat.lt_irrefl _ below
    · have atLeast := numberedNext.le_of_givesOut rest (by omega) member again
      have below := numbered.next_le
      rw [isSucc, sameId, UInt64.le_iff_toNat_le,
        toNat_add_of_lt (show _ + 1 < 2 ^ 64 by omega)] at atLeast
      exact absurd atLeast (Nat.not_succ_le_self _)
  · exact absurd givesOut (none id)

/-- When the timer has been called, it is followed until the end of its interval. -/
theorem Punctual.call {timer : Timer} {rest : List Timer}
    (punctual : loop.Punctual id bound interval)
    (serving : loop.phase = .serving now (timer :: rest)) (isTimer : timer.id = id)
    (taken : step heap loop (.startCallback id) = some next) :
    next.Punctual id (now.toNat + interval.toNat) interval where
  isHeap := keeps_isHeap loop _ next trivial taken punctual.isHeap
  due := due_step punctual.due punctual.isHeap taken
  follows := by
    rcases step_startCallback_iff.mp taken with ⟨now', timer', rest', serving', -, rfl⟩
    cases serving.symm.trans serving'
    exact punctual.follows.start serving isTimer

/-- The timer is followed along the run that comes after its registration. -/
theorem punctual_of_run {before after : List Action} {registration : Action}
    {clock delay : UInt64} (names : Names heap before registration after id)
    (noWrap : ∀ current action next,
      Takes (step heap) new (before ++ registration :: after) current action next →
        current.NoWrap action)
    (registers : registration.firing = [⟨id, clock.toNat + delay.toNat, interval⟩])
    (ran : run (step heap) new (before ++ registration :: after) = some last) :
    last.Punctual id (clock.toNat + delay.toNat) interval := by
  rcases run_append_iff.mp ran with ⟨loop, toLoop, fromLoop⟩
  rcases run_cons_iff.mp fromLoop with ⟨next, registered, rest⟩
  have takesAll {current : TimerState} {action : Action} {next : TimerState}
      (takes : Takes (step heap) loop (registration :: after) current action next) :
      current.NoWrap action := noWrap current action next (takes.of_append toLoop)
  have atRegistration : loop.NoWrap registration :=
    takesAll ⟨[], by simp, rfl, registered⟩
  have start := punctual_of_registration (isHeap_of_run toLoop) (due_of_run toLoop)
    (names.fresh loop toLoop) registers atRegistration registered
  apply start.run rest _ names.onlyOne
  intro current action next takes
  rcases takes with ⟨between, isPrefix, toCurrent, taken⟩
  exact takesAll ⟨registration :: between, by simpa using isPrefix,
    run_cons_iff.mpr ⟨_, registered, toCurrent⟩, taken⟩

/-- **Timers are not early.**  In a run none of whose additions wraps, a timer is not called in a
call whose clock is before the time of its registration and its delay together, and two calls of
a repeated timer are at least its interval apart. -/
theorem never_early {before after : List Action} {registration : Action}
    (names : Names heap before registration after id)
    (noWrap : ∀ current action next,
      Takes (step heap) new (before ++ registration :: after) current action next →
        current.NoWrap action) :
    (∀ clock delay now,
      registration = .runAfter clock delay id ∨ registration = .runEvery clock delay id →
      AboutToCall heap (before ++ registration :: after) id now →
        clock.toNat + delay.toNat ≤ now.toNat) ∧
    ∀ clock interval earlier now first second,
      registration = .runEvery clock interval id → after = first ++ .startCallback id :: second →
      AboutToCall heap (before ++ registration :: first) id earlier →
      AboutToCall heap (before ++ registration :: after) id now →
        earlier.toNat + interval.toNat ≤ now.toNat := by
  constructor
  · rintro clock delay now isRegistration ⟨loop, timer, rest, ran, serving, isTimer⟩
    rcases isRegistration with rfl | rfl
    · have punctual := punctual_of_run names noWrap rfl ran
      exact punctual.follows.not_early punctual.due serving isTimer
    · have punctual := punctual_of_run names noWrap rfl ran
      exact punctual.follows.not_early punctual.due serving isTimer
  · rintro clock interval earlier now first second rfl rfl
      ⟨loop, timer, rest, ran, serving, isTimer⟩ ⟨last, timer', rest', ranLast, serving', isTimer'⟩
    have whole : before ++ .runEvery clock interval id :: (first ++ .startCallback id :: second) =
        (before ++ .runEvery clock interval id :: first) ++ .startCallback id :: second := by simp
    rw [whole] at noWrap ranLast
    rcases run_append_iff.mp ranLast with ⟨middle, toMiddle, fromMiddle⟩
    cases ran.symm.trans toMiddle
    rcases run_cons_iff.mp fromMiddle with ⟨next, taken, ranSecond⟩
    have namesFirst : Names heap before (.runEvery clock interval id) first id :=
      ⟨names.givesOut, names.fresh, fun action member =>
        names.onlyOne action (List.mem_append_left _ member)⟩
    have noWrapFirst (current : TimerState) (action : Action) (next : TimerState)
        (takes : Takes (step heap) new (before ++ .runEvery clock interval id :: first)
          current action next) : current.NoWrap action :=
      noWrap current action next (takes.of_prefix (List.prefix_append ..))
    have noWrapSecond (current : TimerState) (action : Action) (after : TimerState)
        (takes : Takes (step heap) next second current action after) : current.NoWrap action := by
      apply noWrap current action after
      rw [List.append_cons _ (Action.startCallback id)]
      exact takes.of_append (run_append_iff.mpr
        ⟨loop, ran, run_cons_iff.mpr ⟨next, taken, run_nil_iff.mpr rfl⟩⟩)
    have called := (punctual_of_run namesFirst noWrapFirst rfl ran).call serving isTimer taken
    have later := called.run ranSecond noWrapSecond fun action member =>
      names.onlyOne action (List.mem_append_right _ (List.mem_cons_of_mem _ member))
    exact later.follows.not_early later.due serving' isTimer'

/-- The loop calls a timer, puts it back, and is about to call it again. -/
def callsTwice : List Action :=
  [.enter 15, .takeExpired, .startCallback 1, .finishCallback, .leave, .enter 25, .takeExpired]

theorem never_early_callsTwice :
    AboutToCall (.sorting Timer.Ordered) ([] ++ .runEvery 5 10 1 :: callsTwice) 1 25 ∧
      (15 : UInt64).toNat + (10 : UInt64).toNat ≤ (25 : UInt64).toNat := by
  have names : Names (.sorting Timer.Ordered) [] (.runEvery 5 10 1) callsTwice 1 :=
    names_of_run rfl (by decide) rfl
  have noWrap : ∀ current action next,
      Takes (step (.sorting Timer.Ordered)) new ([] ++ .runEvery 5 10 1 :: callsTwice)
        current action next → current.NoWrap action := by
    refine forall_takes_cons rfl
      (show (5 : UInt64).toNat + (10 : UInt64).toNat < 2 ^ 64 by decide) ?_
    refine forall_takes_cons rfl trivial (forall_takes_cons rfl trivial ?_)
    refine forall_takes_cons rfl trivial (forall_takes_cons rfl ?_ ?_)
    · rintro now timer rest ⟨⟩ isRepeated
      decide
    · refine forall_takes_cons rfl trivial (forall_takes_cons rfl trivial ?_)
      refine forall_takes_cons rfl trivial ?_
      rintro current action next ⟨before, isPrefix, -⟩
      simp at isPrefix
  have secondCall :
      AboutToCall (.sorting Timer.Ordered) ([] ++ .runEvery 5 10 1 :: callsTwice) 1 25 :=
    ⟨_, _, _, rfl, rfl, rfl⟩
  exact ⟨secondCall, (never_early names noWrap).2 5 10 15 25 [.enter 15, .takeExpired] _ rfl rfl
    ⟨_, _, _, rfl, rfl, rfl⟩ secondCall⟩

/-- A delay of `2 ^ 64 - 1` milliseconds is over at once, a millisecond after the clock has
started. -/
theorem early_of_wrap :
    Names (.sorting Timer.Ordered) [] (.runAfter 1 18446744073709551615 1)
        [.enter 1, .takeExpired] 1 ∧
      AboutToCall (.sorting Timer.Ordered)
        ([] ++ .runAfter 1 18446744073709551615 1 :: [.enter 1, .takeExpired]) 1 1 ∧
      ¬(1 : UInt64).toNat + (18446744073709551615 : UInt64).toNat ≤ (1 : UInt64).toNat := by
  exact ⟨names_of_run rfl (by decide) rfl, ⟨_, _, _, rfl, rfl, rfl⟩, by decide⟩

end TimerState

end PPServer.EventLoop
