import Mathlib.Algebra.Group.Nat.Defs
import PPServer.EventLoop.Cancellation

/-!
# The timer store

Ids are given out in order, starting with one, so every pending timer has one of those that have
been given out, and no two have the same before the counter has gone through all its values.  It
comes back to zero when one id fewer has been given out than it has values.
-/

namespace PPServer.EventLoop

open PPServer.Heap PPServer.Transition

/-- The action creates a timer. -/
def Action.Creates : Action → Bool
  | .runAfter _ _ _ | .runEvery _ _ _ => true
  | _ => false

/-- The number of timers that the actions create. -/
def created (actions : List Action) : Nat := actions.countP Action.Creates

namespace TimerState

variable {heap : HeapAlgorithms Timer.Ordered} {loop next : TimerState} {action : Action}
variable {actions : List Action} {count : Nat}

/-! ## Ids in order -/

theorem issued_eq (loop : TimerState) (action : Action) :
    loop.issued action = if action.Creates then [loop.nextTimerId] else [] := by
  cases action <;> rfl

theorem Step.nextTimerId_eq (steps : Step heap loop action next) :
    next.nextTimerId = if action.Creates then loop.nextTimerId + 1 else loop.nextTimerId := by
  cases steps with
  | cancelTimer timerId =>
      simp only [TimerState.cancelTimer]
      split <;> rfl
  | finishCallback running =>
      simp only [TimerState.reinsert]
      split <;> rfl
  | _ => rfl

theorem nodup_of_subperm {fewer ids : List UInt64} (subperm : fewer.Subperm ids)
    (distinct : ids.Nodup) : fewer.Nodup := by
  rcases subperm with ⟨same, perm, sublist⟩
  exact perm.nodup_iff.mp (distinct.sublist sublist)

/-- `count` timers have been created, and their ids are all different. -/
structure InOrder (count : Nat) (loop : TimerState) : Prop where
  isHeap : IsHeap Timer.Ordered loop.timers
  next : loop.nextTimerId.toNat = (count + 1) % 2 ^ 64
  distinct : loop.pendingIds.Nodup
  given : ∀ timerId ∈ loop.pendingIds, timerId.toNat ≤ count

theorem inOrder_new : InOrder 0 new where
  isHeap := isHeap_nil
  next := rfl
  distinct := .nil
  given := by simp [new, pendingIds, Phase.held]

/-- The next id is new, as long as the counter has not gone through all its values. -/
theorem InOrder.notMem_pendingIds (inOrder : loop.InOrder count) (few : count + 1 < 2 ^ 64) :
    loop.nextTimerId ∉ loop.pendingIds := by
  intro pending
  have given := inOrder.given loop.nextTimerId pending
  rw [inOrder.next, Nat.mod_eq_of_lt few] at given
  exact Nat.not_succ_le_self count given

theorem InOrder.step (inOrder : loop.InOrder count) (taken : step heap loop action = some next)
    (few : count + (if action.Creates then 1 else 0) < 2 ^ 64) :
    next.InOrder (count + if action.Creates then 1 else 0) := by
  have steps := step_cases taken
  have subperm := steps.subperm_pendingIds inOrder.isHeap
  have counter := steps.nextTimerId_eq
  rw [issued_eq] at subperm
  have isHeap := keeps_isHeap loop action next trivial taken inOrder.isHeap
  cases creates : action.Creates with
  | false =>
      simp only [creates, Bool.false_eq_true, if_false, List.nil_append] at subperm counter ⊢
      exact
        { isHeap
          next := counter.symm ▸ inOrder.next
          distinct := nodup_of_subperm subperm inOrder.distinct
          given := fun timerId pending => inOrder.given timerId (subperm.subset pending) }
  | true =>
      simp only [creates, if_true] at subperm counter few ⊢
      have fresh : (loop.nextTimerId :: loop.pendingIds).Nodup :=
        List.nodup_cons.mpr ⟨inOrder.notMem_pendingIds few, inOrder.distinct⟩
      exact
        { isHeap
          next := by
            rw [counter, UInt64.toNat_add, inOrder.next, UInt64.toNat_one, Nat.mod_add_mod]
          distinct := nodup_of_subperm subperm fresh
          given := by
            intro timerId pending
            rcases List.mem_cons.mp (subperm.subset pending) with rfl | old
            · rw [inOrder.next]
              exact Nat.mod_le _ _
            · exact Nat.le_succ_of_le (inOrder.given timerId old) }

theorem created_append (first second : List Action) :
    created (first ++ second) = created first + created second :=
  List.countP_append

theorem created_singleton (action : Action) :
    created [action] = if action.Creates then 1 else 0 := by
  simp [created, List.countP_singleton]

theorem inOrder_of_run (ran : run (step heap) new actions = some loop)
    (few : created actions < 2 ^ 64) : loop.InOrder (created actions) := by
  revert few
  apply run_induction (fun _ => inOrder_new) _ ran
  intro actions loop action next inOrder taken few
  rw [created_append, created_singleton] at few ⊢
  exact (inOrder (Nat.lt_of_le_of_lt (Nat.le_add_right _ _) few)).step taken few

/-! ## The invariant of the store -/

/-- The vector is a heap, so that its front has the least expiration; no id is pending twice; and a
cancellation takes out the timer with the id, and nothing else. -/
structure Represents (heap : HeapAlgorithms Timer.Ordered) (loop : TimerState) : Prop where
  isHeap : IsHeap Timer.Ordered loop.timers
  front : ∀ front rest, loop.timers = front :: rest →
    ∀ timer ∈ loop.timers, front.expiration ≤ timer.expiration
  distinct : loop.pendingIds.Nodup
  cancels : ∀ timerId,
    (loop.cancelTimer heap timerId).timers.Perm
        (loop.timers.filter fun timer => timer.id != timerId) ∧
      (loop.cancelTimer heap timerId).phase = loop.phase

/-- Among timers with different ids, the first with an id is the only one. -/
theorem eraseP_id_eq_filter {timers : List Timer} (distinct : (timers.map Timer.id).Nodup)
    (timerId : UInt64) :
    (timers.eraseP fun timer => timer.id == timerId) =
      timers.filter fun timer => timer.id != timerId := by
  induction timers with
  | nil => rfl
  | cons timer timers ih =>
      rw [List.map_cons, List.nodup_cons] at distinct
      by_cases same : timer.id = timerId
      · have others : ∀ other ∈ timers, (other.id != timerId) = true := by
          intro other member
          have differs : other.id ≠ timer.id := fun equal =>
            distinct.1 (equal ▸ List.mem_map_of_mem member)
          simpa [same] using differs
        simp [same, List.filter_eq_self.mpr others]
      · simp [same, ih distinct.2]

theorem InOrder.represents (inOrder : loop.InOrder count) : Represents heap loop where
  isHeap := inOrder.isHeap
  front := by
    intro front rest timers timer member
    have isHeap := inOrder.isHeap
    rw [timers] at isHeap member
    exact Timer.ordered_iff.mp (isHeap.front member)
  distinct := inOrder.distinct
  cancels := by
    intro timerId
    have stored := (List.nodup_append.mp inOrder.distinct).1
    rw [← eraseP_id_eq_filter stored]
    exact ⟨perm_cancelTimer, cancelTimer_phase⟩

/-- **The timer store.**  In every state that a run with fewer than `2 ^ 64` new timers reaches, the
representation invariant holds; and as long as there is an id that has not been given out, those
of the pending timers are below the next one. -/
theorem represents_of_run (ran : run (step heap) new actions = some loop)
    (few : created actions < 2 ^ 64) :
    Represents heap loop ∧
      (created actions < 2 ^ 64 - 1 → ∀ timerId ∈ loop.pendingIds, timerId < loop.nextTimerId) := by
  have inOrder := inOrder_of_run ran few
  refine ⟨inOrder.represents, fun fewer timerId pending => ?_⟩
  have given := inOrder.given timerId pending
  rw [UInt64.lt_iff_toNat_lt, inOrder.next, Nat.mod_eq_of_lt (Nat.add_lt_of_lt_sub fewer)]
  exact Nat.lt_succ_of_le given

/-- A timer that repeats itself cancels another one, before it goes back. -/
theorem represents_of_run_repeated :
    ∃ loop, run (step (.sorting Timer.Ordered)) new
        [.runEvery 0 10 1, .runAfter 0 20 2, .enter 10, .takeExpired, .startCallback 1,
          .cancelTimer 2, .finishCallback] = some loop ∧
      Represents (.sorting Timer.Ordered) loop ∧
        ∀ timerId ∈ loop.pendingIds, timerId < loop.nextTimerId := by
  refine ⟨⟨[⟨1, 20, 10, true⟩], 3, .serving 10 []⟩, by decide, ?_⟩
  have spec := represents_of_run (show run (step (.sorting Timer.Ordered)) new
    [.runEvery 0 10 1, .runAfter 0 20 2, .enter 10, .takeExpired, .startCallback 1,
      .cancelTimer 2, .finishCallback] = some ⟨[⟨1, 20, 10, true⟩], 3, .serving 10 []⟩ by decide)
    (by decide)
  exact ⟨spec.1, spec.2 (by decide)⟩

/-! ## All ids -/

/-- One timer after the other is created and cancelled. -/
def churn (count : Nat) : List Action :=
  (List.range count).flatMap fun index =>
    [.runAfter 0 0 (UInt64.ofNat (index + 1)), .cancelTimer (UInt64.ofNat (index + 1))]

theorem churn_succ (count : Nat) :
    churn (count + 1) = churn count ++
      [.runAfter 0 0 (UInt64.ofNat (count + 1)), .cancelTimer (UInt64.ofNat (count + 1))] := by
  rw [churn, List.range_succ, List.flatMap_append, List.flatMap_singleton]
  rfl

theorem created_churn (count : Nat) : created (churn count) = count := by
  induction count with
  | zero => rfl
  | succ count ih =>
      rw [churn_succ, created_append, ih]
      rfl

theorem pushHeap_singleton (heap : HeapAlgorithms Timer.Ordered) (timer : Timer) :
    heap.pushHeap [timer] = [timer] :=
  List.perm_singleton.mp (heap.pushHeap_spec [] timer isHeap_nil).1

theorem makeHeap_nil (heap : HeapAlgorithms Timer.Ordered) : heap.makeHeap [] = [] :=
  List.perm_nil.mp (heap.makeHeap_spec []).1

theorem step_runAfter_empty (heap : HeapAlgorithms Timer.Ordered) (timerId : UInt64) :
    step heap ⟨[], timerId, .outside⟩ (.runAfter 0 0 timerId) =
      some ⟨[⟨timerId, 0, 0, false⟩], timerId + 1, .outside⟩ := by
  apply step_runAfter_iff.mpr
  simp [runAfter, register, pushTimer, pushHeap_singleton]

theorem run_churn (heap : HeapAlgorithms Timer.Ordered) (count : Nat) :
    run (step heap) new (churn count) = some ⟨[], UInt64.ofNat (count + 1), .outside⟩ := by
  induction count with
  | zero => rfl
  | succ count ih =>
      have cancelled : (cancelTimer heap (UInt64.ofNat (count + 1))
          ⟨[⟨UInt64.ofNat (count + 1), 0, 0, false⟩], UInt64.ofNat (count + 1) + 1, .outside⟩) =
            ⟨[], UInt64.ofNat (count + 1 + 1), .outside⟩ := by
        simp [cancelTimer, makeHeap_nil, UInt64.ofNat_add]
      rw [churn_succ]
      apply run_append_iff.mpr ⟨_, ih, _⟩
      apply run_cons_iff.mpr ⟨_, step_runAfter_empty heap _, _⟩
      exact run_cons_iff.mpr ⟨_, congrArg some cancelled, run_nil_iff.mpr rfl⟩

/-- The last id is given out, and the next one is zero again. -/
theorem not_below_next_wrapped :
    run (step (.sorting Timer.Ordered)) new
        (churn 18446744073709551614 ++ [.runAfter 0 0 18446744073709551615]) =
          some ⟨[⟨18446744073709551615, 0, 0, false⟩], 0, .outside⟩ ∧
      created (churn 18446744073709551614 ++ [.runAfter 0 0 18446744073709551615]) < 2 ^ 64 ∧
      ¬∀ timerId ∈ pendingIds ⟨[⟨18446744073709551615, 0, 0, false⟩], 0, .outside⟩,
        timerId < (0 : UInt64) := by
  refine ⟨?_, ?_, fun below => ?_⟩
  · apply run_append_iff.mpr ⟨_, run_churn _ _, _⟩
    exact run_cons_iff.mpr ⟨_, step_runAfter_empty _ 18446744073709551615, rfl⟩
  · rw [created_append, created_churn]
    decide
  · exact absurd (below 18446744073709551615 (by decide)) (by decide)

end TimerState

end PPServer.EventLoop
