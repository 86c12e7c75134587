import PPServer.EventLoop.TimerHeap
import PPServer.Library.Fifo

/-!
# One call of `ProcessExpiredTimers`

Between the moment at which the loop thread takes its batch and the moment at which it has
served it, callbacks and other threads register and cancel timers.  What the loop owes to its
timers at any moment is what it stores and what it has still to put back, and a step changes
that by what it adds and what it erases.  The callbacks come from the batch in the order in
which it was taken from the heap.  Nobody can keep the loop thread from its next callback, or from
leaving after the last, so the call ends if its callbacks do.
-/

namespace PPServer.EventLoop

open Heap Transition Fifo

/-- The timer that a registration stores. -/
def Action.added : Action → List Timer
  | .runAfter clock delayMs returned => [⟨returned, clock + delayMs, 0, false⟩]
  | .runEvery clock intervalMs returned => [⟨returned, clock + intervalMs, intervalMs, true⟩]
  | _ => []

/-- The timer whose callback is called. -/
def Action.started : Action → List UInt64
  | .startCallback timerId => [timerId]
  | _ => []

/-- The action is a step inside one call, or of another thread. -/
def Action.IsInside : Action → Prop
  | .takeExpired | .unwind => False
  | _ => True

/-- The loop thread calls a callback, or has come back from it. -/
def Action.serves : Action → Bool
  | .startCallback _ | .finishCallback => true
  | _ => false

/-- The repeated timers of a batch, with the expirations that they get when they have been
served. -/
def rearmed (now : UInt64) (batch : List Timer) : List Timer :=
  (batch.filter Timer.repeated).map fun timer =>
    { timer with expiration := now + timer.interval }

/-- The timers of the batch whose callbacks have not been called. -/
def Phase.toStart : Phase → List Timer
  | .serving _ rest | .running _ _ rest => rest
  | .outside | .entered _ => []

/-- The timers that the loop thread has still to put back. -/
def Phase.toRearm : Phase → List Timer
  | .serving now rest => rearmed now rest
  | .running now timer rest => rearmed now (timer :: rest)
  | .outside | .entered _ => []

/-- The loop thread has taken its batch, and has not left the call. -/
def Phase.IsServing : Phase → Prop
  | .serving _ _ | .running _ _ _ => True
  | .outside | .entered _ => False

/-- The steps that the loop thread has still to take for its batch. -/
def Phase.stepsLeft : Phase → Nat
  | .serving _ rest => 2 * rest.length
  | .running _ _ rest => 2 * rest.length + 1
  | .outside | .entered _ => 0

namespace TimerState

variable {heap : HeapAlgorithms Timer.Ordered} {loop next last : TimerState} {now : UInt64}
variable {action : Action} {labels : List Action} {timer : Timer}

/-! ## The order of the batch -/

/-- The front of a heap leaves it first, so the batch is in the order of the expirations. -/
theorem pairwise_popExpired (fuel : Nat) {expired timers : List Timer}
    (isHeap : IsHeap Timer.Ordered timers) (sorted : expired.Pairwise Timer.Ordered)
    (before : ∀ first ∈ expired, ∀ second ∈ timers, first.Ordered second) :
    (popExpired heap now fuel expired timers).1.Pairwise Timer.Ordered := by
  induction fuel generalizing expired timers with
  | zero => exact sorted
  | succ fuel ih =>
      cases timers with
      | nil => exact sorted
      | cons front rest =>
          by_cases isExpired : front.expiration ≤ now
          · obtain ⟨others, perm, isHeapOthers, popped⟩ :=
              exists_popExpired_cons heap now fuel expired isHeap isExpired
            have inRest {second : Timer} (member : second ∈ others) : second ∈ front :: rest :=
              List.mem_cons_of_mem front (perm.mem_iff.mp member)
            rw [popped]
            apply ih isHeapOthers
            · refine List.pairwise_append.mpr ⟨sorted, List.pairwise_singleton .., ?_⟩
              intro first member second isFront
              rw [List.mem_singleton.mp isFront]
              exact before first member front List.mem_cons_self
            · intro first member second isOther
              rcases List.mem_append.mp member with isBefore | isFront
              · exact before first isBefore second (inRest isOther)
              · rw [List.mem_singleton.mp isFront]
                exact isHeap.front (inRest isOther)
          · simp only [popExpired, if_neg isExpired]
            exact sorted

variable (heap now) in
/-- The batch consists of the timers that have expired, sorted by expiration; the others stay. -/
theorem exists_takeExpired (isHeap : IsHeap Timer.Ordered loop.timers) :
    ∃ batch left,
      loop.takeExpired heap now = { loop with timers := left, phase := .serving now batch } ∧
        batch.Perm (loop.timers.filter fun timer => timer.expiration ≤ now) ∧
        batch.Pairwise Timer.Ordered ∧
        left.Perm (loop.timers.filter fun timer => now < timer.expiration) ∧
        IsHeap Timer.Ordered left := by
  obtain ⟨batch, left, result, perm, isHeapLeft, due, late⟩ := takeExpired_spec heap now isHeap
  refine ⟨batch, left, result, ?_, ?_, ?_, isHeapLeft⟩
  · have expired := perm.filter fun timer => decide (timer.expiration ≤ now)
    rw [List.filter_append, List.filter_eq_self.mpr (by simpa using due),
      List.filter_eq_nil_iff.mpr (by simpa using late), List.append_nil] at expired
    exact expired
  · have sorted : (popExpired heap now loop.timers.length [] loop.timers).1.Pairwise
        Timer.Ordered := pairwise_popExpired _ isHeap .nil (by simp)
    have phase := congrArg TimerState.phase result
    simp only [takeExpired, Phase.serving.injEq, true_and] at phase
    exact phase ▸ sorted
  · have waiting := perm.filter fun timer => decide (now < timer.expiration)
    rw [List.filter_append, List.filter_eq_nil_iff.mpr (by simpa using due),
      List.filter_eq_self.mpr (by simpa using late), List.nil_append] at waiting
    exact waiting

/-! ## Callbacks -/

/-- The callbacks of the batch that have not been called. -/
def idsToStart (loop : TimerState) : List UInt64 := loop.phase.toStart.map Timer.id

/-- Callbacks are called in the order of the batch. -/
theorem keepsOrder_started :
    KeepsOrder (step heap) Action.IsInside (fun _ => []) Action.started idsToStart := by
  intro loop action next inside taken
  rw [List.append_nil]
  cases step_cases taken with
  | runAfter | runEvery => rfl
  | cancelTimer timerId => simp [idsToStart, Action.started]
  | enter now outside => simp [idsToStart, Action.started, Phase.toStart, outside]
  | takeExpired | unwind => exact inside.elim
  | startCallback point | finishCallback point | leave point =>
      simp [idsToStart, Action.started, Phase.toStart, point]

/-! ## Timers -/

/-- The timer that a step erases: `CancelTimer` erases the first with its id. -/
def erased (loop : TimerState) : Action → List Timer
  | .cancelTimer timerId => (loop.timers.find? fun timer => timer.id == timerId).toList
  | _ => []

/-- The timers that the steps of a run erase. -/
def erasedAlong (heap : HeapAlgorithms Timer.Ordered) : TimerState → List Action → List Timer
  | _, [] => []
  | loop, action :: actions =>
      loop.erased action ++
        (step heap loop action).elim [] fun next => erasedAlong heap next actions

/-- The timers that the loop has to keep: those it stores and those it has still to put back. -/
def kept (loop : TimerState) : List Timer := loop.timers ++ loop.phase.toRearm

theorem perm_eraseP_append_find? {α : Type} (decides : α → Bool) (items : List α) :
    (items.eraseP decides ++ (items.find? decides).toList).Perm items := by
  induction items with
  | nil => exact .refl _
  | cons item items ih =>
      cases found : decides item with
      | true => simp [found]
      | false => simpa [found] using ih.cons item

/-- A cancellation takes out the timer that it erases. -/
theorem perm_cancelTimer_append_erased (timerId : UInt64) :
    ((loop.cancelTimer heap timerId).timers ++ loop.erased (.cancelTimer timerId)).Perm
      loop.timers :=
  (perm_cancelTimer.append_right _).trans (perm_eraseP_append_find? _ loop.timers)

/-- The end of a callback puts back its timer, if it is repeated. -/
theorem perm_timers_reinsert (isHeap : IsHeap Timer.Ordered loop.timers) (rest : List Timer) :
    ((loop.reinsert heap now timer).timers ++ rearmed now rest).Perm
      (loop.timers ++ rearmed now (timer :: rest)) := by
  simp only [reinsert]
  split
  next repeated =>
      let later : Timer := { timer with expiration := now + timer.interval }
      have pushed : (loop.pushTimer heap later).timers.Perm (loop.timers ++ [later]) :=
        perm_pushTimer isHeap
      simpa [rearmed, repeated, later] using pushed.append_right (rearmed now rest)
  next once => simp [rearmed, once]

/-- A step changes what the loop keeps by what it adds and what it erases. -/
theorem perm_kept_step (isHeap : IsHeap Timer.Ordered loop.timers) (inside : action.IsInside)
    (taken : step heap loop action = some next) :
    (next.kept ++ loop.erased action).Perm (loop.kept ++ action.added) := by
  have registered (timer : Timer) :
      ((loop.pushTimer heap timer).timers ++ loop.phase.toRearm ++ []).Perm
        (loop.timers ++ loop.phase.toRearm ++ [timer]) := by
    rw [List.append_nil, List.append_assoc]
    apply ((perm_pushTimer isHeap).append_right _).trans
    rw [List.append_assoc]
    exact List.perm_append_comm.append_left loop.timers
  cases step_cases taken with
  | runAfter | runEvery => exact registered _
  | cancelTimer timerId =>
      rw [kept, cancelTimer_phase, List.append_assoc]
      apply (List.perm_append_comm.append_left _).trans
      rw [← List.append_assoc]
      simpa [kept, Action.added] using
        (perm_cancelTimer_append_erased timerId).append_right loop.phase.toRearm
  | enter now outside => simp [kept, erased, Action.added, outside, Phase.toRearm]
  | takeExpired | unwind => exact inside.elim
  | startCallback serving => simp [kept, erased, Action.added, serving, Phase.toRearm]
  | @finishCallback now timer rest running =>
      simpa [kept, erased, Action.added, running, Phase.toRearm] using
        perm_timers_reinsert isHeap rest
  | leave serving => simp [kept, erased, Action.added, serving, Phase.toRearm, rearmed]

/-- What a run that stays inside one call adds and erases. -/
theorem perm_kept_run (isHeap : IsHeap Timer.Ordered loop.timers)
    (ran : run (step heap) loop labels = some last)
    (inside : ∀ action ∈ labels, action.IsInside) :
    (last.kept ++ erasedAlong heap loop labels).Perm
      (loop.kept ++ labels.flatMap Action.added) := by
  induction labels generalizing loop with
  | nil =>
      rw [run_nil_iff] at ran
      simp [ran, erasedAlong]
  | cons action labels ih =>
      rcases run_cons_iff.mp ran with ⟨next, taken, rest⟩
      rw [List.forall_mem_cons] at inside
      have isHeapNext : IsHeap Timer.Ordered next.timers :=
        keeps_isHeap loop action next trivial taken isHeap
      have atStep := List.perm_iff_count.mp (perm_kept_step isHeap inside.1 taken)
      have atRest := List.perm_iff_count.mp (ih isHeapNext rest inside.2)
      apply List.perm_iff_count.mpr
      intro timer
      have count := atStep timer
      have countRest := atRest timer
      simp only [erasedAlong, taken, Option.elim_some, List.flatMap_cons, List.count_append]
        at count countRest ⊢
      omega

theorem cancelTimer_mem_of_mem_erasedAlong (member : timer ∈ erasedAlong heap loop labels) :
    .cancelTimer timer.id ∈ labels := by
  induction labels generalizing loop with
  | nil => cases member
  | cons action labels ih =>
      rcases List.mem_append.mp member with now | later
      · cases action with
        | cancelTimer timerId =>
            have matched := List.find?_some (Option.mem_toList.mp now)
            rw [beq_iff_eq.mp matched]
            exact List.mem_cons_self
        | _ => cases now
      · cases taken : step heap loop action with
        | none => rw [taken] at later; cases later
        | some next =>
            rw [taken] at later
            exact List.mem_cons_of_mem _ (ih later)

theorem exists_mem_of_mem_rearmed {batch : List Timer} (member : timer ∈ rearmed now batch) :
    ∃ expired ∈ batch, expired.id = timer.id := by
  rcases List.mem_map.mp member with ⟨expired, isRepeated, rfl⟩
  exact ⟨expired, List.mem_of_mem_filter isRepeated, rfl⟩

/-- What has been taken out, and is not in one part of the whole, has been taken out of the
other. -/
theorem exists_perm_append {remaining out first second : List Timer}
    (perm : (remaining ++ out).Perm (first ++ second)) (disjoint : ∀ timer ∈ out, timer ∉ second) :
    ∃ others, (others ++ out).Perm first ∧ remaining.Perm (others ++ second) := by
  have counts := List.perm_iff_count.mp perm
  have atMost : ∀ timer ∈ out, out.count timer ≤ first.count timer := by
    intro timer member
    have count := counts timer
    have absent : second.count timer = 0 := List.count_eq_zero.mpr (disjoint timer member)
    simp only [List.count_append] at count
    omega
  have whole : (first.diff out ++ out).Perm first :=
    List.perm_append_comm.trans (List.subperm_append_diff_self_of_count_le atMost)
  refine ⟨first.diff out, whole, ?_⟩
  have behind : (remaining ++ out).Perm (first.diff out ++ second ++ out) := by
    apply (perm.trans (whole.symm.append_right second)).trans
    rw [List.append_assoc, List.append_assoc]
    exact List.perm_append_comm.append_left _
  exact (List.perm_append_right_iff out).mp behind

/-! ## The end of the call -/

/-- Within the call each step of the loop thread is one of those that were left, and no other step
is. -/
theorem stepsLeft_step (serving : loop.phase.IsServing) (inside : action.IsInside)
    (stays : action ≠ .leave) (taken : step heap loop action = some next) :
    next.phase.IsServing ∧
      action.serves.toNat + next.phase.stepsLeft = loop.phase.stepsLeft := by
  cases step_cases taken with
  | runAfter | runEvery => exact ⟨serving, Nat.zero_add _⟩
  | cancelTimer timerId =>
      rw [cancelTimer_phase]
      exact ⟨serving, Nat.zero_add _⟩
  | enter now outside =>
      rw [outside] at serving
      exact serving.elim
  | takeExpired | unwind => exact inside.elim
  | startCallback point | finishCallback point =>
      rw [point]
      exact ⟨trivial, Nat.add_comm 1 _⟩
  | leave => exact absurd rfl stays

theorem stepsLeft_run (serving : loop.phase.IsServing)
    (inside : ∀ action ∈ labels, action.IsInside) (stays : .leave ∉ labels)
    (ran : run (step heap) loop labels = some last) :
    last.phase.IsServing ∧
      labels.countP Action.serves + last.phase.stepsLeft = loop.phase.stepsLeft := by
  induction labels generalizing loop with
  | nil =>
      rw [run_nil_iff] at ran
      exact ran ▸ ⟨serving, Nat.zero_add _⟩
  | cons action labels ih =>
      rcases run_cons_iff.mp ran with ⟨next, taken, rest⟩
      rw [List.forall_mem_cons] at inside
      rw [List.mem_cons, not_or] at stays
      rcases stepsLeft_step serving inside.1 (Ne.symm stays.1) taken with ⟨servingNext, first⟩
      rcases ih servingNext inside.2 stays.2 rest with ⟨servingLast, others⟩
      refine ⟨servingLast, ?_⟩
      rw [List.countP_cons, ← first, ← others]
      cases action.serves with
      | true =>
          simp only [if_true, Bool.toNat_true]
          omega
      | false => simp

/-- Between two callbacks the loop thread can go through the rest of its batch, and leave. -/
theorem exists_leave_of_serving {batch : List Timer} (serving : loop.phase = .serving now batch) :
    ∃ rest last, (∀ action ∈ rest, action.serves = true) ∧ rest.length = 2 * batch.length ∧
      run (step heap) loop (rest ++ [.leave]) = some last := by
  induction batch generalizing loop with
  | nil =>
      have leaves : step heap loop .leave = some { loop with phase := .outside } :=
        step_leave_iff.mpr ⟨⟨now, serving⟩, rfl⟩
      exact ⟨[], _, by simp, rfl, run_cons_iff.mpr ⟨_, leaves, run_nil_iff.mpr rfl⟩⟩
  | cons timer batch ih =>
      let started : TimerState := { loop with phase := .running now timer batch }
      let finished : TimerState :=
        { started.reinsert heap now timer with phase := .serving now batch }
      have starts : step heap loop (.startCallback timer.id) = some started :=
        step_startCallback_iff.mpr ⟨now, timer, batch, serving, rfl, rfl⟩
      have finishes : step heap started .finishCallback = some finished :=
        step_finishCallback_iff.mpr ⟨now, timer, batch, rfl, rfl⟩
      have others : ∃ rest last, (∀ action ∈ rest, action.serves = true) ∧
          rest.length = 2 * batch.length ∧
            run (step heap) finished (rest ++ [.leave]) = some last := ih rfl
      rcases others with ⟨rest, last, serve, count, ran⟩
      refine ⟨.startCallback timer.id :: .finishCallback :: rest, last, ?_, ?_, ?_⟩
      · exact List.forall_mem_cons.mpr ⟨rfl, List.forall_mem_cons.mpr ⟨rfl, serve⟩⟩
      · simp only [List.length_cons, count]
        omega
      · exact run_cons_iff.mpr ⟨started, starts, run_cons_iff.mpr ⟨finished, finishes, ran⟩⟩

/-- From wherever it is within the call, the loop thread can go on to its end. -/
theorem exists_leave (serving : loop.phase.IsServing) :
    ∃ rest last, (∀ action ∈ rest, action.serves = true) ∧
      rest.length = loop.phase.stepsLeft ∧
      run (step heap) loop (rest ++ [.leave]) = some last := by
  cases phase : loop.phase with
  | outside | entered =>
      rw [phase] at serving
      exact serving.elim
  | serving now batch => exact exists_leave_of_serving phase
  | running now timer batch =>
      let finished : TimerState :=
        { loop.reinsert heap now timer with phase := .serving now batch }
      have finishes : step heap loop .finishCallback = some finished :=
        step_finishCallback_iff.mpr ⟨now, timer, batch, phase, rfl⟩
      have others : ∃ rest last, (∀ action ∈ rest, action.serves = true) ∧
          rest.length = 2 * batch.length ∧
            run (step heap) finished (rest ++ [.leave]) = some last :=
        exists_leave_of_serving rfl
      rcases others with ⟨rest, last, serve, count, ran⟩
      refine ⟨.finishCallback :: rest, last, List.forall_mem_cons.mpr ⟨rfl, serve⟩, ?_,
        run_cons_iff.mpr ⟨finished, finishes, ran⟩⟩
      rw [List.length_cons, count]
      rfl

/-- The loop thread can take the batch.  Whatever its callbacks and the other threads have done
since, it can go on to the end of the call, and takes two steps for each timer of the batch in
all. -/
def Ends (heap : HeapAlgorithms Timer.Ordered) (loop : TimerState) (batch : List Timer) : Prop :=
  (∃ first, step heap loop .takeExpired = some first) ∧
    ∀ labels middle, run (step heap) loop (.takeExpired :: labels) = some middle →
      (∀ action ∈ labels, action.IsInside) → .leave ∉ labels →
        ∃ rest last, (∀ action ∈ rest, action.serves = true) ∧
          (labels ++ rest).countP Action.serves = 2 * batch.length ∧
          run (step heap) middle (rest ++ [.leave]) = some last

theorem ends_of_entered {batch : List Timer} (entered : loop.phase = .entered now)
    (taken : (loop.takeExpired heap now).phase = .serving now batch) : Ends heap loop batch := by
  refine ⟨⟨_, step_takeExpired_iff.mpr ⟨now, entered, rfl⟩⟩, ?_⟩
  intro labels middle ran inside stays
  rcases run_cons_iff.mp ran with ⟨first, takes, ranInside⟩
  rcases step_takeExpired_iff.mp takes with ⟨now', entered', rfl⟩
  obtain rfl : now = now' := Phase.entered.inj (entered.symm.trans entered')
  rcases stepsLeft_run (taken ▸ trivial) inside stays ranInside with ⟨serving, count⟩
  rcases exists_leave serving with ⟨rest, last, serve, left, ends⟩
  refine ⟨rest, last, serve, ?_, ends⟩
  rw [List.countP_append, List.countP_eq_length.mpr serve, left, count, taken, Phase.stepsLeft]

/-! ## The call -/

/-- A whole call: the batch is taken, served, and used up. -/
theorem exists_served (entered : loop.phase = .entered now)
    (ran : run (step heap) loop (.takeExpired :: (labels ++ [.leave])) = some last) :
    ∃ served clock, run (step heap) (loop.takeExpired heap now) labels = some served ∧
      served.phase = .serving clock [] ∧ last = { served with phase := .outside } := by
  rcases run_cons_iff.mp ran with ⟨first, taken, ranInside⟩
  rcases step_takeExpired_iff.mp taken with ⟨now', entered', rfl⟩
  obtain rfl : now = now' := by
    rw [entered] at entered'
    exact Phase.entered.inj entered'
  rcases run_append_iff.mp ranInside with ⟨served, toServed, ranLeave⟩
  rcases run_cons_iff.mp ranLeave with ⟨next, leaves, ends⟩
  rw [run_nil_iff] at ends
  subst ends
  rcases step_leave_iff.mp leaves with ⟨⟨clock, serving⟩, left⟩
  exact ⟨served, clock, toServed, serving, left.symm⟩

/-- What a whole call has done with its batch.  If no timer of the batch is cancelled, what has been
cancelled was not among those that are put back. -/
structure Served (heap : HeapAlgorithms Timer.Ordered) (loop : TimerState) (now : UInt64)
    (batch : List Timer) (labels : List Action) (last : TimerState) : Prop where
  started : labels.flatMap Action.started = batch.map Timer.id
  stored : (last.timers ++ erasedAlong heap (loop.takeExpired heap now) labels).Perm
    ((loop.timers.filter fun timer => now < timer.expiration) ++
      labels.flatMap Action.added ++ rearmed now batch)
  putBack : (∀ timer ∈ batch, .cancelTimer timer.id ∉ labels) →
    ∃ others,
      (others ++ erasedAlong heap (loop.takeExpired heap now) labels).Perm
        ((loop.timers.filter fun timer => now < timer.expiration) ++
          labels.flatMap Action.added) ∧
      last.timers.Perm (others ++ rearmed now batch)

theorem served_of_run {batch left : List Timer} (isHeap : IsHeap Timer.Ordered left)
    (result : loop.takeExpired heap now =
      { loop with timers := left, phase := .serving now batch })
    (waiting : left.Perm (loop.timers.filter fun timer => now < timer.expiration))
    (entered : loop.phase = .entered now)
    (ran : run (step heap) loop (.takeExpired :: (labels ++ [.leave])) = some last)
    (inside : ∀ action ∈ labels, action.IsInside) : Served heap loop now batch labels last := by
  obtain ⟨served, clock, toServed, serving, rfl⟩ := exists_served entered ran
  have noneLeft : served.idsToStart = [] := by simp [idsToStart, serving, Phase.toStart]
  have nothingToRearm : served.kept = served.timers := by
    simp [kept, serving, Phase.toRearm, rearmed]
  have started := keepsOrder_started.taken_of_put_nil toServed inside noneLeft
  have accounts : (served.timers ++ erasedAlong heap (loop.takeExpired heap now) labels).Perm
      ((loop.timers.filter fun timer => now < timer.expiration) ++
        labels.flatMap Action.added ++ rearmed now batch) := by
    have accounted : (served.kept ++ erasedAlong heap (loop.takeExpired heap now) labels).Perm
        (left ++ rearmed now batch ++ labels.flatMap Action.added) := by
      have account := perm_kept_run (result ▸ isHeap) toServed inside
      rwa [show (loop.takeExpired heap now).kept = left ++ rearmed now batch by rw [result]; rfl]
        at account
    rw [nothingToRearm] at accounted
    apply (accounted.trans ((waiting.append_right _).append_right _)).trans
    rw [List.append_assoc, List.append_assoc]
    exact List.perm_append_comm.append_left _
  refine ⟨?_, accounts, ?_⟩
  · rw [started, result]
    rfl
  · intro outsideBatch
    apply exists_perm_append accounts
    intro timer isErased isRearmed
    rcases exists_mem_of_mem_rearmed isRearmed with ⟨expired, member, sameId⟩
    apply outsideBatch expired member
    rw [sameId]
    exact cancelTimer_mem_of_mem_erasedAlong isErased

/-- **`ProcessExpiredTimers` is exact.**  From the moment at which the lock is taken, one call
comes to its end if its callbacks do, and has then started the callbacks of exactly the timers that
had expired, each once and in the order of their expirations.  What is stored afterwards, with what
has been cancelled meanwhile, are the timers that had not expired, those added meanwhile, and the
repeated ones of the batch with their new expirations. -/
theorem processExpiredTimers_exact (isHeap : IsHeap Timer.Ordered loop.timers)
    (entered : loop.phase = .entered now) :
    ∃ batch,
      batch.Perm (loop.timers.filter fun timer => timer.expiration ≤ now) ∧
      batch.Pairwise (fun first second => first.expiration ≤ second.expiration) ∧
      Ends heap loop batch ∧
      ∀ labels last, run (step heap) loop (.takeExpired :: (labels ++ [.leave])) = some last →
        (∀ action ∈ labels, action.IsInside) → Served heap loop now batch labels last := by
  obtain ⟨batch, left, result, expired, sorted, waiting, isHeapLeft⟩ :=
    exists_takeExpired heap now isHeap
  refine ⟨batch, expired, sorted.imp Timer.ordered_iff.mp, ?_, ?_⟩
  · exact ends_of_entered entered (by rw [result])
  · intro labels last ran inside
    exact served_of_run isHeapLeft result waiting entered ran inside

/-- Two of three timers have expired, of which one is repeated.  Its callback adds a timer that is
due at once, and cancels the one that has not expired. -/
def twoExpired : TimerState :=
  ⟨[⟨2, 5, 5, true⟩, ⟨1, 10, 0, false⟩, ⟨3, 100, 0, false⟩], 4, .entered 10⟩

def twoExpiredSteps : List Action :=
  [.startCallback 2, .runAfter 10 0 4, .cancelTimer 3, .finishCallback, .startCallback 1,
    .finishCallback]

theorem processExpiredTimers_exact_twoExpired :
    ∃ batch : List Timer,
      batch.Perm (twoExpired.timers.filter fun timer => timer.expiration ≤ 10) ∧
      batch.Pairwise (fun first second => first.expiration ≤ second.expiration) ∧
      Ends (.sorting Timer.Ordered) twoExpired batch ∧
      Served (.sorting Timer.Ordered) twoExpired 10 batch twoExpiredSteps
        ⟨[⟨4, 10, 0, false⟩, ⟨2, 15, 5, true⟩], 5, .outside⟩ := by
  have isHeap : IsHeap Timer.Ordered twoExpired.timers := isHeap_of_pairwise (by decide)
  have ran : run (step (.sorting Timer.Ordered)) twoExpired
      (.takeExpired :: (twoExpiredSteps ++ [.leave])) =
        some ⟨[⟨4, 10, 0, false⟩, ⟨2, 15, 5, true⟩], 5, .outside⟩ := by decide
  have inside : ∀ action ∈ twoExpiredSteps, action.IsInside := by
    simp [twoExpiredSteps, Action.IsInside]
  obtain ⟨batch, expired, sorted, ends, served⟩ := processExpiredTimers_exact isHeap rfl
  exact ⟨batch, expired, sorted, ends, served _ _ ran inside⟩

end TimerState

end PPServer.EventLoop
