import Mathlib.Data.List.Chain
import PPServer.Library.Locking

/-!
# Calls step by step

Somebody may look at an object while a call on it is running: a signal handler that interrupts the
call, or a function further up the stack.  `Steps` gives the states that a call passes through.
They are put together as the call is, with one rule for each way of building a call.

`Along` says that a property holds at every point of a call, and `Within` that every single step
is in a relation.
-/

namespace PPServer.Locking

universe u

variable {ε σ α β : Type u}

/-- The state in which a call ends, or blocks. -/
def Outcome.state : Outcome ε σ α → σ
  | .returned _ state | .threw _ state | .deadlocked state => state

/-- The states that a call passes through after the one in which it starts. -/
structure Steps (call : Call ε σ α) where
  states : σ → List σ
  ends : ∀ state, (states state).getLastD state = (call state).state

theorem getLastD_append (first second : List α) (default : α) :
    (first ++ second).getLastD default = second.getLastD (first.getLastD default) := by
  induction first generalizing default with
  | nil => rfl
  | cons head first ih => rw [List.cons_append, List.getLastD_cons, List.getLastD_cons, ih]

variable {mutex : Mutex σ} {call body first other : Call ε σ α} {next : α → Call ε σ β}
variable {state after : σ}

namespace Steps

protected def pure (value : α) : Steps (pure value : Call ε σ α) where
  states _ := []
  ends _ := rfl

protected def throwing (error : ε) : Steps (Call.throwing error : Call ε σ α) where
  states _ := []
  ends _ := rfl

protected def modify (change : σ → σ) : Steps (modify change : Call ε σ PUnit) where
  states state := [change state]
  ends _ := rfl

protected def getBind {next : σ → Call ε σ β} (steps : ∀ value, Steps (next value)) :
    Steps (get >>= next) where
  states state := (steps state).states state
  ends state := (steps state).ends state

protected def bind (steps : Steps first) (stepsNext : ∀ value, Steps (next value)) :
    Steps (first >>= next) where
  states state :=
    steps.states state ++
      match first state with
      | .returned value after => (stepsNext value).states after
      | .threw _ _ | .deadlocked _ => []
  ends state := by
    have ends := steps.ends state
    rw [getLastD_append, ends, Call.bind_apply]
    cases first state with
    | returned value after => exact (stepsNext value).ends after
    | threw error after | deadlocked after => rfl

protected def ite {condition : Prop} [Decidable condition] (steps : Steps first)
    (stepsOther : Steps other) : Steps (if condition then first else other) where
  states state := if condition then steps.states state else stepsOther.states state
  ends state := by
    split
    · exact steps.ends state
    · exact stepsOther.ends state

/-- The mutex is locked, and released unless the body blocks. -/
protected def lockGuard (mutex : Mutex σ) (steps : Steps body) :
    Steps (lockGuard mutex body) where
  states state :=
    if mutex.held state then []
    else mutex.setHeld true state :: steps.states (mutex.setHeld true state) ++
      match body (mutex.setHeld true state) with
      | .returned _ after | .threw _ after => [mutex.setHeld false after]
      | .deadlocked _ => []
  ends state := by
    have ends := steps.ends (mutex.setHeld true state)
    split
    next held => rw [lockGuard_of_held held]; rfl
    next free =>
        rw [lockGuard_of_free (by simpa using free), getLastD_append, List.getLastD_cons, ends]
        cases body (mutex.setHeld true state) <;> rfl

protected def attempt {call : Call ε σ PUnit} (steps : Steps call) : Steps (attempt call) where
  states := steps.states
  ends state := by
    rw [steps.ends, Locking.attempt]
    cases call state <;> rfl

protected def unwinding {cleanup call : Call ε σ PUnit} (stepsCleanup : Steps cleanup)
    (steps : Steps call) : Steps (unwinding cleanup call) where
  states state :=
    steps.states state ++
      match call state with
      | .threw _ middle => stepsCleanup.states middle
      | .returned _ _ | .deadlocked _ => []
  ends state := by
    have ends := steps.ends state
    rw [getLastD_append, ends, Locking.unwinding]
    cases call state with
    | returned value after | deadlocked after => rfl
    | threw error middle =>
        refine (stepsCleanup.ends middle).trans ?_
        dsimp only
        cases cleanup middle <;> rfl

protected def forM {body : β → Call ε σ PUnit} (steps : ∀ value, Steps (body value)) :
    (values : List β) → Steps (values.forM body)
  | [] => .pure _
  | value :: values => .bind (steps value) fun _ => Steps.forM steps values

end Steps

/-! ## Properties of every point -/

variable {property : σ → Prop} {steps : Steps first}

/-- The property holds after every step. -/
def Along (property : σ → Prop) (steps : Steps call) (state : σ) : Prop :=
  ∀ point ∈ steps.states state, property point

namespace Along

protected theorem pure (value : α) (state : σ) :
    Along property (Steps.pure value : Steps (pure value : Call ε σ α)) state :=
  List.forall_mem_nil _

protected theorem throwing (error : ε) (state : σ) :
    Along property (Steps.throwing error : Steps (Call.throwing error : Call ε σ α)) state :=
  List.forall_mem_nil _

protected theorem modify {change : σ → σ} (holds : property (change state)) :
    Along property (Steps.modify change : Steps (modify change : Call ε σ PUnit)) state :=
  List.forall_mem_singleton.mpr holds

protected theorem getBind {next : σ → Call ε σ β} {stepsNext : ∀ value, Steps (next value)}
    (along : Along property (stepsNext state) state) :
    Along property (Steps.getBind stepsNext) state := along

protected theorem bind {stepsNext : ∀ value, Steps (next value)}
    (along : Along property steps state)
    (alongNext : ∀ value after, first state = .returned value after →
      Along property (stepsNext value) after) :
    Along property (steps.bind stepsNext) state := by
  refine List.forall_mem_append.mpr ⟨along, ?_⟩
  cases outcome : first state with
  | returned value after => exact alongNext value after outcome
  | threw error after | deadlocked after => exact List.forall_mem_nil _

theorem modify_bind {change : σ → σ} {next : PUnit → Call ε σ β}
    {stepsNext : ∀ value, Steps (next value)} (holds : property (change state))
    (along : Along property (stepsNext ⟨⟩) (change state)) :
    Along property ((Steps.modify change).bind stepsNext) state :=
  List.forall_mem_cons.mpr ⟨holds, along⟩

protected theorem ite {condition : Prop} [Decidable condition] {stepsOther : Steps other}
    (along : condition → Along property steps state)
    (alongOther : ¬condition → Along property stepsOther state) :
    Along property (Steps.ite steps stepsOther : Steps (if condition then first else other))
      state := by
  simp only [Along, Steps.ite]
  split
  next holds => exact along holds
  next fails => exact alongOther fails

/-- A scope that locks a free mutex. -/
protected theorem lockGuard {stepsBody : Steps body}
    (locked : property (mutex.setHeld true state))
    (along : Along property stepsBody (mutex.setHeld true state))
    (released : ∀ after, (body (mutex.setHeld true state)).Final after →
      property (mutex.setHeld false after)) :
    Along property (stepsBody.lockGuard mutex) state := by
  simp only [Along, Steps.lockGuard]
  split
  next => exact List.forall_mem_nil _
  next =>
      refine List.forall_mem_append.mpr ⟨List.forall_mem_cons.mpr ⟨locked, along⟩, ?_⟩
      cases outcome : body (mutex.setHeld true state) with
      | returned value after | threw error after =>
          exact List.forall_mem_singleton.mpr (released after (by rw [outcome]; rfl))
      | deadlocked after => exact List.forall_mem_nil _

protected theorem unwinding {cleanup call : Call ε σ PUnit} {stepsCleanup : Steps cleanup}
    {steps : Steps call} (along : Along property steps state)
    (alongCleanup : ∀ error after, call state = .threw error after →
      Along property stepsCleanup after) :
    Along property (stepsCleanup.unwinding steps) state := by
  refine List.forall_mem_append.mpr ⟨along, ?_⟩
  cases outcome : call state with
  | threw error after => exact alongCleanup error after outcome
  | returned value after | deadlocked after => exact List.forall_mem_nil _

end Along

/-- The points of two calls, the first of which returns. -/
theorem along_bind_of_returned {stepsNext : ∀ value, Steps (next value)} {value : α}
    (returns : first state = .returned value after) :
    Along property (steps.bind stepsNext) state ↔
      Along property steps state ∧ Along property (stepsNext value) after := by
  simp only [Along, Steps.bind, returns, List.forall_mem_append]

/-- A point of the first call is a point of both. -/
theorem Along.of_bind {stepsNext : ∀ value, Steps (next value)}
    (along : Along property (steps.bind stepsNext) state) : Along property steps state :=
  (List.forall_mem_append.mp along).1

theorem Along.of_modify_bind {change : σ → σ} {next : PUnit → Call ε σ β}
    {stepsNext : ∀ value, Steps (next value)}
    (along : Along property ((Steps.modify change).bind stepsNext) state) :
    Along property (stepsNext ⟨⟩) (change state) :=
  (List.forall_mem_cons.mp along).2

theorem Along.of_ite_pos {condition : Prop} [Decidable condition] {stepsOther : Steps other}
    (holds : condition)
    (along : Along property
      (Steps.ite steps stepsOther : Steps (if condition then first else other)) state) :
    Along property steps state := by
  simpa only [Along, Steps.ite, if_pos holds] using along

theorem Along.of_ite_neg {condition : Prop} [Decidable condition] {stepsOther : Steps other}
    (fails : ¬condition)
    (along : Along property
      (Steps.ite steps stepsOther : Steps (if condition then first else other)) state) :
    Along property stepsOther state := by
  simpa only [Along, Steps.ite, if_neg fails] using along

theorem Along.mono {stronger : σ → Prop} {steps : Steps call}
    (along : Along stronger steps state) (implies : ∀ point, stronger point → property point) :
    Along property steps state :=
  fun point member => implies point (along point member)

/-- The point at which a scope has locked its mutex. -/
theorem Along.locked {stepsBody : Steps body} (free : mutex.held state = false)
    (along : Along property (stepsBody.lockGuard mutex) state) :
    property (mutex.setHeld true state) := by
  apply along
  simp [Steps.lockGuard, free]

/-! ## Relations that hold for every step -/

/-- Each step leads to a state that is in the relation with the one before. -/
def Within (relation : σ → σ → Prop) (steps : Steps call) : Prop :=
  ∀ state, (state :: steps.states state).IsChain relation

variable {relation : σ → σ → Prop}

theorem isChain_cons_append_iff {head : σ} {front back : List σ} :
    (head :: (front ++ back)).IsChain relation ↔
      (head :: front).IsChain relation ∧ (front.getLastD head :: back).IsChain relation := by
  induction front generalizing head with
  | nil => simp
  | cons middle front ih =>
      rw [List.cons_append, List.isChain_cons_cons, ih, List.isChain_cons_cons,
        List.getLastD_cons, and_assoc]

namespace Within

protected theorem pure (value : α) :
    Within relation (Steps.pure value : Steps (pure value : Call ε σ α)) :=
  fun state => .singleton state

protected theorem throwing (error : ε) :
    Within relation (Steps.throwing error : Steps (Call.throwing error : Call ε σ α)) :=
  fun state => .singleton state

protected theorem modify {change : σ → σ} (related : ∀ state, relation state (change state)) :
    Within relation (Steps.modify change : Steps (modify change : Call ε σ PUnit)) :=
  fun state => List.isChain_pair.mpr (related state)

protected theorem getBind {next : σ → Call ε σ β} {stepsNext : ∀ value, Steps (next value)}
    (within : ∀ value, Within relation (stepsNext value)) :
    Within relation (Steps.getBind stepsNext) :=
  fun state => within state state

protected theorem bind {stepsNext : ∀ value, Steps (next value)} (within : Within relation steps)
    (withinNext : ∀ value, Within relation (stepsNext value)) :
    Within relation (steps.bind stepsNext) := by
  intro state
  refine isChain_cons_append_iff.mpr ⟨within state, ?_⟩
  rw [steps.ends]
  cases first state with
  | returned value after => exact withinNext value after
  | threw error after | deadlocked after => exact .singleton _

protected theorem ite {condition : Prop} [Decidable condition] {stepsOther : Steps other}
    (within : Within relation steps) (withinOther : Within relation stepsOther) :
    Within relation
      (Steps.ite steps stepsOther : Steps (if condition then first else other)) := by
  intro state
  simp only [Steps.ite]
  split
  · exact within state
  · exact withinOther state

/-- A relation that has nothing to do with the mutex. -/
protected theorem lockGuard {stepsBody : Steps body} (within : Within relation stepsBody)
    (unrelated : ∀ isHeld state, relation state (mutex.setHeld isHeld state)) :
    Within relation (stepsBody.lockGuard mutex) := by
  intro state
  simp only [Steps.lockGuard]
  split
  next => exact .singleton state
  next =>
      rw [List.cons_append, List.isChain_cons_cons, isChain_cons_append_iff, stepsBody.ends]
      refine ⟨unrelated true state, within _, ?_⟩
      cases body (mutex.setHeld true state) with
      | returned value after | threw error after =>
          exact List.isChain_pair.mpr (unrelated false after)
      | deadlocked after => exact .singleton after

/-- A property that no step ends holds at every point. -/
theorem along {steps : Steps call}
    (within : Within (fun before after => property before → property after) steps)
    (holds : property state) : Along property steps state :=
  (within state).cons_induction property _ (fun _ _ carries => carries) holds

/-- Every point is in the relation with the start. -/
theorem from_start [IsPreorder σ relation] {steps : Steps call}
    (within : Within relation steps) (state : σ) : Along (relation state) steps state :=
  (within state).cons_induction (relation state) _
    (fun _ _ related before => IsTrans.trans _ _ _ before related) (Std.Refl.refl state)

/-- Every point is in the relation with the end. -/
theorem to_end [IsPreorder σ relation] {steps : Steps call} (within : Within relation steps)
    (state : σ) : Along (relation · (call state).state) steps state := by
  intro point member
  refine (within state).backwards_cons_induction (relation · (call state).state) _ ?_
    (fun _ _ related later => IsTrans.trans _ _ _ related later) (Std.Refl.refl _) point
    (List.mem_cons_of_mem _ member)
  rw [List.getLast_eq_getLastD, steps.ends]

end Within

/-- What holds at the start and at every point holds at the end. -/
theorem Along.at_end {steps : Steps call} (along : Along property steps state)
    (holds : property state) : property (call state).state := by
  rw [← steps.ends]
  rcases List.mem_cons.mp (List.getLastD_mem_cons (l := steps.states state)) with last | last
  · rwa [last]
  · exact along _ last

theorem Along.of_returned {steps : Steps call} {value : α} (along : Along property steps state)
    (holds : property state) (returns : call state = .returned value after) : property after := by
  have atEnd := along.at_end holds
  rwa [returns] at atEnd

theorem Outcome.Final.state_eq {outcome : Outcome ε σ α} (final : outcome.Final after) :
    outcome.state = after := by
  cases outcome with
  | returned value state | threw error state => exact final
  | deadlocked state => exact final.elim

/-- A scope, and a property that has nothing to do with its mutex. -/
theorem Along.scope {stepsBody : Steps body}
    (unrelated : ∀ isHeld state, property state → property (mutex.setHeld isHeld state))
    (holds : property state) (along : Along property stepsBody (mutex.setHeld true state)) :
    Along property (stepsBody.lockGuard mutex) state := by
  refine .lockGuard (unrelated true state holds) along fun after final => ?_
  rw [← final.state_eq]
  exact unrelated false _ (along.at_end (unrelated true state holds))

/-- A loop whose passes keep the property at every point. -/
theorem Along.forM {body : β → Call ε σ PUnit} {steps : ∀ value, Steps (body value)}
    (along : ∀ state value, property state → Along property (steps value) state)
    (values : List β) (holds : property state) :
    Along property (Steps.forM steps values) state := by
  induction values generalizing state with
  | nil => exact .pure _ _
  | cons value values ih =>
      have pass := along state value holds
      exact .bind pass fun _ _ returns => ih (pass.of_returned holds returns)

/-! ## What is seen of a call -/

/-- What is seen from each state to the next. -/
def seenFrom {γ : Type u} (look : σ → σ → List γ) : σ → List σ → List γ
  | _, [] => []
  | before, after :: states => look before after ++ seenFrom look after states

/-- What is seen of the steps of a call. -/
def Steps.seen {γ : Type u} (look : σ → σ → List γ) (steps : Steps call) (state : σ) : List γ :=
  seenFrom look state (steps.states state)

section Seen

variable {γ : Type u} {look : σ → σ → List γ}

theorem seenFrom_append (state : σ) (front back : List σ) :
    seenFrom look state (front ++ back) =
      seenFrom look state front ++ seenFrom look (front.getLastD state) back := by
  induction front generalizing state with
  | nil => rfl
  | cons middle front ih =>
      rw [List.cons_append, seenFrom, seenFrom, ih, List.getLastD_cons, List.append_assoc]

/-- What is seen of the whole is what is seen of the part that moves. -/
theorem seenFrom_map {τ : Type u} {whole : τ → σ} {lookPart : τ → τ → List γ}
    (same : ∀ before after, look (whole before) (whole after) = lookPart before after)
    (state : τ) (states : List τ) :
    seenFrom look (whole state) (states.map whole) = seenFrom lookPart state states := by
  induction states generalizing state with
  | nil => rfl
  | cons after states ih => rw [List.map_cons, seenFrom, seenFrom, same, ih]

@[simp] theorem seen_modify (change : σ → σ) (state : σ) :
    (Steps.modify change : Steps (modify change : Call ε σ PUnit)).seen look state =
      look state (change state) :=
  List.append_nil _

theorem seen_bind (steps : Steps first) (stepsNext : ∀ value, Steps (next value)) (state : σ) :
    (steps.bind stepsNext).seen look state = steps.seen look state ++
      match first state with
      | .returned value after => (stepsNext value).seen look after
      | .threw _ _ | .deadlocked _ => [] := by
  rw [Steps.seen, Steps.bind, seenFrom_append, steps.ends]
  cases first state with
  | returned value after | threw error after | deadlocked after => rfl

theorem seen_ite {condition : Prop} [Decidable condition] (steps : Steps first)
    (stepsOther : Steps other) (state : σ) :
    (Steps.ite steps stepsOther : Steps (if condition then first else other)).seen look state =
      if condition then steps.seen look state else stepsOther.seen look state := by
  simp only [Steps.seen, Steps.ite]
  split <;> rfl

/-- A scope that locks a free mutex. -/
theorem seen_lockGuard (steps : Steps body) (free : mutex.held state = false) :
    (steps.lockGuard mutex).seen look state =
      look state (mutex.setHeld true state) ++
        (steps.seen look (mutex.setHeld true state) ++
          match body (mutex.setHeld true state) with
          | .returned _ after | .threw _ after => look after (mutex.setHeld false after)
          | .deadlocked _ => []) := by
  rw [Steps.seen, Steps.lockGuard]
  dsimp only
  rw [if_neg (by simp [free]), List.cons_append, seenFrom, seenFrom_append, steps.ends]
  cases body (mutex.setHeld true state) with
  | returned value after | threw error after =>
      simp only [seenFrom, List.append_nil, Outcome.state, Steps.seen]
  | deadlocked after => simp only [seenFrom, List.append_nil, Steps.seen]

theorem seen_unwinding {cleanup call : Call ε σ PUnit} (stepsCleanup : Steps cleanup)
    (steps : Steps call) (state : σ) :
    (stepsCleanup.unwinding steps).seen look state = steps.seen look state ++
      match call state with
      | .threw _ middle => stepsCleanup.seen look middle
      | .returned _ _ | .deadlocked _ => [] := by
  rw [Steps.seen, Steps.unwinding, seenFrom_append, steps.ends]
  cases call state with
  | returned value after | threw error after | deadlocked after => rfl

/-- Nothing is seen of steps none of which shows. -/
theorem Within.seen_eq_nil {steps : Steps call}
    (within : Within (fun before after => look before after = []) steps) (state : σ) :
    steps.seen look state = [] := by
  have chain := within state
  rw [Steps.seen]
  generalize steps.states state = states at chain
  induction states generalizing state with
  | nil => rfl
  | cons after states ih =>
      rw [List.isChain_cons_cons] at chain
      rw [seenFrom, chain.1, ih after chain.2, List.append_nil]

end Seen

end PPServer.Locking
