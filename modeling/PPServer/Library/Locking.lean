import Mathlib.Tactic.Common

/-!
# Calls on an object with a mutex

A member function acts on the state of its object.  A call returns a value, throws, or
blocks for ever because it locks a mutex that its own thread already holds.  Locking is
always scoped: `lockGuard` releases the mutex when its body returns or throws.

`Deadlocks` says that a call blocks for ever, and `Keeps` that a property of the state
survives every call that comes to an end.  Both have a rule for each way of building a
call.  A call on a part of an object is one on the object, and `attempt` and `unwinding`
are what surrounds a call that may throw.  Nothing here knows what the object is.
-/

namespace PPServer.Locking

universe u

/-- How a call ends. -/
inductive Outcome (ε σ α : Type u) where
  | returned (value : α) (state : σ)
  | threw (error : ε) (state : σ)
  /-- The call waits for a mutex that it holds itself. -/
  | deadlocked (state : σ)
  deriving DecidableEq, Repr

/-- A call on an object with states `σ` that may throw `ε`. -/
def Call (ε σ α : Type u) : Type u := σ → Outcome ε σ α

variable {ε σ α β : Type u}

namespace Call

protected def bind (first : Call ε σ α) (next : α → Call ε σ β) : Call ε σ β := fun state =>
  match first state with
  | .returned value after => next value after
  | .threw error after => .threw error after
  | .deadlocked after => .deadlocked after

instance : Monad (Call ε σ) where
  pure value state := .returned value state
  bind := Call.bind

instance : MonadStateOf σ (Call ε σ) where
  get state := .returned state state
  set next _ := .returned ⟨⟩ next
  modifyGet change state := .returned (change state).1 (change state).2

instance : LawfulMonad (Call ε σ) :=
  LawfulMonad.mk' (Call ε σ)
    (fun call => funext fun state => by
      change Call.bind call _ state = call state
      simp only [Call.bind]
      cases call state <;> rfl)
    (fun _ _ => rfl)
    (fun call _ _ => funext fun state => by
      change Call.bind (Call.bind call _) _ state = Call.bind call _ state
      simp only [Call.bind]
      cases call state <;> rfl)

def throwing (error : ε) : Call ε σ α := fun state => .threw error state

/-! A call is run by rewriting with these. -/

@[simp] theorem pure_apply (value : α) (state : σ) :
    (pure value : Call ε σ α) state = .returned value state := rfl

@[simp] theorem get_bind_apply (next : σ → Call ε σ β) (state : σ) :
    ((get : Call ε σ σ) >>= next) state = next state state := rfl

@[simp] theorem modify_apply (change : σ → σ) (state : σ) :
    (modify change : Call ε σ PUnit) state = .returned ⟨⟩ (change state) := rfl

theorem bind_apply (first : Call ε σ α) (next : α → Call ε σ β) (state : σ) :
    (first >>= next) state =
      match first state with
      | .returned value after => next value after
      | .threw error after => .threw error after
      | .deadlocked after => .deadlocked after := rfl

theorem bind_of_returned {first : Call ε σ α} {state after : σ} {value : α}
    (returns : first state = .returned value after) (next : α → Call ε σ β) :
    (first >>= next) state = next value after := by
  rw [bind_apply, returns]

theorem bind_of_threw {first : Call ε σ α} {state after : σ} {error : ε}
    (throws : first state = .threw error after) (next : α → Call ε σ β) :
    (first >>= next) state = .threw error after := by
  rw [bind_apply, throws]

theorem bind_of_deadlocked {first : Call ε σ α} {state after : σ}
    (blocks : first state = .deadlocked after) (next : α → Call ε σ β) :
    (first >>= next) state = .deadlocked after := by
  rw [bind_apply, blocks]

@[simp] theorem modify_bind_apply (change : σ → σ) (next : PUnit → Call ε σ β) (state : σ) :
    ((modify change : Call ε σ PUnit) >>= next) state = next ⟨⟩ (change state) := rfl

end Call

/-! ## Mutexes -/

/-- Where the state records that its mutex is held. -/
structure Mutex (σ : Type u) where
  held : σ → Bool
  setHeld : Bool → σ → σ
  held_setHeld : ∀ isHeld state, held (setHeld isHeld state) = isHeld

attribute [simp] Mutex.held_setHeld

/-- Release the mutex at the end of its scope. -/
def Outcome.release (mutex : Mutex σ) : Outcome ε σ α → Outcome ε σ α
  | .returned value state => .returned value (mutex.setHeld false state)
  | .threw error state => .threw error (mutex.setHeld false state)
  | .deadlocked state => .deadlocked state

/-- `std::lock_guard` with a mutex that is not recursive, and the rest of its scope. -/
def lockGuard (mutex : Mutex σ) (body : Call ε σ α) : Call ε σ α := fun state =>
  if mutex.held state then .deadlocked state
  else (body (mutex.setHeld true state)).release mutex

variable {mutex : Mutex σ} {body first : Call ε σ α} {next : α → Call ε σ β} {state after : σ}

theorem lockGuard_of_held (held : mutex.held state = true) :
    lockGuard mutex body state = .deadlocked state := if_pos held

theorem lockGuard_of_free (free : mutex.held state = false) :
    lockGuard mutex body state = (body (mutex.setHeld true state)).release mutex :=
  if_neg (by simp [free])

/-- What is made of a value does not matter to the mutex. -/
theorem map_lockGuard (change : α → β) (mutex : Mutex σ) (body : Call ε σ α) :
    change <$> lockGuard mutex body = lockGuard mutex (change <$> body) := by
  funext state
  rw [← bind_pure_comp, ← bind_pure_comp, Call.bind_apply]
  cases held : mutex.held state with
  | true => rw [lockGuard_of_held held, lockGuard_of_held held]
  | false =>
      rw [lockGuard_of_free held, lockGuard_of_free held, Call.bind_apply]
      cases body (mutex.setHeld true state) <;> rfl

/-! ## Blocking for ever -/

def Deadlocks (call : Call ε σ α) (state : σ) : Prop := ∃ after, call state = .deadlocked after

theorem deadlocks_bind_iff :
    Deadlocks (first >>= next) state ↔
      Deadlocks first state ∨
        ∃ value after, first state = .returned value after ∧ Deadlocks (next value) after := by
  simp only [Deadlocks]
  rw [Call.bind_apply]
  cases first state <;> simp

/-- Only the first of two calls can block, if the second never does. -/
theorem deadlocks_bind_of_never (never : ∀ value after, ¬Deadlocks (next value) after) :
    Deadlocks (first >>= next) state ↔ Deadlocks first state := by
  rw [deadlocks_bind_iff, or_iff_left]
  intro blocked
  rcases blocked with ⟨value, after, -, blocks⟩
  exact never value after blocks

theorem not_deadlocks_bind (never : ¬Deadlocks first state)
    (neverNext : ∀ value after, ¬Deadlocks (next value) after) :
    ¬Deadlocks (first >>= next) state := by
  rwa [deadlocks_bind_of_never neverNext]

theorem deadlocks_bind_of_returned {value : α} (returns : first state = .returned value after) :
    Deadlocks (first >>= next) state ↔ Deadlocks (next value) after := by
  rw [Deadlocks, Deadlocks, Call.bind_apply, returns]

@[simp] theorem deadlocks_map_iff {change : α → β} :
    Deadlocks (change <$> first) state ↔ Deadlocks first state := by
  rw [← bind_pure_comp]
  exact deadlocks_bind_of_never fun _ _ ⟨_, equal⟩ => by cases equal

@[simp] theorem not_deadlocks_pure (value : α) (state : σ) :
    ¬Deadlocks (pure value : Call ε σ α) state := by
  intro blocks
  rcases blocks with ⟨after, ⟨⟩⟩

@[simp] theorem not_deadlocks_get (state : σ) : ¬Deadlocks (get : Call ε σ σ) state := by
  intro blocks
  rcases blocks with ⟨after, ⟨⟩⟩

@[simp] theorem not_deadlocks_throwing (error : ε) (state : σ) :
    ¬Deadlocks (Call.throwing error : Call ε σ α) state := by
  intro blocks
  rcases blocks with ⟨after, ⟨⟩⟩

@[simp] theorem not_deadlocks_modify (change : σ → σ) (state : σ) :
    ¬Deadlocks (modify change : Call ε σ PUnit) state := by
  intro blocks
  rcases blocks with ⟨after, ⟨⟩⟩

@[simp] theorem deadlocks_get_bind_iff {next : σ → Call ε σ β} :
    Deadlocks (get >>= next) state ↔ Deadlocks (next state) state := Iff.rfl

@[simp] theorem deadlocks_modify_bind_iff {change : σ → σ} {next : PUnit → Call ε σ β} :
    Deadlocks (modify change >>= next) state ↔ Deadlocks (next ⟨⟩) (change state) := Iff.rfl

@[simp] theorem deadlocks_ite_iff {condition : Prop} [Decidable condition]
    {other : Call ε σ α} :
    Deadlocks (if condition then first else other) state ↔
      condition ∧ Deadlocks first state ∨ ¬condition ∧ Deadlocks other state := by
  split
  next holds => simp [holds]
  next fails => simp [fails]

/-- A scope whose mutex is free blocks only if its body does. -/
theorem deadlocks_lockGuard_iff (free : mutex.held state = false) :
    Deadlocks (lockGuard mutex body) state ↔ Deadlocks body (mutex.setHeld true state) := by
  simp only [Deadlocks]
  rw [lockGuard_of_free free]
  cases body (mutex.setHeld true state) <;> simp [Outcome.release]

theorem lockGuard_eq_deadlocked_iff (free : mutex.held state = false) :
    lockGuard mutex body state = .deadlocked after ↔
      body (mutex.setHeld true state) = .deadlocked after := by
  rw [lockGuard_of_free free]
  cases body (mutex.setHeld true state) <;> simp [Outcome.release]

/-! ## Properties that calls keep -/

/-- The state after a call that has come to an end. -/
def Outcome.Final : Outcome ε σ α → σ → Prop
  | .returned _ state, final => state = final
  | .threw _ state, final => state = final
  | .deadlocked _, _ => False

theorem Outcome.Final.unique {outcome : Outcome ε σ α} {first second : σ}
    (final : outcome.Final first) (other : outcome.Final second) : first = second := by
  cases outcome with
  | returned value state | threw error state => exact Eq.trans (Eq.symm final) other
  | deadlocked state => exact final.elim

/-- Of two calls in turn either both come to an end, or the first throws. -/
theorem final_bind_cases (final : ((first >>= next) state).Final after) :
    (∃ value middle, first state = .returned value middle ∧ (next value middle).Final after) ∨
      ∃ error, first state = .threw error after := by
  rw [Call.bind_apply] at final
  cases outcome : first state with
  | returned value middle =>
      rw [outcome] at final
      exact .inl ⟨value, middle, rfl, final⟩
  | threw error middle =>
      rw [outcome] at final
      cases final
      exact .inr ⟨error, rfl⟩
  | deadlocked middle =>
      rw [outcome] at final
      exact final.elim

/-- The property holds after the call, whether it returns or throws, if it holds
before. -/
def Keeps (property : σ → Prop) (call : Call ε σ α) : Prop :=
  ∀ state after, property state → (call state).Final after → property after

variable {property : σ → Prop}

theorem Keeps.pure (value : α) : Keeps property (pure value : Call ε σ α) := by
  intro state after holds final
  rcases final with ⟨⟩
  exact holds

theorem Keeps.modify {change : σ → σ} (keeps : ∀ state, property state → property (change state)) :
    Keeps property (modify change : Call ε σ PUnit) := by
  intro state after holds final
  rcases final with ⟨⟩
  exact keeps state holds

theorem Keeps.bind (keeps : Keeps property first)
    (keepsNext : ∀ value, Keeps property (next value)) :
    Keeps property (first >>= next) := by
  intro state after holds final
  rcases final_bind_cases final with ⟨value, middle, returns, final⟩ | ⟨error, throws⟩
  · exact keepsNext value middle after (keeps state middle holds (by rw [returns]; rfl)) final
  · exact keeps state after holds (by rw [throws]; rfl)

theorem Keeps.get_bind {next : σ → Call ε σ β} (keeps : ∀ value, Keeps property (next value)) :
    Keeps property (get >>= next) :=
  fun state after holds final => keeps state state after holds final

theorem Keeps.ite {condition : Prop} [Decidable condition] {other : Call ε σ α}
    (keeps : Keeps property first) (keepsOther : Keeps property other) :
    Keeps property (if condition then first else other) := by
  split
  · exact keeps
  · exact keepsOther

/-- After a scope that has ended, its mutex is free. -/
theorem free_of_lockGuard (final : (lockGuard mutex body state).Final after) :
    mutex.held after = false := by
  by_cases held : mutex.held state = true
  · rw [lockGuard_of_held held] at final
    exact final.elim
  · rw [lockGuard_of_free (by simpa using held)] at final
    cases outcome : body (mutex.setHeld true state) with
    | returned value middle => rw [outcome] at final; cases final; simp
    | threw error middle => rw [outcome] at final; cases final; simp
    | deadlocked middle => rw [outcome] at final; exact final.elim

theorem Keeps.free_lockGuard (mutex : Mutex σ) (body : Call ε σ α) :
    Keeps (fun state => mutex.held state = false) (lockGuard mutex body) :=
  fun _ _ _ final => free_of_lockGuard final

/-- A property that has nothing to do with the mutex survives a scope if it survives its body. -/
theorem Keeps.lockGuard (keeps : Keeps property body)
    (unrelated : ∀ isHeld state, property state → property (mutex.setHeld isHeld state)) :
    Keeps property (lockGuard mutex body) := by
  intro state after holds final
  by_cases held : mutex.held state = true
  · rw [lockGuard_of_held held] at final
    exact final.elim
  · rw [lockGuard_of_free (by simpa using held)] at final
    have holdsInside := unrelated true state holds
    cases outcome : body (mutex.setHeld true state) with
    | returned value middle | threw error middle =>
        rw [outcome] at final
        cases final
        exact unrelated false middle (keeps _ middle holdsInside (by rw [outcome]; rfl))
    | deadlocked middle => rw [outcome] at final; exact final.elim

/-! ## Calls that may throw -/

/-- The call with its exception caught. -/
def attempt (call : Call ε σ PUnit) : Call ε σ PUnit := fun state =>
  match call state with
  | .threw _ after => .returned ⟨⟩ after
  | outcome => outcome

/-- The call, with `cleanup` run before its exception goes on. -/
def unwinding (cleanup : Call ε σ PUnit) (call : Call ε σ PUnit) : Call ε σ PUnit := fun state =>
  match call state with
  | .threw error middle =>
      match cleanup middle with
      | .returned _ after | .threw _ after => .threw error after
      | .deadlocked after => .deadlocked after
  | outcome => outcome

theorem final_attempt_iff {call : Call ε σ PUnit} :
    (attempt call state).Final after ↔ (call state).Final after := by
  rw [attempt]
  cases call state <;> rfl

theorem unwinding_of_returned {cleanup call : Call ε σ PUnit}
    (returns : call state = .returned ⟨⟩ after) :
    unwinding cleanup call state = .returned ⟨⟩ after := by
  simp only [unwinding, returns]

theorem unwinding_of_threw {cleanup call : Call ε σ PUnit} {error : ε} {middle : σ}
    (throws : call state = .threw error middle) (cleans : cleanup middle = .returned ⟨⟩ after) :
    unwinding cleanup call state = .threw error after := by
  simp only [unwinding, throws, cleans]

/-- A call that returns has not been cleaned up after. -/
theorem returned_of_unwinding {cleanup call : Call ε σ PUnit} {value : PUnit}
    (returns : unwinding cleanup call state = .returned value after) :
    call state = .returned value after := by
  simp only [unwinding] at returns
  split at returns
  next => split at returns <;> cases returns
  next => exact returns

theorem Keeps.throwing (error : ε) : Keeps property (Call.throwing error : Call ε σ α) := by
  intro state after holds final
  rcases final with ⟨⟩
  exact holds

theorem Keeps.attempt {call : Call ε σ PUnit} (keeps : Keeps property call) :
    Keeps property (attempt call) :=
  fun state after holds final => keeps state after holds (final_attempt_iff.mp final)

theorem Keeps.unwinding {cleanup call : Call ε σ PUnit} (keeps : Keeps property call)
    (keepsCleanup : Keeps property cleanup) : Keeps property (unwinding cleanup call) := by
  intro state after holds final
  cases outcome : call state with
  | returned value middle =>
      simp only [Locking.unwinding, outcome] at final
      exact keeps state after holds (by rw [outcome]; exact final)
  | deadlocked middle =>
      simp only [Locking.unwinding, outcome] at final
      exact final.elim
  | threw error middle =>
      have holdsMiddle : property middle := keeps state middle holds (by rw [outcome]; rfl)
      apply keepsCleanup middle after holdsMiddle
      cases cleaned : cleanup middle with
      | returned value last | threw error last | deadlocked last =>
          simp only [Locking.unwinding, outcome, cleaned] at final
          exact final

/-! ## Loops -/

theorem Keeps.forM {body : β → Call ε σ PUnit} (keeps : ∀ value, Keeps property (body value))
    (values : List β) : Keeps property (values.forM body) := by
  induction values with
  | nil => exact .pure _
  | cons value values ih => exact .bind (keeps value) fun _ => ih

/-- A loop whose passes return as long as an invariant holds. -/
theorem forM_of_returned {body : β → Call ε σ PUnit} {pass : σ → β → σ}
    (returns : ∀ state value, property state → body value state = .returned ⟨⟩ (pass state value))
    (keeps : ∀ state value, property state → property (pass state value)) (values : List β)
    (holds : property state) :
    (values.forM body) state = .returned ⟨⟩ (values.foldl pass state) := by
  induction values generalizing state with
  | nil => rfl
  | cons value values ih =>
      rw [List.foldl_cons, ← ih (keeps state value holds)]
      exact Call.bind_of_returned (returns state value holds) _

/-! ## Calls on a part -/

/-- The outcome for an object of which the call has seen a part. -/
def Outcome.mapState {τ : Type u} (whole : σ → τ) : Outcome ε σ α → Outcome ε τ α
  | .returned value state => .returned value (whole state)
  | .threw error state => .threw error (whole state)
  | .deadlocked state => .deadlocked (whole state)

theorem final_mapState_iff {τ : Type u} {whole : σ → τ} {outcome : Outcome ε σ α} {final : τ} :
    (outcome.mapState whole).Final final ↔ ∃ part, outcome.Final part ∧ whole part = final := by
  cases outcome <;> simp [Outcome.mapState, Outcome.Final]

theorem deadlocked_mapState_iff {τ : Type u} {whole : σ → τ} {outcome : Outcome ε σ α} :
    (∃ after, outcome.mapState whole = .deadlocked after) ↔
      ∃ after, outcome = .deadlocked after := by
  cases outcome <;> simp [Outcome.mapState]

/-! ## Steps -/

/-- The state after a call that comes to an end, `none` after one that does not. -/
def Outcome.ending : Outcome ε σ α → Option σ
  | .returned _ state | .threw _ state => some state
  | .deadlocked _ => none

theorem Outcome.ending_eq_some_iff {outcome : Outcome ε σ α} :
    outcome.ending = some after ↔ outcome.Final after := by
  cases outcome <;> simp [Outcome.ending, Outcome.Final]

end PPServer.Locking
