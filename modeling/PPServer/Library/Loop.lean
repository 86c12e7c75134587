import Mathlib.Logic.Relation
import Mathlib.Tactic.Common

/-!
# Loops with an explicit body

A `while` loop is given by its body, which takes the loop state through one pass
and says whether the loop goes round again or is left with a result.  Running it
with a bounded number of passes is executable; whether it ever leaves is a
proposition about all bounds.  Nothing here knows what the loop computes.

A loop whose body decreases a measure is a total function (`total`).  A loop that
may run forever is described by `Returns` and `Terminates`.
-/

namespace PPServer.Loop

universe u v

/-- What one pass through a loop body does. -/
inductive Pass (σ : Type u) (ρ : Type v) where
  | again (next : σ)
  | leave (result : ρ)
  deriving DecidableEq, Repr

variable {σ : Type u} {ρ : Type v} {body : σ → Pass σ ρ}
variable {state next : σ} {result other : ρ}

/-- At most `fuel` passes of the loop; `none` while it is still running. -/
def run (body : σ → Pass σ ρ) : Nat → σ → Option ρ
  | 0, _ => none
  | fuel + 1, state =>
      match body state with
      | .again next => run body fuel next
      | .leave result => some result

/-- The loop entered in `state` is eventually left with `result`. -/
def Returns (body : σ → Pass σ ρ) (state : σ) (result : ρ) : Prop :=
  ∃ fuel, run body fuel state = some result

/-- The loop entered in `state` is eventually left. -/
def Terminates (body : σ → Pass σ ρ) (state : σ) : Prop :=
  ∃ result, Returns body state result

theorem run_succ_of_again (step : body state = .again next) (fuel : Nat) :
    run body (fuel + 1) state = run body fuel next := by
  simp [run, step]

theorem run_succ_of_leave (step : body state = .leave result) (fuel : Nat) :
    run body (fuel + 1) state = some result := by
  simp [run, step]

/-- More fuel does not change a result already reached. -/
theorem run_add {fuel : Nat} (left : run body fuel state = some result)
    (extra : Nat) : run body (fuel + extra) state = some result := by
  induction fuel generalizing state with
  | zero => simp [run] at left
  | succ fuel ih =>
      rw [Nat.add_right_comm]
      cases step : body state with
      | again next =>
          rw [run_succ_of_again step] at left ⊢
          exact ih left
      | leave value =>
          rw [run_succ_of_leave step] at left ⊢
          exact left

/-- A loop has at most one result. -/
theorem Returns.unique (left : Returns body state result)
    (right : Returns body state other) : result = other := by
  rcases left with ⟨leftFuel, left⟩
  rcases right with ⟨rightFuel, right⟩
  have leftRun := run_add left rightFuel
  have rightRun := run_add right leftFuel
  rw [Nat.add_comm] at rightRun
  exact Option.some.inj (leftRun.symm.trans rightRun)

theorem returns_of_leave (step : body state = .leave result) :
    Returns body state result :=
  ⟨1, run_succ_of_leave step 0⟩

theorem returns_again_iff (step : body state = .again next) :
    Returns body state result ↔ Returns body next result := by
  constructor
  · intro returns
    rcases returns with ⟨fuel, left⟩
    cases fuel with
    | zero => simp [run] at left
    | succ fuel => exact ⟨fuel, (run_succ_of_again step fuel).symm.trans left⟩
  · intro returns
    rcases returns with ⟨fuel, left⟩
    exact ⟨fuel + 1, (run_succ_of_again step fuel).trans left⟩

/-- Induction along the passes of a loop that returns. -/
@[elab_as_elim]
theorem Returns.induction {motive : σ → Prop} (returns : Returns body state result)
    (pass : ∀ state, Returns body state result →
      (∀ next, body state = .again next → motive next) → motive state) : motive state := by
  rcases returns with ⟨fuel, left⟩
  induction fuel generalizing state with
  | zero => simp [run] at left
  | succ fuel ih =>
      refine pass state ⟨fuel + 1, left⟩ fun next step => ?_
      rw [run_succ_of_again step] at left
      exact ih left

/-- A set of states that the body never leaves is a set of states in which the
loop runs forever. -/
theorem not_terminates_of_closed (inside : σ → Prop)
    (closed : ∀ state, inside state → ∃ next, body state = .again next ∧ inside next)
    (start : inside state) : ¬Terminates body state := by
  intro terminates
  rcases terminates with ⟨result, returns⟩
  revert start
  refine returns.induction fun state _ carried start => ?_
  rcases closed state start with ⟨next, step, stays⟩
  exact carried next step stays

/-! ## The states a loop goes through -/

/-- The loop entered in the first state comes round to the second. -/
def Reaches (body : σ → Pass σ ρ) : σ → σ → Prop :=
  Relation.ReflTransGen fun state next => body state = .again next

/-- What every pass that goes round again keeps holds whenever the loop comes round. -/
theorem Reaches.keeps {property : σ → Prop} (reaches : Reaches body state next)
    (start : property state)
    (pass : ∀ current following, Reaches body state current → body current = .again following →
      property current → property following) : property next := by
  induction reaches with
  | refl => exact start
  | tail before again ih => exact pass _ _ before again ih

/-- A loop that is left at once does not come round. -/
theorem Reaches.eq_of_leave (reaches : Reaches body state next)
    (leaves : body state = .leave result) : next = state := by
  rcases reaches.cases_head with same | ⟨following, again, -⟩
  · exact same.symm
  · rw [leaves] at again
    cases again

/-- A loop that returns does so in the last of the states it goes through. -/
theorem Returns.exists_last (returns : Returns body state result) :
    ∃ last, Reaches body state last ∧ body last = .leave result := by
  refine returns.induction fun state returns carried => ?_
  cases step : body state with
  | again next =>
      rcases carried next step with ⟨last, reaches, leaves⟩
      exact ⟨last, reaches.head step, leaves⟩
  | leave value =>
      cases returns.unique (returns_of_leave step)
      exact ⟨state, .refl, step⟩

/-! ## Loops with a decreasing measure -/

/-- Every pass that goes round again makes the measure smaller. -/
def Decreases (body : σ → Pass σ ρ) (measure : σ → Nat) : Prop :=
  ∀ state next, body state = .again next → measure next < measure state

theorem isSome_run_of_decreases {measure : σ → Nat}
    (decreases : Decreases body measure) {fuel : Nat}
    (enough : measure state < fuel) : (run body fuel state).isSome := by
  induction fuel generalizing state with
  | zero => exact absurd enough (Nat.not_lt_zero _)
  | succ fuel ih =>
      cases step : body state with
      | again next =>
          rw [run_succ_of_again step]
          exact ih (Nat.lt_of_lt_of_le (decreases state next step) (Nat.le_of_lt_succ enough))
      | leave value => rw [run_succ_of_leave step]; rfl

/-- The result of a loop whose body decreases a measure. -/
def total (body : σ → Pass σ ρ) (measure : σ → Nat)
    (decreases : Decreases body measure) (state : σ) : ρ :=
  (run body (measure state + 1) state).get
    (isSome_run_of_decreases decreases (Nat.lt_succ_self _))

variable {measure : σ → Nat} {decreases : Decreases body measure}

theorem returns_total (decreases : Decreases body measure) (state : σ) :
    Returns body state (total body measure decreases state) :=
  ⟨measure state + 1, (Option.some_get _).symm⟩

theorem total_of_leave (step : body state = .leave result) :
    total body measure decreases state = result :=
  (returns_total decreases state).unique (returns_of_leave step)

theorem total_of_again (step : body state = .again next) :
    total body measure decreases state = total body measure decreases next :=
  (returns_total decreases state).unique
    ((returns_again_iff step).mpr (returns_total decreases next))

/-- To show a property of the result of a measured loop at every state, show it
where the loop is left and carry it backwards over one more pass. -/
theorem total_induction (decreases : Decreases body measure) (property : σ → ρ → Prop)
    (leave : ∀ state result, body state = .leave result → property state result)
    (again : ∀ state next result, body state = .again next →
      property next result → property state result) (state : σ) :
    property state (total body measure decreases state) := by
  refine (returns_total decreases state).induction fun state _ carried => ?_
  cases step : body state with
  | leave result =>
      rw [total_of_leave step]
      exact leave state result step
  | again next =>
      rw [total_of_again step]
      exact again state next _ step (carried next step)

end PPServer.Loop
