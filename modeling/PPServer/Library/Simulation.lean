import PPServer.Library.Transition

/-!
# One system inside another

A system whose steps are finer than those of another is mapped to it by an abstraction of its
states.  A fine step either does nothing that the coarse system can see, or is one of its steps.
Then the abstraction of every state that a fine run comes to is one that a coarse run comes to, so
what never happens in the coarse system never happens in the fine one.

A part of a system is a system of its own if what becomes of it in a step is settled by the labels
that it gets to see there.  Then a run of the whole is a run of the part, whatever happens to the
other parts.
-/

namespace PPServer.Transition

universe u v u' v'

variable {σ : Type u} {ℓ : Type v} {τ : Type u'} {κ : Type v'}
variable {step : σ → ℓ → Option σ} {coarse : τ → κ → Option τ}
variable {abstraction : σ → τ} {invariant : σ → Prop}
variable {part : τ → κ → Option τ} {view : σ → Option τ} {seen : σ → ℓ → List κ}

/-- From states with the invariant every fine step is invisible or a coarse one, and keeps it. -/
structure Refines (step : σ → ℓ → Option σ) (coarse : τ → κ → Option τ) (abstraction : σ → τ)
    (invariant : σ → Prop) : Prop where
  keeps : Keeps step (fun _ => True) invariant
  simulates : ∀ state label next, step state label = some next → invariant state →
    abstraction next = abstraction state ∨
      ∃ coarseLabel, coarse (abstraction state) coarseLabel = some (abstraction next)

theorem Refines.run (refines : Refines step coarse abstraction invariant) {state last : σ}
    {labels : List ℓ} (ran : run step state labels = some last) (holds : invariant state) :
    ∃ coarseLabels, Transition.run coarse (abstraction state) coarseLabels =
      some (abstraction last) := by
  induction labels generalizing state with
  | nil =>
      rw [run_nil_iff] at ran
      exact ⟨[], run_nil_iff.mpr (congrArg abstraction ran)⟩
  | cons label labels ih =>
      rcases run_cons_iff.mp ran with ⟨next, taken, rest⟩
      rcases ih rest (refines.keeps state label next trivial taken holds) with
        ⟨coarseLabels, coarseRest⟩
      rcases refines.simulates state label next taken holds with same | ⟨coarseLabel, coarseTaken⟩
      · exact ⟨coarseLabels, same ▸ coarseRest⟩
      · exact ⟨coarseLabel :: coarseLabels,
          run_cons_iff.mpr ⟨abstraction next, coarseTaken, coarseRest⟩⟩

/-! ## A part of a system -/

/-- The labels that a part gets to see on a run. -/
def seenAlong (step : σ → ℓ → Option σ) (seen : σ → ℓ → List κ) : σ → List ℓ → List κ
  | _, [] => []
  | state, label :: labels =>
      seen state label ++
        (step state label).elim [] fun next => seenAlong step seen next labels

theorem seenAlong_cons {state next : σ} {label : ℓ} (taken : step state label = some next)
    (labels : List ℓ) :
    seenAlong step seen state (label :: labels) =
      seen state label ++ seenAlong step seen next labels := by
  rw [seenAlong, taken, Option.elim_some]

/-- What relates the labels that have been seen so far to the state, if every step extends it. -/
theorem seenAlong_run {relation : List κ → σ → Prop}
    (grows : ∀ sofar state label next, relation sofar state → step state label = some next →
      relation (sofar ++ seen state label) next)
    {sofar : List κ} {state last : σ} {labels : List ℓ} (start : relation sofar state)
    (ran : run step state labels = some last) :
    relation (sofar ++ seenAlong step seen state labels) last := by
  induction labels generalizing sofar state with
  | nil =>
      rw [run_nil_iff] at ran
      rw [seenAlong, List.append_nil]
      exact ran ▸ start
  | cons label labels ih =>
      rcases run_cons_iff.mp ran with ⟨next, taken, rest⟩
      rw [seenAlong_cons taken, ← List.append_assoc]
      exact ih (grows sofar state label next start taken) rest

/-- What becomes of the part in a step is settled by the labels that it gets to see. -/
structure Projects (step : σ → ℓ → Option σ) (part : τ → κ → Option τ) (view : σ → Option τ)
    (seen : σ → ℓ → List κ) (invariant : σ → Prop) : Prop where
  keeps : Keeps step (fun _ => True) invariant
  goesOn : ∀ state label next current, step state label = some next → invariant state →
    view state = some current →
      ∃ following, Transition.run part current (seen state label) = some following ∧
        view next = some following

theorem Projects.run (projects : Projects step part view seen invariant) {state last : σ}
    {current : τ} {labels : List ℓ} (ran : run step state labels = some last)
    (holds : invariant state) (viewed : view state = some current) :
    ∃ following, Transition.run part current (seenAlong step seen state labels) = some following ∧
      view last = some following := by
  induction labels generalizing state current with
  | nil =>
      rw [run_nil_iff] at ran
      exact ⟨current, run_nil_iff.mpr rfl, ran ▸ viewed⟩
  | cons label labels ih =>
      rcases run_cons_iff.mp ran with ⟨next, taken, rest⟩
      rcases projects.goesOn state label next current taken holds viewed with
        ⟨middle, toMiddle, viewedNext⟩
      rcases ih rest (projects.keeps state label next trivial taken holds) viewedNext with
        ⟨following, fromMiddle, viewedLast⟩
      rw [seenAlong_cons taken]
      exact ⟨following, run_append_iff.mpr ⟨middle, toMiddle, fromMiddle⟩, viewedLast⟩

end PPServer.Transition
