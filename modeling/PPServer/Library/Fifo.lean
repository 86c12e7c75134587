import PPServer.Library.Transition

/-!
# First in, first out

A system with a queue puts items into it and takes items out of it.  Its steps keep the order
when each of them takes from the front of what waits and puts behind it.  Whatever else the
steps do, the items that a run has taken, followed by those that still wait, are then those
that waited at its start, followed by those that it has put in.
-/

namespace PPServer.Fifo

open Transition

universe u v w

variable {σ : Type u} {ℓ : Type v} {α : Type w} {step : σ → ℓ → Option σ} {allowed : ℓ → Prop}
variable {put taken : ℓ → List α} {waiting : σ → List α} {state last : σ} {labels : List ℓ}

/-- The allowed steps take from the front of what waits, and put behind it. -/
def KeepsOrder (step : σ → ℓ → Option σ) (allowed : ℓ → Prop) (put taken : ℓ → List α)
    (waiting : σ → List α) : Prop :=
  ∀ state label next, allowed label → step state label = some next →
    taken label ++ waiting next = waiting state ++ put label

/-- Nothing is lost, duplicated or reordered on a run. -/
theorem KeepsOrder.run (keepsOrder : KeepsOrder step allowed put taken waiting)
    (ran : run step state labels = some last) (isAllowed : ∀ label ∈ labels, allowed label) :
    labels.flatMap taken ++ waiting last = waiting state ++ labels.flatMap put := by
  induction labels generalizing state with
  | nil =>
      rw [run_nil_iff] at ran
      simp [ran]
  | cons label labels ih =>
      rcases run_cons_iff.mp ran with ⟨next, enabled, rest⟩
      rw [List.forall_mem_cons] at isAllowed
      calc
        (label :: labels).flatMap taken ++ waiting last =
            taken label ++ (labels.flatMap taken ++ waiting last) := by simp
        _ = (taken label ++ waiting next) ++ labels.flatMap put := by
            rw [ih rest isAllowed.2, List.append_assoc]
        _ = waiting state ++ (label :: labels).flatMap put := by
            rw [keepsOrder state label next isAllowed.1 enabled]
            simp

theorem flatMap_nothing (labels : List ℓ) : labels.flatMap (fun _ => ([] : List α)) = [] :=
  List.flatMap_eq_nil_iff.mpr fun _ _ => rfl

/-- What a run takes out of a queue into which it puts nothing was waiting at its start. -/
theorem KeepsOrder.taken_of_put_nil
    (keepsOrder : KeepsOrder step allowed (fun _ => []) taken waiting)
    (ran : Transition.run step state labels = some last)
    (isAllowed : ∀ label ∈ labels, allowed label) (empty : waiting last = []) :
    labels.flatMap taken = waiting state := by
  have inOrder := keepsOrder.run ran isAllowed
  rwa [empty, flatMap_nothing, List.append_nil, List.append_nil] at inOrder

/-- What waits in a queue from which nothing is taken has grown by what a run puts in. -/
theorem KeepsOrder.put_of_taken_nil
    (keepsOrder : KeepsOrder step allowed put (fun _ => []) waiting)
    (ran : Transition.run step state labels = some last)
    (isAllowed : ∀ label ∈ labels, allowed label) :
    waiting last = waiting state ++ labels.flatMap put := by
  rw [← keepsOrder.run ran isAllowed, flatMap_nothing, List.nil_append]

end PPServer.Fifo
