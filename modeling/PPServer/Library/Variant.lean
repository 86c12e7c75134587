import Mathlib.Algebra.BigOperators.Group.Finset.Piecewise
import Mathlib.Algebra.GroupWithZero.Nat
import PPServer.Library.Transition

/-!
# Systems that come to rest

A system whose steps use up what is left to be done, and get more of it only with what comes from
outside, takes no more steps than came in.  Then each of its runs comes to a state in which no step
is left but from outside, whoever chooses the steps.  What is left is often a sum over the parts of
a system, of which a step changes one.
-/

namespace PPServer.Transition

universe u v

variable {σ : Type u} {ℓ : Type v} {step : σ → ℓ → Option σ} {allowed : ℓ → Prop}
variable {invariant : σ → Prop} {cost credit : ℓ → Nat} {measure : σ → Nat} {state last : σ}
variable {labels : List ℓ}

/-- Every allowed step from a state with the invariant pays for its cost with what is left to be
done, and with what it brings along. -/
def Spends (step : σ → ℓ → Option σ) (allowed : ℓ → Prop) (invariant : σ → Prop)
    (cost credit : ℓ → Nat) (measure : σ → Nat) : Prop :=
  ∀ state label next, allowed label → step state label = some next → invariant state →
    measure next + cost label ≤ measure state + credit label

theorem Spends.sum_le (spends : Spends step allowed invariant cost credit measure)
    (keeps : Keeps step allowed invariant) (ran : run step state labels = some last)
    (isAllowed : ∀ label ∈ labels, allowed label) (holds : invariant state) :
    (labels.map cost).sum + measure last ≤ measure state + (labels.map credit).sum := by
  induction labels generalizing state with
  | nil =>
      rw [run_nil_iff] at ran
      simp [ran]
  | cons label labels ih =>
      rcases run_cons_iff.mp ran with ⟨next, taken, rest⟩
      rw [List.forall_mem_cons] at isAllowed
      have spent := spends state label next isAllowed.1 taken holds
      have rest := ih rest isAllowed.2 (keeps state label next isAllowed.1 taken holds)
      rw [List.map_cons, List.map_cons, List.sum_cons, List.sum_cons]
      omega

/-- No allowed step is left. -/
def Stuck (step : σ → ℓ → Option σ) (allowed : ℓ → Prop) (state : σ) : Prop :=
  ∀ label, allowed label → step state label = none

theorem Stuck.ne_some {label : ℓ} {next : σ} (stuck : Stuck step allowed state)
    (isAllowed : allowed label) : step state label ≠ some next := by
  rw [stuck label isAllowed]
  exact (Option.some_ne_none next).symm

/-- A system whose steps bring nothing along comes to rest, if it goes on. -/
theorem Spends.exists_stuck
    (spends : Spends step allowed invariant (fun _ => 1) (fun _ => 0) measure)
    (keeps : Keeps step allowed invariant) (holds : invariant state) :
    ∃ labels last, run step state labels = some last ∧ (∀ label ∈ labels, allowed label) ∧
      Stuck step allowed last := by
  induction size : measure state using Nat.strong_induction_on generalizing state with
  | h size ih =>
      by_cases stuck : Stuck step allowed state
      · exact ⟨[], state, rfl, List.forall_mem_nil _, stuck⟩
      · simp only [Stuck, not_forall] at stuck
        rcases stuck with ⟨label, isAllowed, enabled⟩
        rcases Option.ne_none_iff_exists'.mp enabled with ⟨next, taken⟩
        have less : measure next + 1 ≤ measure state + 0 :=
          spends state label next isAllowed taken holds
        have holdsNext := keeps state label next isAllowed taken holds
        rcases ih (measure next) (by omega) holdsNext rfl with ⟨labels, last, ran, rest, stuck⟩
        exact ⟨label :: labels, last, run_cons_iff.mpr ⟨next, taken, ran⟩,
          List.forall_mem_cons.mpr ⟨isAllowed, rest⟩, stuck⟩

end PPServer.Transition

namespace PPServer

universe u v

variable {ι : Type u} {α : Type v}

theorem sum_map_toNat (counts : α → Bool) (values : List α) :
    (values.map fun value => (counts value).toNat).sum = values.countP counts := by
  induction values with
  | nil => rfl
  | cons value values ih =>
      rw [List.map_cons, List.sum_cons, List.countP_cons, ih]
      cases counts value <;> simp [Nat.add_comm]

variable [DecidableEq ι]

/-- A sum over the parts, of which one is changed. -/
theorem sum_update_add {parts : Finset ι} {changed : ι} (member : changed ∈ parts)
    (cost : α → Nat) (values : ι → α) (value : α) :
    (∑ part ∈ parts, cost (Function.update values changed value part)) + cost (values changed) =
      (∑ part ∈ parts, cost (values part)) + cost value := by
  have updated : (fun part => cost (Function.update values changed value part)) =
      Function.update (fun part => cost (values part)) changed (cost value) := by
    funext part
    exact Function.apply_update (fun _ => cost) values changed value part
  rw [updated, Finset.sum_update_of_mem member, Finset.sdiff_singleton_eq_erase,
    ← Finset.add_sum_erase parts (fun part => cost (values part)) member]
  omega

end PPServer
