import Mathlib.Data.List.Induction

/-!
# Runs of a labelled transition system

A system is given by the step it takes on each label, `none` where the label is not
enabled.  A label settles everything the system leaves open, so a run is the list of its
labels, and it is executable.

`CanTake` says that some run goes through a label.  It is shown by giving the run step by
step, and refuted by an invariant under which the label is not enabled.
-/

namespace PPServer.Transition

universe u v

variable {σ : Type u} {ℓ : Type v} {step : σ → ℓ → Option σ}
variable {state next last : σ} {label : ℓ} {labels before after : List ℓ}

/-- The state after the labels, `none` when one of them is not enabled. -/
def run (step : σ → ℓ → Option σ) (state : σ) (labels : List ℓ) : Option σ :=
  labels.foldlM step state

@[simp] theorem run_nil_iff : run step state [] = some last ↔ state = last :=
  Option.some_inj

theorem run_cons_iff :
    run step state (label :: labels) = some last ↔
      ∃ next, step state label = some next ∧ run step next labels = some last :=
  Option.bind_eq_some_iff

theorem run_append_iff :
    run step state (before ++ after) = some last ↔
      ∃ middle, run step state before = some middle ∧ run step middle after = some last := by
  simp only [run]
  rw [List.foldlM_append]
  exact Option.bind_eq_some_iff

/-! ## Invariants -/

/-- The property survives every enabled step whose label is allowed. -/
def Keeps (step : σ → ℓ → Option σ) (allowed : ℓ → Prop) (property : σ → Prop) : Prop :=
  ∀ state label next, allowed label → step state label = some next →
    property state → property next

variable {allowed : ℓ → Prop} {property : σ → Prop}

/-- What every allowed step keeps, every run with allowed labels keeps. -/
theorem Keeps.run (keeps : Keeps step allowed property)
    (ran : run step state labels = some last) (isAllowed : ∀ label ∈ labels, allowed label)
    (holds : property state) : property last := by
  induction labels generalizing state with
  | nil =>
      rw [run_nil_iff] at ran
      exact ran ▸ holds
  | cons label labels ih =>
      rcases run_cons_iff.mp ran with ⟨next, taken, rest⟩
      rw [List.forall_mem_cons] at isAllowed
      exact ih rest isAllowed.2 (keeps state label next isAllowed.1 taken holds)

/-- What relates the labels taken so far to the state, if every step extends it. -/
theorem run_induction {relation : List ℓ → σ → Prop} (start : relation [] state)
    (grows : ∀ labels state label next, relation labels state → step state label = some next →
      relation (labels ++ [label]) next)
    (ran : run step state labels = some last) : relation labels last := by
  induction labels using List.reverseRecOn generalizing last with
  | nil =>
      rw [run_nil_iff] at ran
      exact ran ▸ start
  | append_singleton labels label ih =>
      rcases run_append_iff.mp ran with ⟨middle, toMiddle, fromMiddle⟩
      rcases run_cons_iff.mp fromMiddle with ⟨next, taken, rest⟩
      rw [run_nil_iff] at rest
      exact rest ▸ grows labels middle label next (ih toMiddle) taken

/-! ## States and steps along a run -/

/-- The run comes to a state. -/
def Visits (step : σ → ℓ → Option σ) (state : σ) (labels : List ℓ) (visited : σ) : Prop :=
  ∃ before, before <+: labels ∧ run step state before = some visited

/-- The run takes a label in a state, and gets to the next. -/
def Takes (step : σ → ℓ → Option σ) (state : σ) (labels : List ℓ) (current : σ) (label : ℓ)
    (next : σ) : Prop :=
  ∃ before, before ++ [label] <+: labels ∧ run step state before = some current ∧
    step current label = some next

theorem Takes.taken {current : σ} (takes : Takes step state labels current label next) :
    step current label = some next := by
  rcases takes with ⟨before, -, -, taken⟩
  exact taken

theorem Takes.visits {current : σ} (takes : Takes step state labels current label next) :
    Visits step state labels current := by
  rcases takes with ⟨before, isPrefix, toCurrent, -⟩
  exact ⟨before, (List.prefix_append before [label]).trans isPrefix, toCurrent⟩

theorem Takes.visits_next {current : σ} (takes : Takes step state labels current label next) :
    Visits step state labels next := by
  rcases takes with ⟨before, isPrefix, toCurrent, taken⟩
  exact ⟨before ++ [label], isPrefix,
    run_append_iff.mpr ⟨current, toCurrent, run_cons_iff.mpr ⟨next, taken, run_nil_iff.mpr rfl⟩⟩⟩

/-- A step of the second part of a run is a step of the run. -/
theorem Takes.of_append {middle current : σ} (toMiddle : run step state before = some middle)
    (takes : Takes step middle after current label next) :
    Takes step state (before ++ after) current label next := by
  rcases takes with ⟨between, isPrefix, toCurrent, taken⟩
  refine ⟨before ++ between, ?_, run_append_iff.mpr ⟨middle, toMiddle, toCurrent⟩, taken⟩
  rw [List.append_assoc]
  exact (List.prefix_append_right_inj before).mpr isPrefix

theorem Takes.of_prefix {current : σ} {more : List ℓ} (isPrefix : labels <+: more)
    (takes : Takes step state labels current label next) :
    Takes step state more current label next := by
  rcases takes with ⟨before, isBefore, taken⟩
  exact ⟨before, isBefore.trans isPrefix, taken⟩

theorem Takes.run_rest {current : σ} (takes : Takes step state labels current label next)
    (ran : run step state labels = some last) : ∃ after, run step next after = some last := by
  rcases takes with ⟨before, ⟨after, rfl⟩, toCurrent, taken⟩
  rw [List.append_assoc] at ran
  rcases run_append_iff.mp ran with ⟨middle, toMiddle, fromMiddle⟩
  rw [toCurrent] at toMiddle
  cases toMiddle
  rcases run_cons_iff.mp fromMiddle with ⟨second, isNext, fromNext⟩
  rw [taken] at isNext
  cases isNext
  exact ⟨after, fromNext⟩

/-- The steps of a run are its first and those of the rest. -/
theorem forall_takes_cons {meets : σ → ℓ → Prop} (taken : step state label = some next)
    (met : meets state label)
    (rest : ∀ current label' next', Takes step next labels current label' next' →
      meets current label') (current : σ) (label' : ℓ) (next' : σ)
    (takes : Takes step state (label :: labels) current label' next') : meets current label' := by
  rcases takes with ⟨before, isPrefix, toCurrent, taken'⟩
  cases before with
  | nil =>
      rw [run_nil_iff] at toCurrent
      rw [List.nil_append, List.cons_prefix_cons] at isPrefix
      exact toCurrent ▸ isPrefix.1 ▸ met
  | cons first before =>
      rw [List.cons_append, List.cons_prefix_cons] at isPrefix
      rcases run_cons_iff.mp toCurrent with ⟨second, isNext, fromNext⟩
      rw [isPrefix.1, taken] at isNext
      cases isNext
      exact rest current label' next' ⟨before, isPrefix.2, fromNext, taken'⟩

theorem exists_takes_of_mem (ran : run step state labels = some last) (member : label ∈ labels) :
    ∃ current next, Takes step state labels current label next := by
  rcases List.append_of_mem member with ⟨before, after, rfl⟩
  rcases run_append_iff.mp ran with ⟨current, toCurrent, fromCurrent⟩
  rcases run_cons_iff.mp fromCurrent with ⟨next, taken, -⟩
  have isPrefix : before ++ [label] <+: before ++ label :: after :=
    (List.prefix_append_right_inj before).mpr (by simp)
  exact ⟨current, next, before, isPrefix, toCurrent, taken⟩

theorem Takes.mem {current : σ} (takes : Takes step state labels current label next) :
    label ∈ labels := by
  rcases takes with ⟨before, isPrefix, -⟩
  exact isPrefix.subset (by simp)

theorem visits_last (ran : run step state labels = some last) :
    Visits step state labels last :=
  ⟨labels, List.prefix_rfl, ran⟩

/-- What holds at the start, and after every step that meets a condition, holds in every state of
a run whose steps meet it. -/
theorem forall_visits_of_takes {meets : σ → ℓ → Prop} (start : property state)
    (grows : ∀ current label next, step current label = some next → property current →
      meets current label → property next)
    (met : ∀ current label next, Takes step state labels current label next →
      meets current label)
    (visited : σ) (visits : Visits step state labels visited) : property visited := by
  rcases visits with ⟨before, isPrefix, toVisited⟩
  induction before using List.reverseRecOn generalizing visited with
  | nil =>
      rw [run_nil_iff] at toVisited
      exact toVisited ▸ start
  | append_singleton before label ih =>
      rcases run_append_iff.mp toVisited with ⟨middle, toMiddle, fromMiddle⟩
      rcases run_cons_iff.mp fromMiddle with ⟨next, taken, rest⟩
      rw [run_nil_iff] at rest
      subst rest
      have holds : property middle :=
        ih middle ((List.prefix_append before [label]).trans isPrefix) toMiddle
      exact grows middle label next taken holds
        (met middle label next ⟨before, isPrefix, toMiddle, taken⟩)

/-- If a step keeps the property exactly when it meets a condition, a run has the property in all
its states exactly when all its steps meet it. -/
theorem forall_visits_iff {meets : σ → ℓ → Prop} (start : property state)
    (keepsIff : ∀ current label next, step current label = some next → property current →
      (property next ↔ meets current label)) :
    (∀ visited, Visits step state labels visited → property visited) ↔
      ∀ current label next, Takes step state labels current label next → meets current label := by
  constructor
  · intro holds current label next takes
    exact (keepsIff current label next takes.taken (holds current takes.visits)).mp
      (holds next takes.visits_next)
  · exact forall_visits_of_takes start fun current label next taken holds =>
      (keepsIff current label next taken holds).mpr

/-! ## Labels that a run can go through -/

/-- Some run from the state, with allowed labels only, goes through `label`. -/
def CanTake (step : σ → ℓ → Option σ) (allowed : ℓ → Prop) (label : ℓ) (state : σ) : Prop :=
  ∃ labels last, run step state labels = some last ∧ (∀ other ∈ labels, allowed other) ∧
    label ∈ labels

theorem canTake_of_step (taken : step state label = some next) (isAllowed : allowed label) :
    CanTake step allowed label state :=
  ⟨[label], next, run_cons_iff.mpr ⟨next, taken, run_nil_iff.mpr rfl⟩, by simpa, by simp⟩

theorem CanTake.of_step {other : ℓ} (canTake : CanTake step allowed label next)
    (taken : step state other = some next) (isAllowed : allowed other) :
    CanTake step allowed label state := by
  rcases canTake with ⟨labels, last, ran, areAllowed, member⟩
  exact ⟨other :: labels, last, run_cons_iff.mpr ⟨next, taken, ran⟩,
    List.forall_mem_cons.mpr ⟨isAllowed, areAllowed⟩, List.mem_cons_of_mem _ member⟩

/-- A label that an invariant of the allowed steps disables is on none of their runs. -/
theorem Keeps.not_canTake (keeps : Keeps step allowed property) (holds : property state)
    (disabled : ∀ state, property state → step state label = none) :
    ¬CanTake step allowed label state := by
  intro canTake
  rcases canTake with ⟨labels, last, ran, isAllowed, member⟩
  rcases List.append_of_mem member with ⟨before, after, rfl⟩
  rcases run_append_iff.mp ran with ⟨middle, toMiddle, fromMiddle⟩
  rcases run_cons_iff.mp fromMiddle with ⟨next, taken, -⟩
  have holdsMiddle : property middle :=
    keeps.run toMiddle (fun other isBefore => isAllowed other (List.mem_append_left _ isBefore))
      holds
  rw [disabled middle holdsMiddle] at taken
  cases taken

end PPServer.Transition
