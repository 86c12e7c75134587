import PPServer.Library.LockOrder

/-!
# Threads that go through scopes

A scope locks a mutex, and in it others, one after another.  Threads that go through scopes wait
for a mutex with nothing held, or with the mutex of the scope.
-/

namespace PPServer.LockOrder

open Transition

universe u v

variable {M : Type u} {T : Type v}

/-- A scope with its mutex, and the mutexes that are locked and released in it. -/
structure Scope (M : Type u) where
  outer : M
  inner : List M

/-- The mutexes are locked and released, one after another. -/
def sections (inner : List M) : List (LockAction M) :=
  inner.flatMap fun mutex => [.acquire mutex, .release]

@[simp] theorem sections_nil : sections ([] : List M) = [] := rfl

@[simp] theorem sections_cons (mutex : M) (inner : List M) :
    sections (mutex :: inner) = .acquire mutex :: .release :: sections inner := rfl

@[simp] theorem sections_append (front back : List M) :
    sections (front ++ back) = sections front ++ sections back :=
  List.flatMap_append

theorem mem_of_begins {mutex : M} {inner : List M}
    (isPrefix : sections [mutex] <+: sections inner) : mutex ∈ inner := by
  cases inner with
  | nil => cases isPrefix.length_le
  | cons first inner =>
      simp only [sections_cons, List.cons_prefix_cons, LockAction.acquire.injEq] at isPrefix
      exact isPrefix.1 ▸ List.mem_cons_self

def Scope.script (scope : Scope M) : List (LockAction M) :=
  .acquire scope.outer :: (sections scope.inner ++ [.release])

/-- The mutex of the scope is locked again in it only if it is recursive. -/
def Scope.Again (recursive : M → Bool) (scope : Scope M) : Prop :=
  scope.outer ∈ scope.inner → recursive scope.outer = true

/-- The scopes, one after another. -/
def scripts (scopes : List (Scope M)) : List (LockAction M) := scopes.flatMap Scope.script

theorem scripts_cons (scope : Scope M) (scopes : List (Scope M)) :
    scripts (scope :: scopes) =
      .acquire scope.outer :: (sections scope.inner ++ .release :: scripts scopes) := by
  simp [scripts, Scope.script]

theorem scripts_append (front back : List (Scope M)) :
    scripts (front ++ back) = scripts front ++ scripts back :=
  List.flatMap_append

/-! ## Where a thread is -/

/-- The places of a thread in its scopes. -/
inductive Position (allowed : Scope M → Prop) : Thread M → Prop where
  | between (scopes : List (Scope M)) (areAllowed : ∀ scope ∈ scopes, allowed scope) :
      Position allowed ⟨[], scripts scopes⟩
  | inScope (scope : Scope M) (done inner : List M) (scopes : List (Scope M))
      (isAllowed : allowed scope) (split : scope.inner = done ++ inner)
      (areAllowed : ∀ scope ∈ scopes, allowed scope) :
      Position allowed ⟨[scope.outer], sections inner ++ .release :: scripts scopes⟩
  | inSection (scope : Scope M) (done : List M) (mutex : M) (inner : List M)
      (scopes : List (Scope M)) (isAllowed : allowed scope)
      (split : scope.inner = done ++ mutex :: inner)
      (areAllowed : ∀ scope ∈ scopes, allowed scope) :
      Position allowed
        ⟨[mutex, scope.outer], .release :: (sections inner ++ .release :: scripts scopes)⟩

variable {allowed : Scope M → Prop} {thread : Thread M} {mutex held : M}

theorem Position.next (position : Position allowed thread) : Position allowed thread.next := by
  cases position with
  | between scopes areAllowed =>
      cases scopes with
      | nil => exact .between [] areAllowed
      | cons scope scopes =>
          rw [List.forall_mem_cons] at areAllowed
          rw [scripts_cons]
          exact .inScope scope [] scope.inner scopes areAllowed.1 rfl areAllowed.2
  | inScope scope done inner scopes isAllowed split areAllowed =>
      cases inner with
      | nil => exact .between scopes areAllowed
      | cons mutex inner =>
          exact .inSection scope done mutex inner scopes isAllowed split areAllowed
  | inSection scope done mutex inner scopes isAllowed split areAllowed =>
      refine .inScope scope (done ++ [mutex]) inner scopes isAllowed ?_ areAllowed
      rw [split, List.append_assoc, List.singleton_append]

/-- A thread wants a mutex in the scope of the one it holds. -/
theorem Position.exists_scope (position : Position allowed thread) (wants : thread.Wants mutex)
    (holds : held ∈ thread.held) :
    ∃ scope, allowed scope ∧ scope.outer = held ∧ mutex ∈ scope.inner := by
  cases position with
  | between => cases holds
  | inScope scope done inner scopes isAllowed split _ =>
      cases inner with
      | nil => cases wants
      | cons first inner =>
          cases wants
          exact ⟨scope, isAllowed, (List.mem_singleton.mp holds).symm, by simp [split]⟩
  | inSection => cases wants

variable {recursive : M → Bool}

theorem Position.proper (again : ∀ scope, allowed scope → scope.Again recursive)
    (position : Position allowed thread) : thread.Proper recursive where
  done := by
    intro done
    cases position with
    | between => rfl
    | inScope scope before inner scopes => cases inner <;> cases done
    | inSection => cases done
  again := by
    intro mutex wants holds
    rcases position.exists_scope wants holds with ⟨scope, isAllowed, rfl, member⟩
    exact again scope isAllowed member

variable [DecidableEq M] [Fintype T] [DecidableEq T]

/-- The threads at their start. -/
def start (scopes : T → List (Scope M)) (thread : T) : Thread M := ⟨[], scripts (scopes thread)⟩

variable {scopes : T → List (Scope M)} {labels : List T} {threads last : T → Thread M}

theorem exclusive_of_run (ran : run (step recursive) (start scopes) labels = some threads) :
    Exclusive threads :=
  (keeps_exclusive fun _ => True).run ran (fun _ _ => trivial) fun _ _ _ holds => by cases holds

theorem position_of_run (ran : run (step recursive) (start scopes) labels = some threads)
    (thread : T) : Position (· ∈ scopes thread) (threads thread) := by
  have keeps : Keeps (step recursive) (fun _ => True) _ :=
    keeps_forall (fun thread => Position (· ∈ scopes thread)) (fun _ _ => Position.next) _
  exact keeps.run ran (fun _ _ => trivial)
    (fun thread => .between (scopes thread) fun _ member => member) thread

/-! ## No thread waits -/

/-- **No deadlock.**  The ranks of what a thread locks in a scope are above those that the others
have for the mutex of the scope.  Then every thread can get done, whatever happened so far. -/
theorem not_neverDone (rank : T → M → Nat) (bound : Nat)
    (bounded : ∀ thread mutex, rank thread mutex ≤ bound)
    (again : ∀ thread, ∀ scope ∈ scopes thread, scope.Again recursive)
    (ordered : ∀ thread, ∀ scope ∈ scopes thread, ∀ mutex ∈ scope.inner, mutex ≠ scope.outer →
      ∀ other, other ≠ thread → rank other scope.outer < rank thread mutex)
    (ran : run (step recursive) (start scopes) labels = some threads) (thread : T) :
    ¬NeverDone recursive threads thread := by
  intro never
  rcases exists_stuck recursive threads with ⟨more, last, goesOn, stuck⟩
  have wholeRun : run (step recursive) (start scopes) (labels ++ more) = some last :=
    run_append_iff.mpr ⟨threads, ran, goesOn⟩
  have position := position_of_run wholeRun
  refine never more last goesOn (done_of_stuck bounded (exclusive_of_run wholeRun)
    (fun thread => (position thread).proper (again thread)) ?_ stuck thread)
  intro thread held wanted other holds wants notHeld differs
  rcases (position thread).exists_scope wants holds with ⟨scope, member, rfl, isInner⟩
  have isOther : wanted ≠ scope.outer := by
    rintro rfl
    exact notHeld holds
  exact ordered thread scope member wanted isInner isOther other differs

/-! ## Two threads that cross -/

/-- Some run leads from the one state to the other. -/
def Reaches (recursive : M → Bool) (threads last : T → Thread M) : Prop :=
  ∃ labels, run (step recursive) threads labels = some last

variable {moved : T} {held : List M} {rest : List (LockAction M)}

theorem Reaches.refl (threads : T → Thread M) : Reaches recursive threads threads :=
  ⟨[], rfl⟩

theorem Reaches.trans {middle : T → Thread M} (first : Reaches recursive threads middle)
    (second : Reaches recursive middle last) : Reaches recursive threads last := by
  rcases first with ⟨labels, toMiddle⟩
  rcases second with ⟨more, fromMiddle⟩
  exact ⟨labels ++ more, run_append_iff.mpr ⟨middle, toMiddle, fromMiddle⟩⟩

theorem reaches_next {thread : Thread M} (goesOn : thread.rest ≠ [])
    (admits : ∀ mutex, thread.Wants mutex →
      Admits recursive (Function.update threads moved thread) moved mutex) :
    Reaches recursive (Function.update threads moved thread)
      (Function.update threads moved thread.next) := by
  refine ⟨[moved], run_cons_iff.mpr ⟨_, step_eq_some_iff.mpr ⟨?_, ?_, ?_⟩, rfl⟩⟩
  · rwa [Function.update_self]
  · rwa [Function.update_self]
  · rw [Function.update_self, Function.update_idem]

theorem reaches_acquire (free : ∀ other, other ≠ moved → mutex ∉ (threads other).held)
    (again : mutex ∈ held → recursive mutex = true) :
    Reaches recursive (Function.update threads moved ⟨held, .acquire mutex :: rest⟩)
      (Function.update threads moved ⟨mutex :: held, rest⟩) := by
  refine reaches_next (List.cons_ne_nil _ _) fun wanted wants => ?_
  cases wants
  exact admits_update_iff.mpr ⟨free, again⟩

theorem reaches_release :
    Reaches recursive (Function.update threads moved ⟨mutex :: held, .release :: rest⟩)
      (Function.update threads moved ⟨held, rest⟩) :=
  reaches_next (List.cons_ne_nil _ _) fun _ wants => by cases wants

/-- A thread goes through sections that nobody else is in. -/
theorem reaches_sections (inner : List M)
    (free : ∀ mutex ∈ inner, ∀ other, other ≠ moved → mutex ∉ (threads other).held)
    (again : ∀ mutex ∈ inner, mutex ∈ held → recursive mutex = true) :
    Reaches recursive (Function.update threads moved ⟨held, sections inner ++ rest⟩)
      (Function.update threads moved ⟨held, rest⟩) := by
  induction inner with
  | nil => exact .refl _
  | cons mutex inner ih =>
      rw [List.forall_mem_cons] at free again
      exact ((reaches_acquire free.1 again.1).trans reaches_release).trans (ih free.2 again.2)

/-- A thread comes to a point of a scope. -/
theorem reaches_inScope {scope : Scope M} {before after : List M}
    (split : scope.inner = before ++ after) (again : scope.Again recursive)
    (free : ∀ mutex ∈ scope.outer :: before, ∀ other, other ≠ moved →
      mutex ∉ (threads other).held) :
    Reaches recursive
      (Function.update threads moved
        ⟨[], .acquire scope.outer :: (sections scope.inner ++ rest)⟩)
      (Function.update threads moved ⟨[scope.outer], sections after ++ rest⟩) := by
  rw [List.forall_mem_cons] at free
  rw [split, sections_append, List.append_assoc]
  refine (reaches_acquire free.1 fun holds => by cases holds).trans
    (reaches_sections before free.2 fun mutex member holds => ?_)
  rw [List.mem_singleton] at holds
  rw [holds] at member ⊢
  exact again (by simp [split, member])

/-- A thread goes through scopes while the others hold nothing. -/
theorem reaches_scripts (front : List (Scope M))
    (alone : ∀ other, other ≠ moved → (threads other).held = [])
    (again : ∀ scope ∈ front, scope.Again recursive) :
    Reaches recursive (Function.update threads moved ⟨[], scripts front ++ rest⟩)
      (Function.update threads moved ⟨[], rest⟩) := by
  induction front with
  | nil => exact .refl _
  | cons scope front ih =>
      rw [List.forall_mem_cons] at again
      rw [scripts_cons, List.cons_append, List.append_assoc]
      have inside : Reaches recursive _ (Function.update threads moved
          ⟨[scope.outer], sections [] ++ (.release :: scripts front ++ rest)⟩) :=
        reaches_inScope (List.append_nil scope.inner).symm again.1
          fun mutex _ other differs => by simp [alone other differs]
      exact (inside.trans reaches_release).trans (ih again.2)

/-- Only one thread moves. -/
theorem Reaches.exists_last {thread : Thread M}
    (reaches : Reaches recursive threads (Function.update threads moved thread)) :
    ∃ last, Reaches recursive threads last ∧ last moved = thread ∧
      ∀ other, other ≠ moved → last other = threads other :=
  ⟨_, reaches, Function.update_self .., fun _ differs => Function.update_of_ne differs ..⟩

/-- A thread comes to a point of the scope in front of it. -/
theorem exists_inScope {scope : Scope M} {before after : List M}
    (split : scope.inner = before ++ after) (again : scope.Again recursive)
    (place : threads moved = ⟨[], .acquire scope.outer :: (sections scope.inner ++ rest)⟩)
    (free : ∀ mutex ∈ scope.outer :: before, ∀ other, other ≠ moved →
      mutex ∉ (threads other).held) :
    ∃ last, Reaches recursive threads last ∧
      last moved = ⟨[scope.outer], sections after ++ rest⟩ ∧
      ∀ other, other ≠ moved → last other = threads other := by
  have reaches : Reaches recursive _ (Function.update threads moved
      ⟨[scope.outer], sections after ++ rest⟩) := reaches_inScope split again free
  rw [← place, Function.update_eq_self] at reaches
  exact reaches.exists_last

/-- A thread comes from its start to one of its scopes while the others hold nothing. -/
theorem exists_atScope {scope : Scope M} (member : scope ∈ scopes moved)
    (place : threads moved = start scopes moved)
    (alone : ∀ other, other ≠ moved → (threads other).held = [])
    (again : ∀ scope ∈ scopes moved, scope.Again recursive) :
    ∃ rest last, Reaches recursive threads last ∧
      last moved = ⟨[], .acquire scope.outer :: (sections scope.inner ++ rest)⟩ ∧
      ∀ other, other ≠ moved → last other = threads other := by
  rcases List.append_of_mem member with ⟨front, back, split⟩
  rw [split] at again
  have reaches : Reaches recursive _
      (Function.update threads moved ⟨[], scripts (scope :: back)⟩) :=
    reaches_scripts front alone fun scope isFront => again scope (List.mem_append_left _ isFront)
  rw [← scripts_append, ← split, ← start, ← place, Function.update_eq_self, scripts_cons]
    at reaches
  exact ⟨_, reaches.exists_last⟩

/-- **A deadlock.**  Two threads each have a scope in which they lock the mutex of the other's.
Then some run brings them there, and neither ever gets out. -/
theorem exists_neverDone {first second : T} (differ : first ≠ second) {scope scope' : Scope M}
    (member : scope ∈ scopes first) (member' : scope' ∈ scopes second)
    (crosses : scope'.outer ∈ scope.inner) (crosses' : scope.outer ∈ scope'.inner)
    (different : scope.outer ≠ scope'.outer)
    (again : ∀ thread, ∀ scope ∈ scopes thread, scope.Again recursive) :
    ∃ last, Reaches recursive (start scopes) last ∧ NeverDone recursive last first := by
  rcases List.eq_append_cons_of_mem crosses with ⟨before, after, split, notBefore⟩
  rcases List.append_of_mem crosses' with ⟨before', after', split'⟩
  -- the first thread comes to its scope
  rcases exists_atScope member rfl (fun _ _ => rfl) (again first) with
    ⟨rest, atScope, toScope, place, others⟩
  have idle (thread : T) : (atScope thread).held = [] := by
    by_cases same : thread = first
    · rw [same, place]
    · rw [others thread same, start]
  -- the second one comes into its own
  rcases exists_atScope member' (others second differ.symm) (fun other _ => idle other)
    (again second) with ⟨rest', atScope', toScope', place', others'⟩
  have idle' (thread : T) : (atScope' thread).held = [] := by
    by_cases same : thread = second
    · rw [same, place']
    · rw [others' thread same, idle]
  rcases exists_inScope split' (again second scope' member') place'
    (fun mutex _ other _ => by simp [idle' other]) with ⟨inScope, intoScope, inside, others''⟩
  -- and then the first one too
  have waits : inScope first =
      ⟨[], .acquire scope.outer :: (sections scope.inner ++ rest)⟩ := by
    rw [others'' first differ, others' first differ, place]
  have free (mutex : M) (isBefore : mutex ∈ scope.outer :: before) (other : T)
      (_ : other ≠ first) : mutex ∉ (inScope other).held := by
    by_cases same : other = second
    · rw [same, inside, List.mem_singleton]
      rintro rfl
      exact (List.mem_cons.mp isBefore).elim different.symm notBefore
    · simp [others'' other same, idle' other]
  rcases exists_inScope split (again first scope member) waits free with
    ⟨last, toLast, inside', unchanged⟩
  have kept := (unchanged second differ.symm).trans inside
  have holds : scope.outer ∈ (last first).held := by simp [inside']
  have holds' : scope'.outer ∈ (last second).held := by simp [kept]
  have wants : (last first).Wants scope'.outer := by simp [inside', Thread.Wants]
  have wants' : (last second).Wants scope.outer := by simp [kept, Thread.Wants]
  exact ⟨last, ((toScope.trans toScope').trans intoScope).trans toLast,
    neverDone_of_crossed differ holds wants holds' wants'⟩

end PPServer.LockOrder
