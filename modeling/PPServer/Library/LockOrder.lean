import Mathlib.Data.Fintype.Basic
import PPServer.Library.Variant

/-!
# Threads that wait for each other

Threads lock mutexes, some of which are recursive, and release them in the opposite order.  A
thread that wants a mutex waits until no other thread holds it.  Nothing but the mutexes is
modelled, so the steps of a run are the threads that take them.

No thread waits for ever if each one that waits for a mutex has a rank below its holder, where the
holder waits as well.  Two threads that each hold the mutex that the other one waits for do so.
-/

namespace PPServer.LockOrder

open Transition

universe u v

variable {M : Type u} {T : Type v}

/-- What a thread does with the mutexes: it locks one, or leaves its innermost scope. -/
inductive LockAction (M : Type u) where
  | acquire (mutex : M)
  | release
  deriving DecidableEq

/-- The mutexes that a thread holds, the innermost first, and what it has left to do. -/
structure Thread (M : Type u) where
  held : List M
  rest : List (LockAction M)

namespace Thread

/-- What becomes of the thread when it goes on. -/
def next (thread : Thread M) : Thread M :=
  match thread.rest with
  | [] => thread
  | .acquire mutex :: rest => ⟨mutex :: thread.held, rest⟩
  | .release :: rest => ⟨thread.held.tail, rest⟩

/-- The next thing to do is to lock the mutex. -/
def Wants (thread : Thread M) (mutex : M) : Prop := thread.rest.head? = some (.acquire mutex)

theorem Wants.goesOn {thread : Thread M} {mutex : M} (wants : thread.Wants mutex) :
    thread.rest ≠ [] := by
  intro done
  rw [Wants, done] at wants
  cases wants

/-- Unless it locks a mutex, a thread holds no more than before. -/
theorem wants_of_mem_held_next {thread : Thread M} {mutex : M} (holds : mutex ∈ thread.next.held)
    (held : mutex ∉ thread.held) : thread.Wants mutex := by
  rcases thread with ⟨heldMutexes, _ | ⟨_ | _, rest⟩⟩
  · exact absurd holds held
  · rcases List.mem_cons.mp holds with rfl | before
    · rfl
    · exact absurd before held
  · exact absurd (List.mem_of_mem_tail holds) held

theorem length_rest_next {thread : Thread M} (goesOn : thread.rest ≠ []) :
    thread.next.rest.length < thread.rest.length := by
  rcases thread with ⟨held, _ | ⟨_ | _, rest⟩⟩
  · exact absurd rfl goesOn
  · exact Nat.lt_succ_self _
  · exact Nat.lt_succ_self _

end Thread

/-! ## Steps -/

/-- The thread may lock the mutex. -/
def Admits (recursive : M → Bool) (threads : T → Thread M) (thread : T) (mutex : M) : Prop :=
  (∀ other, other ≠ thread → mutex ∉ (threads other).held) ∧
    (mutex ∈ (threads thread).held → recursive mutex = true)

instance [DecidableEq M] [Fintype T] [DecidableEq T] (recursive : M → Bool)
    (threads : T → Thread M) (thread : T) (mutex : M) :
    Decidable (Admits recursive threads thread mutex) :=
  inferInstanceAs (Decidable (_ ∧ _))

/-- What the other threads hold decides, and what the thread itself holds. -/
theorem admits_update_iff [DecidableEq T] {recursive : M → Bool} {threads : T → Thread M}
    {moved : T} {thread : Thread M} {mutex : M} :
    Admits recursive (Function.update threads moved thread) moved mutex ↔
      (∀ other, other ≠ moved → mutex ∉ (threads other).held) ∧
        (mutex ∈ thread.held → recursive mutex = true) := by
  rw [Admits, Function.update_self]
  refine and_congr_left fun _ => forall_congr' fun other => imp_congr_right fun differs => ?_
  rw [Function.update_of_ne differs]

variable [DecidableEq M] [Fintype T] [DecidableEq T] {recursive : M → Bool}
variable {threads next last : T → Thread M} {thread other : T} {mutex : M} {labels : List T}

/-- A thread goes on. -/
def step (recursive : M → Bool) (threads : T → Thread M) (thread : T) :
    Option (T → Thread M) :=
  match (threads thread).rest with
  | [] => none
  | .acquire mutex :: _ =>
      if Admits recursive threads thread mutex then
        some (Function.update threads thread (threads thread).next)
      else none
  | .release :: _ => some (Function.update threads thread (threads thread).next)

theorem step_eq_some_iff :
    step recursive threads thread = some next ↔
      (threads thread).rest ≠ [] ∧
        (∀ mutex, (threads thread).Wants mutex → Admits recursive threads thread mutex) ∧
        next = Function.update threads thread (threads thread).next := by
  simp only [step, Thread.Wants]
  cases rest : (threads thread).rest with
  | nil => simp
  | cons action rest =>
      cases action with
      | acquire mutex =>
          simp only [Option.ite_none_right_eq_some, Option.some_inj, List.head?_cons,
            LockAction.acquire.injEq, forall_eq', ne_eq, reduceCtorEq, not_false_eq_true, true_and]
          exact and_congr_right fun _ => eq_comm
      | release =>
          simp only [Option.some_inj, List.head?_cons, ne_eq, reduceCtorEq, not_false_eq_true,
            false_imp_iff, implies_true, true_and]
          exact eq_comm

/-- No two threads hold the same mutex. -/
def Exclusive (threads : T → Thread M) : Prop :=
  ∀ thread other mutex, mutex ∈ (threads thread).held → mutex ∈ (threads other).held →
    thread = other

theorem keeps_exclusive (allowed : T → Prop) : Keeps (step recursive) allowed Exclusive := by
  intro threads moved next _ taken exclusive
  rcases step_eq_some_iff.mp taken with ⟨-, admits, rfl⟩
  have alone (other : T) (differs : other ≠ moved) (mutex : M)
      (holds : mutex ∈ (threads moved).next.held) : mutex ∉ (threads other).held := by
    intro held
    by_cases before : mutex ∈ (threads moved).held
    · exact differs (exclusive other moved mutex held before)
    · exact (admits mutex (Thread.wants_of_mem_held_next holds before)).1 other differs held
  intro thread other mutex holds held
  by_cases first : thread = moved <;> by_cases second : other = moved
  · rw [first, second]
  · rw [first, Function.update_self] at holds
    rw [Function.update_of_ne second] at held
    exact absurd held (alone other second mutex holds)
  · rw [second, Function.update_self] at held
    rw [Function.update_of_ne first] at holds
    exact absurd holds (alone thread first mutex held)
  · rw [Function.update_of_ne first] at holds
    rw [Function.update_of_ne second] at held
    exact exclusive thread other mutex holds held

/-- A property of each thread by itself. -/
theorem keeps_forall (property : T → Thread M → Prop)
    (keeps : ∀ thread state, property thread state → property thread state.next)
    (allowed : T → Prop) :
    Keeps (step recursive) allowed fun threads => ∀ thread, property thread (threads thread) := by
  intro threads moved next _ taken holds thread
  rcases step_eq_some_iff.mp taken with ⟨-, -, rfl⟩
  by_cases same : thread = moved
  · rw [same, Function.update_self]
    exact keeps moved _ (holds moved)
  · rw [Function.update_of_ne same]
    exact holds thread

/-! ## No thread waits -/

/-- A thread that is done holds nothing, and locks a mutex again only if that is recursive. -/
structure Thread.Proper (recursive : M → Bool) (thread : Thread M) : Prop where
  done : thread.rest = [] → thread.held = []
  again : ∀ mutex, thread.Wants mutex → mutex ∈ thread.held → recursive mutex = true

/-- A thread that cannot go on waits for another one. -/
theorem wants_of_stuck (proper : (threads thread).Proper recursive)
    (stuck : Stuck (step recursive) (fun _ => True) threads) (goesOn : (threads thread).rest ≠ []) :
    ∃ mutex other, (threads thread).Wants mutex ∧ other ≠ thread ∧
      mutex ∈ (threads other).held := by
  by_contra none
  push Not at none
  apply stuck.ne_some trivial
  refine step_eq_some_iff.mpr ⟨goesOn, fun mutex wants => ⟨?_, proper.again mutex wants⟩, rfl⟩
  exact fun other differs => none mutex other wants differs

/-- **No deadlock.**  Let the ranks be bounded, and let a thread that holds a mutex and waits for
another one be of a higher rank there than whoever waits for the first.  Then threads of which none
can go on are done. -/
theorem done_of_stuck {rank : T → M → Nat} {bound : Nat}
    (bounded : ∀ thread mutex, rank thread mutex ≤ bound) (exclusive : Exclusive threads)
    (proper : ∀ thread, (threads thread).Proper recursive)
    (ordered : ∀ thread held wanted other, held ∈ (threads thread).held →
      (threads thread).Wants wanted → wanted ∉ (threads thread).held → other ≠ thread →
      rank other held < rank thread wanted)
    (stuck : Stuck (step recursive) (fun _ => True) threads) (thread : T) :
    (threads thread).rest = [] := by
  -- by induction on how far the rank of a waiting thread is below the bound
  have noneWaits (distance : Nat) : ∀ thread mutex, (threads thread).Wants mutex →
      bound - rank thread mutex = distance → False := by
    induction distance using Nat.strong_induction_on with
    | h distance ih =>
        intro thread mutex wants isDistance
        rcases wants_of_stuck (proper thread) stuck wants.goesOn with
          ⟨same, holder, wantsSame, differs, holds⟩
        cases Option.some_inj.mp (wants.symm.trans wantsSame)
        have goesOn : (threads holder).rest ≠ [] := fun done =>
          List.ne_nil_of_mem holds ((proper holder).done done)
        rcases wants_of_stuck (proper holder) stuck goesOn with
          ⟨wanted, third, wantsNext, differsNext, holdsNext⟩
        have notHeld : wanted ∉ (threads holder).held := fun held =>
          differsNext (exclusive third holder wanted holdsNext held)
        have above := ordered holder mutex wanted thread holds wantsNext notHeld differs.symm
        have below := bounded holder wanted
        exact ih (bound - rank holder wanted) (by omega) holder wanted wantsNext rfl
  by_contra goesOn
  rcases wants_of_stuck (proper thread) stuck goesOn with ⟨mutex, -, wants, -⟩
  exact noneWaits _ thread mutex wants rfl

theorem spends_rest :
    Spends (step recursive) (fun _ : T => True) (fun _ => True) (fun _ => 1) (fun _ => 0)
      fun threads => ∑ thread, (threads thread).rest.length := by
  intro threads moved next _ taken _
  rcases step_eq_some_iff.mp taken with ⟨goesOn, -, rfl⟩
  have sum := sum_update_add (Finset.mem_univ moved) (fun thread : Thread M => thread.rest.length)
    threads (threads moved).next
  have less := Thread.length_rest_next goesOn
  simp only
  omega

variable (recursive) in
/-- Every run can be brought to an end, in which no thread can go on. -/
theorem exists_stuck (threads : T → Thread M) :
    ∃ labels last, run (step recursive) threads labels = some last ∧
      Stuck (step recursive) (fun _ => True) last := by
  have keeps : Keeps (step recursive) (fun _ : T => True) fun _ => True :=
    fun _ _ _ _ _ _ => trivial
  have holds : (fun _ : T → Thread M => True) threads := trivial
  rcases spends_rest.exists_stuck keeps holds with ⟨labels, last, ran, -, stuck⟩
  exact ⟨labels, last, ran, stuck⟩

/-! ## Two threads that wait for each other -/

/-- Whatever happens, the thread is not done. -/
def NeverDone (recursive : M → Bool) (threads : T → Thread M) (thread : T) : Prop :=
  ∀ labels last, run (step recursive) threads labels = some last → (last thread).rest ≠ []

/-- **A deadlock.**  Each of two threads waits for a mutex that the other one holds. -/
theorem neverDone_of_crossed {first second : M} (differ : thread ≠ other)
    (holds : first ∈ (threads thread).held) (wants : (threads thread).Wants second)
    (holds' : second ∈ (threads other).held) (wants' : (threads other).Wants first) :
    NeverDone recursive threads thread := by
  have keeps : Keeps (step recursive) (fun _ => True)
      fun state => state thread = threads thread ∧ state other = threads other := by
    rintro state moved next - taken ⟨same, same'⟩
    rcases step_eq_some_iff.mp taken with ⟨-, admits, rfl⟩
    have notThread : thread ≠ moved := by
      rintro rfl
      exact (admits second (by rwa [same])).1 other differ.symm (by rwa [same'])
    have notOther : other ≠ moved := by
      rintro rfl
      exact (admits first (by rwa [same'])).1 thread differ (by rwa [same])
    rw [Function.update_of_ne notThread, Function.update_of_ne notOther]
    exact ⟨same, same'⟩
  intro labels last ran
  have unchanged := keeps.run ran (fun _ _ => trivial) ⟨rfl, rfl⟩
  rw [unchanged.1]
  exact wants.goesOn

end PPServer.LockOrder
