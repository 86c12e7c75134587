import PPServer.EventLoop.Descriptors
import PPServer.Library.FiniteMap
import PPServer.Library.Locking
import PPServer.Library.Transition
import PPServer.Text.Bytes

/-!
# The table of callbacks and the interest list

`AddFd`, `UpdateFd` and `RemoveFd`, each with its call of `epoll_ctl`.  The kernel changes its
interest list if it does not refuse, and the event loop changes `fd_callbacks_` in a step of its
own, or throws before it.  The kernel refuses to add a descriptor that is present, and to
change or to delete one that is absent.  It can refuse an addition or a change for reasons of
its own too, such as a descriptor that is not open.
-/

namespace PPServer.EventLoop

open Locking Transition

/-- The calls of `epoll_ctl`. -/
inductive EpollRequest where
  | add (fd : Int) (events : UInt32)
  | mod (fd : Int) (events : UInt32)
  | del (fd : Int)
  deriving DecidableEq

/-- How `epoll_ctl` answers, with the text of `errno` if it fails. -/
inductive EpollCtl where
  | done
  | failed (text : Bytes)
  deriving DecidableEq

/-- The kernel may answer so. -/
def EpollRequest.Answers (interest : Finmap fun _ : Int => UInt32) :
    EpollRequest → EpollCtl → Prop
  | .add fd _, .done => fd ∉ interest
  | .mod fd _, .done => fd ∈ interest
  | .del fd, .done => fd ∈ interest
  | .add _ _, .failed _ => True
  | .mod _ _, .failed _ => True
  | .del fd, .failed _ => fd ∉ interest

instance (interest : Finmap fun _ : Int => UInt32) (request : EpollRequest) (epoll : EpollCtl) :
    Decidable (request.Answers interest epoll) := by
  cases request <;> cases epoll <;> simp only [EpollRequest.Answers] <;> infer_instance

namespace Watching

variable {Callback : Type}

/-- A member function of `EventLoop`, which may throw a `std::runtime_error`. -/
abbrev Op (Callback α : Type) := Locking.Call Bytes (Descriptors Callback) α

/-- What the kernel does with its interest list if it does not refuse. -/
def perform (request : EpollRequest) (interest : Finmap fun _ : Int => UInt32) :
    Finmap fun _ : Int => UInt32 :=
  match request with
  | .add fd events => interest.insert fd events
  | .mod fd events => interest.insert fd events
  | .del fd => interest.erase fd

/-- `epoll_ctl`; the text of `errno` if it fails. -/
def epollCtl (request : EpollRequest) : EpollCtl → Op Callback (Option Bytes)
  | .done => do
      modify fun descriptors =>
        { descriptors with interest := perform request descriptors.interest }
      return none
  | .failed text => return some text

def addFd (fd : Int) (events : UInt32) (callback : Callback) (epoll : EpollCtl) :
    Op Callback PUnit := do
  match ← epollCtl (.add fd (events ||| epollEt)) epoll with
  | some text => Locking.Call.throwing (bytes "Failed to add fd to epoll: " ++ text)
  | none =>
      modify fun descriptors =>
        { descriptors with callbacks := descriptors.callbacks.insert fd callback }

def updateFd (fd : Int) (events : UInt32) (epoll : EpollCtl) : Op Callback PUnit := do
  match ← epollCtl (.mod fd (events ||| epollEt)) epoll with
  | some text => Locking.Call.throwing (bytes "Failed to update fd in epoll: " ++ text)
  | none => return

/-- `RemoveFd`, which only warns if `epoll_ctl` fails. -/
def removeFd (fd : Int) (epoll : EpollCtl) : Op Callback PUnit := do
  let _ ← epollCtl (.del fd) epoll
  modify fun descriptors =>
    { descriptors with callbacks := descriptors.callbacks.erase fd }

/-! ## Runs -/

inductive FdCall (Callback : Type) where
  | addFd (fd : Int) (events : UInt32) (callback : Callback)
  | updateFd (fd : Int) (events : UInt32)
  | removeFd (fd : Int)

namespace FdCall

def fd : FdCall Callback → Int
  | .addFd fd _ _ | .updateFd fd _ | .removeFd fd => fd

/-- What the call asks of the kernel. -/
def request : FdCall Callback → EpollRequest
  | .addFd fd events _ => .add fd (events ||| epollEt)
  | .updateFd fd events => .mod fd (events ||| epollEt)
  | .removeFd fd => .del fd

/-- The call, when the kernel answers so. -/
def run (epoll : EpollCtl) : FdCall Callback → Op Callback PUnit
  | .addFd fd events callback => Watching.addFd fd events callback epoll
  | .updateFd fd events => Watching.updateFd fd events epoll
  | .removeFd fd => Watching.removeFd fd epoll

end FdCall

/-- The constructor adds the eventfd, which has no callback. -/
def new (eventFd : Int) : Descriptors Callback where
  interest := Finmap.singleton eventFd epollRead

/-- One call on a descriptor other than the eventfd, with an answer that the kernel may give. -/
def step (eventFd : Int) (descriptors : Descriptors Callback) (label : FdCall Callback × EpollCtl) :
    Option (Descriptors Callback) :=
  if label.1.fd ≠ eventFd ∧ label.1.request.Answers descriptors.interest label.2 then
    (label.1.run label.2 descriptors).ending
  else none

variable {descriptors next last : Descriptors Callback} {eventFd : Int}
variable {label : FdCall Callback × EpollCtl} {labels : List (FdCall Callback × EpollCtl)}

/-- How a call ends. -/
inductive CallOutcome (descriptors : Descriptors Callback) :
    FdCall Callback × EpollCtl → Outcome Bytes (Descriptors Callback) PUnit → Prop where
  | added {fd : Int} {events : UInt32} {callback : Callback} : fd ∉ descriptors.interest →
      CallOutcome descriptors (.addFd fd events callback, .done)
        (.returned ⟨⟩ (descriptors.addFd fd events callback))
  | notAdded {fd : Int} {events : UInt32} {callback : Callback} {text : Bytes} :
      CallOutcome descriptors (.addFd fd events callback, .failed text)
        (.threw (bytes "Failed to add fd to epoll: " ++ text) descriptors)
  | updated {fd : Int} {events : UInt32} : fd ∈ descriptors.interest →
      CallOutcome descriptors (.updateFd fd events, .done)
        (.returned ⟨⟩ (descriptors.updateFd fd events))
  | notUpdated {fd : Int} {events : UInt32} {text : Bytes} :
      CallOutcome descriptors (.updateFd fd events, .failed text)
        (.threw (bytes "Failed to update fd in epoll: " ++ text) descriptors)
  | removed {fd : Int} {epoll : EpollCtl} :
      CallOutcome descriptors (.removeFd fd, epoll) (.returned ⟨⟩ (descriptors.removeFd fd))

theorem run_outcome (answers : label.1.request.Answers descriptors.interest label.2) :
    CallOutcome descriptors label (label.1.run label.2 descriptors) := by
  rcases label with ⟨call, epoll⟩
  cases call with
  | addFd fd events callback =>
      cases epoll with
      | done => exact .added answers
      | failed text => exact .notAdded
  | updateFd fd events =>
      cases epoll with
      | done =>
          have changed : descriptors.updateFd fd events =
              { descriptors with
                interest := descriptors.interest.insert fd (events ||| epollEt) } := by
            rw [Descriptors.updateFd, if_pos (show fd ∈ descriptors.interest from answers)]
          have ends : CallOutcome descriptors (.updateFd fd events, .done) _ := .updated answers
          rw [changed] at ends
          exact ends
      | failed text => exact .notUpdated
  | removeFd fd =>
      cases epoll with
      | done => exact .removed
      | failed text =>
          have unchanged : descriptors.removeFd fd =
              { descriptors with callbacks := descriptors.callbacks.erase fd } := by
            rw [Descriptors.removeFd, FiniteMap.erase_of_notMem answers]
          have ends : CallOutcome descriptors (.removeFd fd, .failed text) _ := .removed
          rw [unchanged] at ends
          exact ends

theorem step_outcome (taken : step eventFd descriptors label = some next) :
    label.1.fd ≠ eventFd ∧ ∃ outcome, CallOutcome descriptors label outcome ∧
      label.1.run label.2 descriptors = outcome ∧ outcome.Final next := by
  simp only [step] at taken
  split at taken
  next allowed =>
      exact ⟨allowed.1, _, run_outcome allowed.2, rfl, Outcome.ending_eq_some_iff.mp taken⟩
  next => cases taken

/-! ## The table mirrors the interest list -/

/-- The callback that the call adds for the descriptor, if it adds one. -/
def added (fd : Int) : FdCall Callback × EpollCtl → Option Callback
  | (.addFd other _ callback, .done) => if other = fd then some callback else none
  | _ => none

/-- The callback of the latest `AddFd` on the descriptor that has succeeded. -/
def latest (fd : Int) (labels : List (FdCall Callback × EpollCtl)) : Option Callback :=
  labels.reverse.findSome? (added fd)

theorem latest_concat (fd : Int) (labels : List (FdCall Callback × EpollCtl))
    (label : FdCall Callback × EpollCtl) :
    latest fd (labels ++ [label]) = (added fd label).or (latest fd labels) := by
  simp only [latest, List.reverse_append, List.reverse_singleton, List.singleton_append,
    List.findSome?_cons]
  cases added fd label <;> rfl

/-- The table has the descriptors of the interest list, the eventfd apart, with the callbacks that
were added last. -/
structure Mirrors (eventFd : Int) (labels : List (FdCall Callback × EpollCtl))
    (descriptors : Descriptors Callback) : Prop where
  keys : ∀ fd, fd ∈ descriptors.callbacks ↔ fd ∈ descriptors.interest ∧ fd ≠ eventFd
  lookup : ∀ fd, fd ∈ descriptors.callbacks →
    descriptors.callbacks.lookup fd = latest fd labels

theorem mirrors_new : Mirrors eventFd [] (new eventFd : Descriptors Callback) where
  keys fd := by
    rw [new, Finmap.mem_singleton]
    exact iff_of_false Finmap.notMem_empty fun both => both.2 both.1
  lookup fd member := absurd member Finmap.notMem_empty

/-- Each call keeps the table and the interest list in agreement. -/
theorem Mirrors.step (mirrors : Mirrors eventFd labels descriptors)
    (taken : step eventFd descriptors label = some next) :
    Mirrors eventFd (labels ++ [label]) next := by
  rcases step_outcome taken with ⟨notEventFd, outcome, ends, -, final⟩
  cases ends with
  | notAdded | notUpdated =>
      cases final
      exact ⟨mirrors.keys, fun fd member => by
        rw [mirrors.lookup fd member, latest_concat]
        rfl⟩
  | @added fd events callback absent =>
      cases final
      refine ⟨fun other => ?_, fun other member => ?_⟩
      · simp only [Descriptors.addFd, Finmap.mem_insert, mirrors.keys other]
        constructor
        · rintro (rfl | ⟨watched, isOther⟩)
          · exact ⟨.inl rfl, notEventFd⟩
          · exact ⟨.inr watched, isOther⟩
        · rintro ⟨rfl | watched, isOther⟩
          · exact .inl rfl
          · exact .inr ⟨watched, isOther⟩
      · simp only [Descriptors.addFd, Finmap.mem_insert] at member ⊢
        rw [latest_concat, added]
        by_cases same : fd = other
        · subst same
          rw [if_pos rfl, Finmap.lookup_insert]
          rfl
        · rw [if_neg same, Finmap.lookup_insert_of_ne _ (Ne.symm same)]
          exact mirrors.lookup other (member.resolve_left (Ne.symm same))
  | @updated fd events present =>
      cases final
      refine ⟨fun other => ?_, fun other member => ?_⟩
      · simp only [Descriptors.updateFd, if_pos present, Finmap.mem_insert, mirrors.keys other]
        constructor
        · rintro ⟨watched, isOther⟩
          exact ⟨.inr watched, isOther⟩
        · rintro ⟨rfl | watched, isOther⟩
          · exact ⟨present, isOther⟩
          · exact ⟨watched, isOther⟩
      · rw [latest_concat]
        exact mirrors.lookup other member
  | @removed fd epoll =>
      cases final
      refine ⟨fun other => ?_, fun other member => ?_⟩
      · simp only [Descriptors.removeFd, Finmap.mem_erase, mirrors.keys other]
        exact and_assoc.symm
      · simp only [Descriptors.removeFd, Finmap.mem_erase] at member ⊢
        rw [latest_concat, Finmap.lookup_erase_ne member.1]
        exact mirrors.lookup other member.2

/-- **The table mirrors the interest list.**  After any calls on other descriptors than the
eventfd, the table has exactly the watched ones with the callbacks that were added last, and a
call that has thrown has changed nothing. -/
theorem table_mirrors_interest (ran : run (step eventFd) (new eventFd) labels = some last) :
    (∀ fd, fd ∈ last.callbacks ↔ fd ∈ last.interest ∧ fd ≠ eventFd) ∧
      (∀ fd, fd ∈ last.callbacks → last.callbacks.lookup fd = latest fd labels) ∧
      ∀ current label next, Takes (step eventFd) (new eventFd) labels current label next →
        ∀ text after, label.1.run label.2 current = .threw text after →
          after = current ∧ next = current := by
  have mirrors : Mirrors eventFd labels last :=
    run_induction mirrors_new (fun _ _ _ _ mirrors taken => mirrors.step taken) ran
  refine ⟨mirrors.keys, mirrors.lookup, ?_⟩
  intro current label next takes text after threw
  rcases step_outcome takes.taken with ⟨-, outcome, ends, result, final⟩
  rw [threw] at result
  subst result
  cases ends with
  | notAdded | notUpdated => exact ⟨rfl, final.symm⟩

/-- A descriptor is added, in vain added again, removed, and added with another callback. -/
def addsTwice : List (FdCall Nat × EpollCtl) :=
  [(.addFd 5 epollRead 1, .done), (.addFd 5 epollRead 2, .failed (bytes "File exists")),
    (.updateFd 5 epollWrite, .done), (.removeFd 5, .done),
    (.removeFd 5, .failed (bytes "No such file or directory")), (.addFd 5 epollRead 3, .done)]

theorem table_mirrors_interest_addsTwice :
    ∃ last, run (step 4) (new 4) addsTwice = some last ∧ latest 5 addsTwice = some 3 ∧
      (∀ fd, fd ∈ last.callbacks ↔ fd ∈ last.interest ∧ fd ≠ 4) ∧
      ∀ fd, fd ∈ last.callbacks → last.callbacks.lookup fd = latest fd addsTwice := by
  have ran : run (step 4) (new 4) addsTwice = some _ := rfl
  exact ⟨_, ran, rfl, (table_mirrors_interest ran).1, (table_mirrors_interest ran).2.1⟩

end Watching

end PPServer.EventLoop
