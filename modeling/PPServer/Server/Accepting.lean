import PPServer.Server.Registrations

/-!
# The listen queue

`HandleNewConnection` calls `accept4` once, although `AddFd` has asked epoll for edges: what is
left in the queue is not reported again.  So the queue is emptied only if it holds a single
connection, and a connection that is left in it stays there until the next client arrives.
-/

namespace PPServer.Server

open Locking Net EventLoop

namespace WebServer

variable {config : Config} {server next : WebServer} {id : Nat} {fd : Int}

/-! ## One event -/

/-- The call comes to an end, and nobody is left in the queue. -/
def Drains (outcome : Outcome Exception WebServer PUnit) : Prop :=
  ∃ after, outcome.Final after ∧ after.waiting = 0

theorem ArrivalOutcome.waiting {arrival : Arrival} {outcome : Outcome Exception WebServer PUnit}
    (ends : ArrivalOutcome config server arrival outcome) :
    ∃ after, outcome.Final after ∧ after.waiting = server.waiting - taken arrival.accept := by
  cases ends with
  | nothing | unmade | unwatched | untabled | added => exact ⟨_, rfl, rfl⟩

/-- **The backlog is drained** exactly if one connection is waiting and `accept4` is not
interrupted. -/
theorem handleNewConnection_drains_iff {listenFd : Int} {actions : List Action}
    (reached : Transition.run (step config) (started listenFd) actions = some server)
    {arrival : Arrival} (waits : 1 ≤ server.waiting)
    (possible : server.Possible arrival.accept) (notFatal : arrival.accept ≠ .failed) :
    Drains (handleNewConnection config arrival server) ↔
      server.waiting = 1 ∧ arrival.accept ≠ .interrupted := by
  have ends : ArrivalOutcome config server arrival _ :=
    handleNewConnection_outcome (invariant_of_run reached).free arrival possible
  rcases ends.waiting with ⟨after, final, left⟩
  have drains : Drains (handleNewConnection config arrival server) ↔
      server.waiting - taken arrival.accept = 0 := by
    rw [← left]
    refine ⟨?_, fun empty => ⟨after, final, empty⟩⟩
    rintro ⟨other, finalOther, empty⟩
    rwa [final.unique finalOther]
  rw [drains]
  cases accept : arrival.accept with
  | accepted fd | aborted =>
      simp only [taken, ne_eq, reduceCtorEq, not_false_eq_true, and_true]
      omega
  | interrupted =>
      simp only [taken, ne_eq, not_true_eq_false, and_false, iff_false]
      omega
  | wouldBlock =>
      rw [accept] at possible
      exact absurd possible (Nat.ne_of_gt waits)
  | failed => exact absurd accept notFatal

/-- The server with this many clients in its queue. -/
def queued (count : Nat) : WebServer := { started 3 with waiting := count }

theorem handleNewConnection_drains_iff_queued :
    Drains (handleNewConnection {} ⟨.accepted 7, none, .done, 1⟩ (queued 1)) ↔
      (queued 1).waiting = 1 ∧ Accept.accepted 7 ≠ .interrupted :=
  have reached : Transition.run (step {}) (started 3) [.arrive] = some (queued 1) := rfl
  handleNewConnection_drains_iff reached (by decide) (by decide) (by decide)

/-- Of two clients in the queue one is left. -/
theorem not_drains_queued :
    Transition.run (step {}) (started 3) [.arrive, .arrive] = some (queued 2) ∧
      (queued 2).Possible (.accepted 7) ∧
      ¬Drains (handleNewConnection {} ⟨.accepted 7, none, .done, 1⟩ (queued 2)) := by
  refine ⟨rfl, by decide, ?_⟩
  rintro ⟨after, final, empty⟩
  cases final
  cases empty

/-! ## Edges -/

/-- Every descriptor in the interest list is watched for edges. -/
def EdgeTriggered (server : WebServer) : Prop :=
  ∀ fd mask, server.descriptors.interest.lookup fd = some mask → Any mask epollEt

theorem edgeTriggered_insert {interest : Finmap fun _ : Int => UInt32} {fd : Int}
    {events : UInt32}
    (edges : ∀ fd mask, interest.lookup fd = some mask → Any mask epollEt) (other : Int)
    (mask : UInt32) (found : (interest.insert fd (events ||| epollEt)).lookup other = some mask) :
    Any mask epollEt := by
  rcases FiniteMap.lookup_insert_eq_some_iff.mp found with ⟨-, rfl⟩ | ⟨-, found⟩
  · exact any_or_epollEt events
  · exact edges other mask found

theorem EdgeTriggered.perform (edges : server.EdgeTriggered) (effect : Effect) :
    (server.perform effect).EdgeTriggered := by
  intro fd mask found
  cases effect with
  | updateFd changed read write =>
      simp only [WebServer.perform, Descriptors.updateFd] at found
      split at found
      next => exact edgeTriggered_insert edges fd mask found
      next => exact edges fd mask found
  | removeFd removed | closeSocket removed =>
      exact edges fd mask (FiniteMap.lookup_erase_eq_some_iff.mp found).2
  | sent | onConnection | onDisconnection | error | readCallback | writeCallback
  | errorCallback => exact edges fd mask found

theorem keeps_edgeTriggered_onClient (id : Nat) (op : Connection.Op PUnit) :
    Locking.Keeps EdgeTriggered (onClient id op) := by
  intro server after edges final
  rw [onClient] at final
  split at final
  next conn _ =>
      rcases final_mapState_iff.mp final with ⟨changed, -, rfl⟩
      exact List.foldlRecOn _ perform edges fun _ known effect _ => known.perform effect
  next =>
      cases final
      exact edges

theorem keeps_edgeTriggered_handleNewConnection (config : Config) (arrival : Arrival) :
    Locking.Keeps EdgeTriggered (handleNewConnection config arrival) := by
  have accepts : Locking.Keeps EdgeTriggered (accept4 arrival.accept) := by
    cases arrival.accept with
    | accepted | aborted => exact .bind (.modify fun _ edges => edges) fun _ => .pure _
    | interrupted | wouldBlock | failed => exact .pure _
  have makes (fd : Int) :
      Locking.Keeps EdgeTriggered (makeConnection fd arrival.now arrival.setupFailure) := by
    cases arrival.setupFailure with
    | some failure => exact .throwing _
    | none => exact .get_bind fun _ => .bind (.modify fun _ edges => edges) fun _ => .pure _
  have watches (fd : Int) (id : Nat) : Locking.Keeps EdgeTriggered
      (addFd fd (epollRead ||| epollEt) (.client id) arrival.epollAdd) := by
    cases arrival.epollAdd with
    | done => exact .modify fun _ edges => edgeTriggered_insert edges
    | failed text => exact .throwing _
  have adds (fd : Int) (id : Nat) : Locking.Keeps EdgeTriggered (addConnection config fd id) :=
    .lockGuard (.get_bind fun _ => .ite (.pure _)
      (.bind (.modify fun _ edges => edges) fun _ => .pure _)) fun _ _ edges => edges
  refine .bind accepts fun fd => .ite (.pure _) ?_
  refine .bind (makes fd) fun id => .bind (keeps_edgeTriggered_onClient id _) fun _ => ?_
  refine .bind (.unwinding (watches fd id) (keeps_edgeTriggered_onClient id _)) fun _ => ?_
  exact .bind (adds fd id) fun _ => keeps_edgeTriggered_onClient id _

theorem keeps_edgeTriggered (config : Config) :
    Transition.Keeps (step config) (fun _ => True) EdgeTriggered := by
  intro server action next _ taken edges
  cases action with
  | arrive =>
      cases taken
      exact edges
  | ioEvent fd events arrival calls =>
      rcases Option.ite_none_right_eq_some.mp taken with ⟨-, ends⟩
      have handles : Locking.Keeps EdgeTriggered
          (handleIoEvent config fd events arrival calls) := by
        refine .get_bind fun server => ?_
        split
        next => exact .attempt (keeps_edgeTriggered_handleNewConnection config arrival)
        next => exact .attempt (keeps_edgeTriggered_onClient _ _)
        next => exact .pure _
      exact handles server next edges (Outcome.ending_eq_some_iff.mp ends)
  | cleanupTimeoutConnections now order =>
      rcases Option.ite_none_right_eq_some.mp taken with ⟨-, ends⟩
      have body (entry : Σ _ : Int, Nat) :
          Locking.Keeps EdgeTriggered (cleanupEntry config now entry) := by
        refine .get_bind fun server => ?_
        split
        next =>
            exact .ite (.bind (keeps_edgeTriggered_onClient _ _) fun _ =>
              .modify fun _ edges => edges) (.pure _)
        next => exact .pure _
      have loop : Locking.Keeps EdgeTriggered (cleanupTimeoutConnections config now order) :=
        .lockGuard (.forM body order) fun _ _ edges => edges
      exact loop server next edges (Outcome.ending_eq_some_iff.mp ends)
  | closeAllConnections order =>
      rcases Option.ite_none_right_eq_some.mp taken with ⟨-, ends⟩
      have loop : Locking.Keeps EdgeTriggered (closeAllConnections order) :=
        .lockGuard (.bind (.forM (fun _ => keeps_edgeTriggered_onClient _ _) order) fun _ =>
          .modify fun _ edges => edges) fun _ _ edges => edges
      exact loop server next edges (Outcome.ending_eq_some_iff.mp ends)

/-! ## Who stays in the queue -/

/-- The step is an event of the listening socket. -/
def Listens (server : WebServer) : Action → Prop
  | .ioEvent fd _ _ _ => server.descriptors.callbacks.lookup fd = some .newConnection
  | .arrive | .cleanupTimeoutConnections _ _ | .closeAllConnections _ => False

instance (server : WebServer) (action : Action) : Decidable (server.Listens action) := by
  cases action <;> simp only [Listens] <;> infer_instance

theorem Consistent.closeClient_waiting (consistent : server.Consistent) (id : Nat) :
    (server.closeClient id).waiting = server.waiting := by
  rcases consistent.closeClient_cases id with ⟨conn, interest, -, -, closed⟩ | ⟨-, closed⟩
  · rw [closed]
    rfl
  · rw [closed]

theorem Consistent.sweepEntry_waiting (consistent : server.Consistent) (config : Config)
    (now : Nat) (entry : Σ _ : Int, Nat) :
    (WebServer.sweepEntry config now server entry).waiting = server.waiting := by
  rw [WebServer.sweepEntry]
  split
  next =>
      split
      next => exact consistent.closeClient_waiting entry.2
      next => rfl
  next => rfl

/-- Only an arrival or an event of the listening socket changes the length of the queue. -/
theorem Step.waiting {action : Action} (taken : Step config server action next)
    (consistent : server.Consistent) (notArrival : action ≠ .arrive)
    (notListening : ¬server.Listens action) : next.waiting = server.waiting := by
  cases taken with
  | arrive => exact absurd rfl notArrival
  | dropped | stays | closes => rfl
  | newConnection callback => exact absurd callback notListening
  | @cleanup now order _ =>
      have swept := order.foldlRecOn
        (motive := fun middle => middle.Consistent ∧ middle.waiting = server.waiting)
        (sweepEntry config now) ⟨consistent.locked true, rfl⟩ fun middle known entry _ =>
          ⟨known.1.sweepEntry config now entry,
            (known.1.sweepEntry_waiting config now entry).trans known.2⟩
      exact swept.2
  | @closeAll order _ =>
      have closed := order.foldlRecOn
        (motive := fun middle : WebServer =>
          middle.Consistent ∧ middle.waiting = server.waiting)
        (fun (server : WebServer) entry => server.closeClient entry.2) ⟨consistent.locked true, rfl⟩
        fun middle known entry _ => ⟨known.1.closeClient entry.2,
          (known.1.closeClient_waiting entry.2).trans known.2⟩
      exact closed.2

/-- The server with what epoll still has to report of the listening socket. -/
structure Polled where
  server : WebServer
  pending : Bool

namespace Polled

/-- What epoll has to report after the step.  A report of a socket that is watched for edges is
the only one, and otherwise there is another if somebody is left in the queue. -/
def pendingAfter (polled : Polled) (next : WebServer) : Action → Bool
  | .arrive => true
  | .ioEvent fd events arrival calls =>
      if polled.server.Listens (.ioEvent fd events arrival calls) then
        (polled.server.descriptors.interest.lookup fd).any fun mask =>
          ¬Any mask epollEt ∧ 0 < next.waiting
      else polled.pending
  | .cleanupTimeoutConnections _ _ | .closeAllConnections _ => polled.pending

/-- A step in which an event of the listening socket is one that epoll has to report. -/
def step (config : Config) (polled : Polled) (action : Action) : Option Polled :=
  if polled.server.Listens action → polled.pending = true then
    (WebServer.step config polled.server action).map fun next =>
      ⟨next, polled.pendingAfter next action⟩
  else none

/-- What holds between steps. -/
structure Invariant (polled : Polled) : Prop where
  invariant : polled.server.Invariant
  edges : polled.server.EdgeTriggered

theorem keeps_invariant (config : Config) :
    Transition.Keeps (step config) (fun _ => True) Invariant := by
  intro polled action next _ taken known
  rcases Option.ite_none_right_eq_some.mp taken with ⟨-, mapped⟩
  rcases Option.map_eq_some_iff.mp mapped with ⟨server, stepped, rfl⟩
  exact ⟨WebServer.keeps_invariant config _ action server trivial stepped known.invariant,
    keeps_edgeTriggered config _ action server trivial stepped known.edges⟩

/-- `AddFd` has asked for edges, so a report of the listening socket is the only one. -/
theorem Invariant.not_pendingAfter {polled : Polled} (invariant : polled.Invariant)
    {action : Action} (listens : polled.server.Listens action) (next : WebServer) :
    polled.pendingAfter next action = false := by
  cases action with
  | arrive | cleanupTimeoutConnections | closeAllConnections => exact listens.elim
  | ioEvent fd events arrival calls =>
      rw [pendingAfter, if_pos listens]
      cases found : polled.server.descriptors.interest.lookup fd with
      | none => rfl
      | some mask => simp [invariant.edges fd mask found]

/-- Once epoll has nothing to report of the listening socket, no step takes anybody off the queue
before the next client arrives. -/
theorem waiting_of_not_pending {polled last : Polled} {actions : List Action}
    (invariant : polled.Invariant) (reported : polled.pending = false)
    (ran : Transition.run (step config) polled actions = some last)
    (noArrival : ∀ action ∈ actions, action ≠ .arrive) :
    last.server.waiting = polled.server.waiting := by
  have keeps : Transition.Keeps (step config) (· ≠ .arrive) fun middle =>
      middle.Invariant ∧ middle.pending = false ∧
        middle.server.waiting = polled.server.waiting := by
    intro middle action next notArrival taken known
    have invariantNext := keeps_invariant config middle action next trivial taken known.1
    rcases Option.ite_none_right_eq_some.mp taken with ⟨mayReport, mapped⟩
    rcases Option.map_eq_some_iff.mp mapped with ⟨server, stepped, rfl⟩
    have notListening : ¬middle.server.Listens action := by
      intro listens
      have pending := mayReport listens
      rw [known.2.1] at pending
      cases pending
    have isStep := step_cases known.1.invariant.consistent known.1.invariant.free stepped
    refine ⟨invariantNext, ?_, ?_⟩
    · cases action with
      | arrive => exact absurd rfl notArrival
      | ioEvent fd events arrival calls => exact (if_neg notListening).trans known.2.1
      | cleanupTimeoutConnections | closeAllConnections => exact known.2.1
    · exact (isStep.waiting known.1.invariant.consistent notArrival notListening).trans known.2.2
  exact (keeps.run ran noArrival ⟨invariant, reported, rfl⟩).2.2

theorem invariant_started (listenFd : Int) : (Polled.mk (started listenFd) false).Invariant where
  invariant := WebServer.invariant_started listenFd
  edges := edgeTriggered_insert fun _ mask found => absurd found (Option.some_ne_none mask).symm

/-- **Who is left in the queue stays there.**  After an event of the listening socket nobody leaves
the queue until the next client arrives. -/
theorem waiting_of_listens {listenFd : Int} {before actions : List Action} {action : Action}
    {polled next last : Polled}
    (reached : Transition.run (step config) ⟨started listenFd, false⟩ before = some polled)
    (listens : polled.server.Listens action) (taken : step config polled action = some next)
    (ran : Transition.run (step config) next actions = some last)
    (noArrival : ∀ action ∈ actions, action ≠ .arrive) :
    last.server.waiting = next.server.waiting := by
  have known : polled.Invariant :=
    (keeps_invariant config).run reached (fun _ _ => trivial) (invariant_started listenFd)
  have knownNext := keeps_invariant config polled action next trivial taken known
  have reported : next.pending = false := by
    rcases Option.ite_none_right_eq_some.mp taken with ⟨-, mapped⟩
    rcases Option.map_eq_some_iff.mp mapped with ⟨server, -, rfl⟩
    exact known.not_pendingAfter listens server
  exact waiting_of_not_pending knownNext reported ran noArrival

end Polled

end WebServer

end PPServer.Server
