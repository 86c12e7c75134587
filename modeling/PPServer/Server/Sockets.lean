import PPServer.Library.Simulation
import PPServer.Server.Starting

/-!
# Who has the sockets

A socket is opened by `Start` or by `accept4`.  From then on it belongs to the server, for as long
as that listens on it, or to the connection that was made for it, for as long as that is open.  A
socket belongs to nobody any more if the constructor of its connection throws, or if `AddFd` does
in `Start`: these are never closed.
-/

namespace PPServer.Server

open Locking Net EventLoop

namespace WebServer

variable {config : Config} {server next : WebServer} {id : Nat} {fd : Int}
variable {others more : Int → Prop}

/-- The descriptor that `HandleNewConnection` loses in the step. -/
def lost (server : WebServer) : Action → List Int
  | .ioEvent fd _ arrival _ =>
      match server.descriptors.callbacks.lookup fd, arrival.accept, arrival.setupFailure with
      | some .newConnection, .accepted clientFd, some _ => [clientFd]
      | _, _, _ => []
  | .arrive | .cleanupTimeoutConnections _ _ | .closeAllConnections _ => []

/-- The open sockets are those of `others` and, apart from them, those with the callback of a
client. -/
structure Accounts (others : Int → Prop) (server : WebServer) : Prop where
  isOpen : ∀ fd, fd ∈ server.openFds ↔
    others fd ∨ ∃ id, server.descriptors.callbacks.lookup fd = some (.client id)
  apart : ∀ fd id, others fd → server.descriptors.callbacks.lookup fd ≠ some (.client id)

namespace Accounts

theorem congr (accounts : server.Accounts others) (same : ∀ fd, more fd ↔ others fd) :
    server.Accounts more where
  isOpen fd := by rw [accounts.isOpen, same]
  apart fd id inMore := accounts.apart fd id ((same fd).mp inMore)

/-! ## One socket -/

/-- A new socket that gets no callback of a client. -/
theorem opens (accounts : server.Accounts others) (consistent : server.Consistent)
    (fresh : fd ∉ server.openFds) :
    Accounts (fun other => other = fd ∨ others other)
      { server with openFds := insert fd server.openFds } where
  isOpen other := by
    change other ∈ insert fd server.openFds ↔ _
    rw [Finset.mem_insert, accounts.isOpen, or_assoc]
  apart other id either callback := by
    rcases either with rfl | inOthers
    · cases (consistent.lookup_of_fresh fresh).symm.trans callback
    · exact accounts.apart other id inOthers callback

/-- A new socket with a connection. -/
theorem registers (accounts : server.Accounts others) (fresh : fd ∉ server.openFds) (now : Nat) :
    (server.registered fd now).Accounts others where
  isOpen other := by
    change other ∈ insert fd server.openFds ↔ _
    simp only [Finset.mem_insert, accounts.isOpen, lookup_registered]
    by_cases same : other = fd
    · simp [same]
    · simp [same]
  apart other id inOthers callback := by
    rcases (lookup_registered now).mp callback with ⟨rfl, -⟩ | ⟨-, callback⟩
    · exact fresh ((accounts.isOpen other).mpr (.inl inOthers))
    · exact accounts.apart other id inOthers callback

/-- The socket of a connection is given back. -/
theorem release (accounts : server.Accounts others)
    (own : server.descriptors.callbacks.lookup fd = some (.client id)) :
    (server.release fd).Accounts others where
  isOpen other := by
    change other ∈ server.openFds.erase fd ↔ others other ∨ ∃ id,
      (server.descriptors.callbacks.erase fd).lookup other = some (.client id)
    simp only [Finset.mem_erase, accounts.isOpen, FiniteMap.lookup_erase_eq_some_iff,
      exists_and_left]
    by_cases same : other = fd
    · subst same
      simpa using fun inOthers => accounts.apart other id inOthers own
    · simp [same]
  apart other id inOthers callback :=
    accounts.apart other id inOthers (FiniteMap.lookup_erase_eq_some_iff.mp callback).2

/-- A socket that never gets a callback is given back at once. -/
theorem unwatched (accounts : server.Accounts others) (consistent : server.Consistent)
    (fresh : fd ∉ server.openFds) (now : Nat) (interest : Finmap fun _ : Int => UInt32) :
    ((((server.took fd).made (lostClient fd now)).release fd).watching interest).Accounts
      others where
  isOpen other := by
    change other ∈ (insert fd server.openFds).erase fd ↔ others other ∨ ∃ id,
      (server.descriptors.callbacks.erase fd).lookup other = some (.client id)
    rw [Finset.erase_insert fresh,
      FiniteMap.erase_of_notMem (Finmap.lookup_eq_none.mp (consistent.lookup_of_fresh fresh)),
      accounts.isOpen]
  apart other id inOthers callback :=
    accounts.apart other id inOthers (FiniteMap.lookup_erase_eq_some_iff.mp callback).2

/-- The listening socket is given back. -/
theorem unlistening {process : Process} (accounts : process.server.Accounts others) :
    (Lifecycle.unlistening process).Accounts fun fd => fd ≠ process.listenFd ∧ others fd where
  isOpen fd := by
    change fd ∈ process.server.openFds.erase process.listenFd ↔
      (fd ≠ process.listenFd ∧ others fd) ∨ ∃ id,
        (process.server.descriptors.callbacks.erase process.listenFd).lookup fd = some (.client id)
    simp only [Finset.mem_erase, accounts.isOpen, FiniteMap.lookup_erase_eq_some_iff,
      exists_and_left, and_or_left]
  apart fd id inOthers callback :=
    accounts.apart fd id inOthers.2 (FiniteMap.lookup_erase_eq_some_iff.mp callback).2

/-- A callback for new connections makes no difference. -/
theorem listens (accounts : server.Accounts others)
    (unused : server.descriptors.callbacks.lookup fd = none) (events : UInt32) :
    Accounts others { server with
      descriptors := server.descriptors.addFd fd events .newConnection } := by
  have lookup (other : Int) (id : Nat) :
      (server.descriptors.addFd fd events .newConnection).callbacks.lookup other =
        some (.client id) ↔ server.descriptors.callbacks.lookup other = some (.client id) := by
    rw [Descriptors.addFd_callbacks]
    by_cases same : other = fd
    · rw [same, Finmap.lookup_insert, unused]
      simp
    · rw [Finmap.lookup_insert_of_ne _ same]
  constructor
  · intro other
    exact (accounts.isOpen other).trans
      (or_congr_right (exists_congr fun id => (lookup other id).symm))
  · intro other id inOthers callback
    exact accounts.apart other id inOthers ((lookup other id).mp callback)

/-! ## Steps -/

theorem closeClient (accounts : server.Accounts others) (consistent : server.Consistent)
    (id : Nat) : (server.closeClient id).Accounts others := by
  rcases consistent.closeClient_cases id with ⟨conn, interest, client, opened, closed⟩ | ⟨-, closed⟩
  · have own := (consistent.opened id conn client opened).2
    have released := accounts.release own
    rw [closed]
    exact ⟨released.isOpen, released.apart⟩
  · rwa [closed]

theorem sweepEntry (accounts : server.Accounts others) (consistent : server.Consistent)
    (config : Config) (now : Nat) (entry : Σ _ : Int, Nat) :
    (WebServer.sweepEntry config now server entry).Accounts others := by
  rw [WebServer.sweepEntry]
  split
  next =>
      split
      next =>
          have closed := accounts.closeClient consistent entry.2
          exact ⟨closed.isOpen, closed.apart⟩
      next => exact accounts
  next => exact accounts

theorem newConnection {fd : Int} {events : UInt32} {arrival : Arrival}
    {calls : Connection.SystemCalls} {outcome : Outcome Exception WebServer PUnit}
    (accounts : server.Accounts others) (consistent : server.Consistent)
    (callback : server.descriptors.callbacks.lookup fd = some .newConnection)
    (possible : server.Possible arrival.accept)
    (ends : ArrivalOutcome config server arrival outcome) (final : outcome.Final next) :
    next.Accounts fun other =>
      others other ∨ other ∈ server.lost (.ioEvent fd events arrival calls) := by
  cases ends with
  | @nothing accept _ _ _ notAccepted =>
      cases final
      cases accept with
      | accepted clientFd => exact absurd rfl (notAccepted clientFd)
      | aborted | interrupted | wouldBlock | failed =>
          exact congr ⟨accounts.isOpen, accounts.apart⟩ (by simp [lost, callback])
  | unmade =>
      cases final
      have opens := accounts.opens consistent possible.2.2
      exact congr ⟨opens.isOpen, opens.apart⟩ (by simp [lost, callback, or_comm])
  | unwatched =>
      cases final
      exact (accounts.unwatched consistent possible.2.2 _ _).congr (by simp [lost, callback])
  | untabled =>
      cases final
      exact (accounts.registers possible.2.2 _).congr (by simp [lost, callback])
  | @added _ now _ =>
      cases final
      have registers := accounts.registers possible.2.2 now
      exact congr ⟨registers.isOpen, registers.apart⟩ (by simp [lost, callback])

theorem step {action : Action} (accounts : server.Accounts others) (consistent : server.Consistent)
    (taken : Step config server action next) :
    next.Accounts fun other => others other ∨ other ∈ server.lost action := by
  cases taken with
  | arrive => exact congr ⟨accounts.isOpen, accounts.apart⟩ (by simp [lost])
  | dropped callback => exact accounts.congr (by simp [lost, callback])
  | newConnection callback possible ends final =>
      exact accounts.newConnection consistent callback possible ends final
  | stays callback =>
      exact congr ⟨accounts.isOpen, accounts.apart⟩ (by simp [lost, callback])
  | closes callback client _ closes =>
      have released := accounts.release
        (consistent.opened _ _ client closes.isOpen).2
      exact congr ⟨released.isOpen, released.apart⟩ (by simp [lost, callback])
  | @cleanup now order _ =>
      have swept := order.foldlRecOn
        (motive := fun middle => middle.Consistent ∧ middle.Accounts others)
        (WebServer.sweepEntry config now)
        ⟨consistent.locked true, ⟨accounts.isOpen, accounts.apart⟩⟩ fun middle known entry _ =>
          ⟨known.1.sweepEntry config now entry, known.2.sweepEntry known.1 config now entry⟩
      exact congr ⟨swept.2.isOpen, swept.2.apart⟩ (by simp [lost])
  | @closeAll order _ =>
      have closed := order.foldlRecOn
        (motive := fun middle : WebServer => middle.Consistent ∧ middle.Accounts others)
        (fun (server : WebServer) entry => server.closeClient entry.2)
        ⟨consistent.locked true, ⟨accounts.isOpen, accounts.apart⟩⟩ fun middle known entry _ =>
          ⟨known.1.closeClient entry.2, known.2.closeClient known.1 entry.2⟩
      exact congr ⟨closed.2.isOpen, closed.2.apart⟩ (by simp [lost])

end Accounts

end WebServer

namespace Lifecycle

variable {config : Config} {state next : Lifecycle} {sofar : List Int}

/-- The descriptor that is lost in the step, by `HandleNewConnection` or by `Start`. -/
def lost (state : Lifecycle) : Action → List Int
  | .start calls =>
      match state.process.running, calls.socket, calls.epollAdd with
      | false, some fd, .failed _ =>
          if calls.inetPton = true ∧ calls.bind = true ∧ calls.listen = true then [fd] else []
      | _, _, _ => []
  | .stop _ => []
  | .work action => state.process.server.lost action

/-- Whom a socket belongs to. -/
inductive Owner where
  | server
  | client (id : Nat)
  | nobody
  deriving DecidableEq

def Owns (state : Lifecycle) (lost : List Int) (fd : Int) : Owner → Prop
  | .server => state.process.running = true ∧ fd = state.process.listenFd
  | .client id => ∃ conn, state.process.server.clients[id]? = some conn ∧ conn.IsOpen ∧
      conn.socketFd = fd
  | .nobody => fd ∈ lost

/-! ## What every step keeps -/

/-- The sockets that no connection has. -/
def Others (state : Lifecycle) (sofar : List Int) (fd : Int) : Prop :=
  state.process.running = true ∧ fd = state.process.listenFd ∨ fd ∈ sofar

structure Settled (sofar : List Int) (state : Lifecycle) : Prop where
  server : state.process.server.Invariant
  accounts : state.process.server.Accounts (state.Others sofar)
  serves : state.process.running = true → 0 ≤ state.process.listenFd ∧
    state.process.server.descriptors.callbacks.lookup state.process.listenFd = some .newConnection
  apart : state.process.running = true → state.process.listenFd ∉ sofar

theorem settled_constructed (loopRunning : Bool) (eventFd : Nat) :
    Settled [] (constructed loopRunning eventFd) where
  server := (sound_constructed loopRunning eventFd).server
  accounts :=
    { isOpen := by
        intro fd
        simp [constructed, Others]
      apart := by
        intro fd id _ callback
        cases callback }
  serves running := by cases running
  apart running := by cases running

/-! ## Steps -/

/-- A descriptor that is lost was not in use before. -/
theorem notMem_openFds_of_lost {server after : WebServer} {action : WebServer.Action} {fd : Int}
    (isLost : fd ∈ server.lost action)
    (taken : WebServer.step config server action = some after) : fd ∉ server.openFds := by
  cases action with
  | arrive | cleanupTimeoutConnections | closeAllConnections => cases isLost
  | ioEvent watched events arrival calls =>
      rcases Option.ite_none_right_eq_some.mp taken with ⟨possible, -⟩
      simp only [WebServer.lost] at isLost
      split at isLost
      next accepted _ =>
          rw [accepted] at possible
          rw [List.mem_singleton.mp isLost]
          exact possible.2.2
      next => cases isLost

theorem Settled.work (settled : state.Settled sofar) {action : WebServer.Action}
    {server : WebServer}
    (worked : WebServer.step config state.process.server action = some server) :
    (state.goesOn { state.process with server }).Settled
      (sofar ++ state.process.server.lost action) := by
  have invariant := settled.server
  have taken := WebServer.step_cases invariant.consistent invariant.free worked
  have spares := invariant.spares worked
  constructor
  case server => exact WebServer.keeps_invariant config _ action server trivial worked invariant
  case accounts =>
    refine (settled.accounts.step invariant.consistent taken).congr fun fd => ?_
    rw [Others, Others, List.mem_append, or_assoc]
    rfl
  case serves =>
    intro running
    exact ⟨(settled.serves running).1, (spares.callbacks _).mpr (settled.serves running).2⟩
  case apart =>
    intro running member
    rcases List.mem_append.mp member with before | isLost
    · exact settled.apart running before
    · have isOpen := invariant.consistent.listening _ (settled.serves running).2
      exact notMem_openFds_of_lost isLost worked isOpen

theorem Settled.start (settled : state.Settled sofar) {calls : StartCalls}
    (possible : state.Possible calls)
    (ends : (Lifecycle.start calls state).ending = some next) :
    next.Settled (sofar ++ state.lost (.start calls)) := by
  cases running : state.process.running with
  | true =>
      rw [start_of_running running] at ends
      cases ends
      simpa [lost, running] using settled
  | false =>
      have accounts : state.process.server.Accounts (· ∈ sofar) :=
        settled.accounts.congr fun fd => by simp [Others, running]
      have idle {stopped : Lifecycle} (same : stopped.process.running = false) {property : Prop}
          (runs : stopped.process.running = true) : property := by
        rw [same] at runs
        cases runs
      cases opened : calls.socket with
      | none =>
          rw [start_of_no_socket running opened] at ends
          cases ends
          simp only [lost, running, opened, List.append_nil]
          exact ⟨settled.server, accounts.congr fun fd => by simp [Others], idle rfl, idle rfl⟩
      | some fd =>
          rcases possible fd opened with ⟨valid, fresh⟩
          have consistent := settled.server.consistent
          have unused := consistent.lookup_of_fresh fresh
          have opens := accounts.opens consistent fresh
          have took := consistent.took fd
          rw [start_of_socket running opened valid] at ends
          split at ends
          next succeeded =>
              cases added : calls.epollAdd with
              | done =>
                  rw [added] at ends
                  cases ends
                  simp only [lost, running, opened, added, List.append_nil]
                  have notLost : fd ∉ sofar :=
                    fun member => fresh ((accounts.isOpen fd).mpr (.inl member))
                  refine ⟨⟨consistent_watches consistent fresh, settled.server.free⟩, ?_,
                    fun _ => ⟨valid, Finmap.lookup_insert _⟩, fun _ => notLost⟩
                  have listens := opens.listens unused epollRead
                  refine WebServer.Accounts.congr ⟨listens.isOpen, listens.apart⟩ fun other => ?_
                  exact or_congr_left (and_iff_right rfl)
              | failed text =>
                  rw [added] at ends
                  cases ends
                  simp only [lost, running, opened, added, if_pos succeeded]
                  refine ⟨⟨⟨took.ready, took.opened, took.registered, took.listening⟩,
                    settled.server.free⟩, ?_, idle running, idle running⟩
                  refine opens.congr fun other => ?_
                  rw [Others, show (state.listens fd).process.running = false from running]
                  simp [or_comm]
          next refused =>
              cases ends
              have nothing : state.lost (.start calls) = [] := by
                simp only [lost, running, opened]
                cases calls.epollAdd <;> simp [refused]
              rw [nothing, List.append_nil]
              have same : (state.refused fd).process.server.openFds =
                  state.process.server.openFds := Finset.erase_insert fresh
              constructor
              case server =>
                refine ⟨⟨consistent.ready, ?_, consistent.registered, ?_⟩, settled.server.free⟩
                · rw [same]
                  exact consistent.opened
                · rw [same]
                  exact consistent.listening
              case accounts =>
                have kept : (state.refused fd).process.server.Accounts (· ∈ sofar) :=
                  ⟨by rw [same]; exact accounts.isOpen, accounts.apart⟩
                refine kept.congr fun other => ?_
                rw [Others, show (state.refused fd).process.running = false from running]
                simp
              case serves => exact idle running
              case apart => exact idle running

theorem Settled.stop (settled : state.Settled sofar) {order : List (Σ _ : Int, Nat)}
    (isOrder : FiniteMap.IsOrder state.process.server.connections order)
    (ends : (Lifecycle.stop order state).ending = some next) : next.Settled sofar := by
  rw [Outcome.ending_eq_some_iff, Lifecycle.stop, final_mapState_iff] at ends
  rcases ends with ⟨process, final, rfl⟩
  cases running : state.process.running with
  | false =>
      have nothing : Process.stop order state.process = .returned ⟨⟩ state.process := by
        simp [Process.stop, running]
      rw [nothing] at final
      cases final
      exact ⟨settled.server, settled.accounts, settled.serves, settled.apart⟩
  | true =>
      rcases settled.serves running with ⟨valid, callback⟩
      rcases final_stop running valid final with ⟨closes, stopped, -⟩
      have invariant : (unlistening state.process).Invariant :=
        ⟨consistent_unlistening settled.server.consistent callback, settled.server.free⟩
      have worked : WebServer.step {} (unlistening state.process) (.closeAllConnections order) =
          some process.server :=
        Option.ite_none_right_eq_some.mpr ⟨isOrder, Outcome.ending_eq_some_iff.mpr closes⟩
      have taken := WebServer.step_cases invariant.consistent invariant.free worked
      have idle : process.running ≠ true := by simp [stopped]
      constructor
      case server => exact WebServer.keeps_invariant {} _ _ _ trivial worked invariant
      case accounts =>
        have others := settled.accounts.unlistening.step invariant.consistent taken
        refine others.congr fun fd => ?_
        have apart := settled.apart running
        simp only [Others, goesOn, stopped, running, WebServer.lost, List.not_mem_nil, or_false,
          Bool.false_eq_true, false_and, false_or, true_and]
        constructor
        · exact fun before => ⟨fun same => apart (same ▸ before), .inr before⟩
        · exact fun either => either.2.resolve_left either.1
      case serves => exact fun running => absurd running idle
      case apart => exact fun running => absurd running idle

theorem Settled.step (settled : state.Settled sofar) {action : Action}
    (taken : step config state action = some next) :
    next.Settled (sofar ++ state.lost action) := by
  cases action with
  | start calls =>
      rcases Option.ite_none_right_eq_some.mp taken with ⟨possible, ends⟩
      exact settled.start possible ends
  | stop order =>
      rcases Option.ite_none_right_eq_some.mp taken with ⟨isOrder, ends⟩
      rw [lost, List.append_nil]
      exact settled.stop isOrder ends
  | work action =>
      rcases Option.map_eq_some_iff.mp taken with ⟨server, worked, rfl⟩
      exact settled.work worked

/-! ## Runs -/

/-- The descriptors that are lost in a run of the process. -/
def lostAlong (config : Config) (loopRunning : Bool) (eventFd : Nat) (actions : List Action) :
    List Int :=
  Transition.seenAlong (step config) lost (constructed loopRunning eventFd) actions

variable {loopRunning : Bool} {eventFd : Nat} {actions : List Action}

theorem settled_of_run
    (ran : Transition.run (step config) (constructed loopRunning eventFd) actions = some state) :
    state.Settled (lostAlong config loopRunning eventFd actions) := by
  have grows (sofar : List Int) (state : Lifecycle) (action : Action) (next : Lifecycle)
      (settled : Settled sofar state) (taken : step config state action = some next) :
      Settled (sofar ++ state.lost action) next := settled.step taken
  have whole := Transition.seenAlong_run grows (settled_constructed loopRunning eventFd) ran
  rwa [List.nil_append] at whole

/-- An open connection is found by its callback, and the other way round. -/
theorem Settled.owns_client_iff (settled : state.Settled sofar) {lost : List Int} {fd : Int}
    {id : Nat} : state.Owns lost fd (.client id) ↔
      state.process.server.descriptors.callbacks.lookup fd = some (.client id) := by
  constructor
  · intro owns
    rcases owns with ⟨conn, client, opened, rfl⟩
    exact (settled.server.consistent.opened id conn client opened).2
  · exact settled.server.consistent.registered fd id

theorem Settled.owner_unique (settled : state.Settled sofar) {fd : Int} {owner other : Owner}
    (owns : state.Owns sofar fd owner) (owns' : state.Owns sofar fd other) : owner = other := by
  have apart (others : state.Others sofar fd) (id : Nat) : ¬state.Owns sofar fd (.client id) :=
    fun owns => settled.accounts.apart fd id others (settled.owns_client_iff.mp owns)
  cases owner with
  | server =>
      cases other with
      | server => rfl
      | client id => exact absurd owns' (apart (.inl owns) id)
      | nobody => exact absurd (owns.2 ▸ owns') (settled.apart owns.1)
  | client id =>
      cases other with
      | server => exact absurd owns (apart (.inl owns') id)
      | client id' =>
          have same := (settled.owns_client_iff.mp owns).symm.trans
            (settled.owns_client_iff.mp owns')
          cases same
          rfl
      | nobody => exact absurd owns (apart (.inr owns') id)
  | nobody =>
      cases other with
      | server => exact absurd (owns'.2 ▸ owns) (settled.apart owns'.1)
      | client id => exact absurd owns' (apart (.inr owns) id)
      | nobody => rfl

/-- **Every open socket belongs to one owner.**  In every run of `Start`, `Stop` and the server
between them, whatever fails there, a socket is open exactly if it is the listening socket of a
running server, that of an open connection, or one that has been lost, and it is only one of
these. -/
theorem owner_of_run
    (ran : Transition.run (step config) (constructed loopRunning eventFd) actions = some state)
    (fd : Int) :
    (fd ∈ state.process.server.openFds ↔
      ∃ owner, state.Owns (lostAlong config loopRunning eventFd actions) fd owner) ∧
    ∀ owner other, state.Owns (lostAlong config loopRunning eventFd actions) fd owner →
      state.Owns (lostAlong config loopRunning eventFd actions) fd other → owner = other := by
  have settled := settled_of_run ran
  refine ⟨?_, fun owner other => settled.owner_unique⟩
  rw [settled.accounts.isOpen]
  constructor
  · intro either
    rcases either with (serves | isLost) | ⟨id, callback⟩
    · exact ⟨.server, serves⟩
    · exact ⟨.nobody, isLost⟩
    · exact ⟨.client id, settled.owns_client_iff.mpr callback⟩
  · intro owned
    rcases owned with ⟨owner, owns⟩
    cases owner with
    | server => exact .inl (.inl owns)
    | client id => exact .inr ⟨id, settled.owns_client_iff.mp owns⟩
    | nobody => exact .inl (.inr owns)

/-- `Start` fails once and then succeeds, and of two clients one cannot be set up. -/
def losesTwo : List Action :=
  [.start ⟨some 3, true, true, true, .failed []⟩, .start ⟨some 4, true, true, true, .done⟩,
    .work .arrive, .work .arrive,
    .work (.ioEvent 4 epollRead ⟨.accepted 5, none, .done, 1⟩ WebServer.noCalls),
    .work (.ioEvent 4 epollRead ⟨.accepted 6, some (.setNoDelay, []), .done, 1⟩
      WebServer.noCalls)]

theorem owner_of_run_losesTwo :
    ∃ state, Transition.run (step {}) (constructed true 0) losesTwo = some state ∧
      lostAlong {} true 0 losesTwo = [3, 6] ∧
      (5 ∈ state.process.server.openFds ↔
        ∃ owner, state.Owns (lostAlong {} true 0 losesTwo) 5 owner) ∧
      ∀ owner other, state.Owns (lostAlong {} true 0 losesTwo) 5 owner →
        state.Owns (lostAlong {} true 0 losesTwo) 5 other → owner = other := by
  refine ⟨_, rfl, by decide, ?_⟩
  exact owner_of_run rfl 5

/-! ## What `Stop` leaves open -/

theorem lookup_closeClients_iff {server : WebServer} {order : List (Σ _ : Int, Nat)} {fd : Int}
    {id : Nat} (consistent : server.Consistent) :
    (order.foldl (fun server entry => server.closeClient entry.2)
        server).descriptors.callbacks.lookup fd = some (.client id) ↔
      server.descriptors.callbacks.lookup fd = some (.client id) ∧
        ∀ entry ∈ order, entry.2 ≠ id := by
  induction order generalizing server with
  | nil => simp
  | cons entry order ih =>
      rw [List.foldl_cons, ih (consistent.closeClient entry.2), consistent.lookup_closeClient,
        List.forall_mem_cons, ne_comm]
      exact ⟨fun kept => ⟨kept.1.2, kept.1.1, kept.2⟩, fun kept => ⟨⟨kept.2.1, kept.1⟩, kept.2.2⟩⟩

/-- The clients that have a callback once the table has been emptied are those it did not have. -/
theorem lookup_stop {order : List (Σ _ : Int, Nat)} {process after : Process} {fd : Int} {id : Nat}
    (invariant : process.server.Invariant) (running : process.running = true)
    (valid : 0 ≤ process.listenFd)
    (callback : process.server.descriptors.callbacks.lookup process.listenFd =
      some .newConnection)
    (isOrder : FiniteMap.IsOrder process.server.connections order)
    (final : (Process.stop order process).Final after) :
    after.server.descriptors.callbacks.lookup fd = some (.client id) ↔
      process.server.descriptors.callbacks.lookup fd = some (.client id) ∧
        ∀ key, process.server.connections.lookup key ≠ some id := by
  have consistent := consistent_unlistening invariant.consistent callback
  have worked : WebServer.step {} (unlistening process) (.closeAllConnections order) =
      some after.server :=
    Option.ite_none_right_eq_some.mpr
      ⟨isOrder, Outcome.ending_eq_some_iff.mpr (final_stop running valid final).1⟩
  have remains : (unlistening process).descriptors.callbacks.lookup fd = some (.client id) ↔
      process.server.descriptors.callbacks.lookup fd = some (.client id) := by
    refine FiniteMap.lookup_erase_eq_some_iff.trans (and_iff_right_of_imp fun client => ?_)
    rintro rfl
    cases callback.symm.trans client
  have tabled : (∀ entry ∈ order, entry.2 ≠ id) ↔
      ∀ key, process.server.connections.lookup key ≠ some id := by
    constructor
    · intro differ key found
      exact differ ⟨key, id⟩ ((isOrder.mem_iff ⟨key, id⟩).mpr found) rfl
    · intro absent entry member same
      exact absent entry.1 (same ▸ (isOrder.mem_iff entry).mp member)
  have taken := WebServer.step_cases consistent invariant.free worked
  generalize after.server = last at taken
  cases taken with
  | closeAll =>
      exact (lookup_closeClients_iff (consistent.locked true)).trans (and_congr remains tabled)

/-- **What `Stop` leaves open.**  When a running server has been stopped, the sockets that are
still open are those that have been lost and those of the open connections that the connection
manager had no room for. -/
theorem openFds_stop {order : List (Σ _ : Int, Nat)}
    (ran : Transition.run (step config) (constructed loopRunning eventFd) actions = some state)
    (running : state.process.running = true)
    (stopped : step config state (.stop order) = some next) (fd : Int) :
    fd ∈ next.process.server.openFds ↔
      fd ∈ lostAlong config loopRunning eventFd actions ∨
        ∃ id conn, state.process.server.clients[id]? = some conn ∧ conn.IsOpen ∧
          conn.socketFd = fd ∧ ∀ key, state.process.server.connections.lookup key ≠ some id := by
  have settled := settled_of_run ran
  generalize lostAlong config loopRunning eventFd actions = lost at settled
  rcases Option.ite_none_right_eq_some.mp stopped with ⟨isOrder, ends⟩
  have settledNext := settled.stop isOrder ends
  rw [Outcome.ending_eq_some_iff, Lifecycle.stop, final_mapState_iff] at ends
  rcases ends with ⟨process, final, rfl⟩
  rcases settled.serves running with ⟨valid, callback⟩
  have others : (state.goesOn process).Others lost fd ↔ fd ∈ lost := by
    rw [Others, show (state.goesOn process).process.running = false from
      (final_stop running valid final).2.1]
    simp
  rw [settledNext.accounts.isOpen, others]
  refine or_congr_right (exists_congr fun id => ?_)
  have owns : state.Owns lost fd (.client id) ↔ _ := settled.owns_client_iff
  rw [show (state.goesOn process).process.server = process.server from rfl,
    lookup_stop settled.server running valid callback isOrder final, ← owns]
  constructor
  · intro both
    rcases both with ⟨⟨conn, client, opened, same⟩, absent⟩
    exact ⟨conn, client, opened, same, absent⟩
  · intro left
    rcases left with ⟨conn, client, opened, same, absent⟩
    exact ⟨⟨conn, client, opened, same⟩, absent⟩

/-- A client beyond the limit of the connection manager. -/
def admitsTwo : List Action :=
  [.start ⟨some 4, true, true, true, .done⟩, .work .arrive, .work .arrive,
    .work (.ioEvent 4 epollRead ⟨.accepted 5, none, .done, 1⟩ WebServer.noCalls),
    .work (.ioEvent 4 epollRead ⟨.accepted 6, none, .done, 1⟩ WebServer.noCalls)]

theorem openFds_stop_admitsTwo :
    ∃ state next, Transition.run (step ⟨1, 30⟩) (constructed true 0) admitsTwo = some state ∧
      step ⟨1, 30⟩ state (.stop [⟨5, 0⟩]) = some next ∧ next.process.server.openFds = {6} ∧
      (6 ∈ next.process.server.openFds ↔
        6 ∈ lostAlong ⟨1, 30⟩ true 0 admitsTwo ∨
          ∃ id conn, state.process.server.clients[id]? = some conn ∧ conn.IsOpen ∧
            conn.socketFd = 6 ∧
              ∀ key, state.process.server.connections.lookup key ≠ some id) := by
  have runs : (Transition.run (step ⟨1, 30⟩) (constructed true 0) admitsTwo).map
      (·.process.running) = some true := by decide
  have stops : ((Transition.run (step ⟨1, 30⟩) (constructed true 0) admitsTwo).bind
      (step ⟨1, 30⟩ · (.stop [⟨5, 0⟩]))).map (·.process.server.openFds) = some {6} := by
    decide +kernel
  rcases Option.map_eq_some_iff.mp runs with ⟨state, ran, running⟩
  rw [ran, Option.bind_some] at stops
  rcases Option.map_eq_some_iff.mp stops with ⟨next, stopped, left⟩
  exact ⟨state, next, ran, stopped, left, openFds_stop ran running stopped 6⟩

end Lifecycle

end PPServer.Server
