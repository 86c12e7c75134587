import PPServer.Server.Outcomes

/-!
# What the event loop has registered

Every callback of a client belongs to an open connection on the descriptor it is registered
under, and every open connection has its callback, whatever the table of the connection manager
says.  Each step is described once, by what it does to the connections, the callbacks and the
table.
-/

namespace PPServer.Server

open Locking Net EventLoop

namespace WebServer

variable {config : Config} {server next : WebServer} {id other : Nat}
variable {conn after found : Connection} {fd : Int} {interest : Finmap fun _ : Int => UInt32}

/-- The callbacks of clients and the open connections correspond. -/
structure Consistent (server : WebServer) : Prop where
  ready : ∀ (id : Nat) (conn : Connection), server.clients[id]? = some conn → conn.Ready
  opened : ∀ (id : Nat) (conn : Connection), server.clients[id]? = some conn → conn.IsOpen →
    conn.socketFd ∈ server.openFds ∧
      server.descriptors.callbacks.lookup conn.socketFd = some (.client id)
  registered : ∀ fd id, server.descriptors.callbacks.lookup fd = some (.client id) →
    ∃ conn, server.clients[id]? = some conn ∧ conn.IsOpen ∧ conn.socketFd = fd
  listening : ∀ fd, server.descriptors.callbacks.lookup fd = some .newConnection →
    fd ∈ server.openFds

theorem consistent_started (listenFd : Int) : (started listenFd).Consistent where
  ready id conn client := by cases client
  opened id conn client := by cases client
  registered fd id callback := by
    rcases FiniteMap.lookup_insert_eq_some_iff.mp callback with ⟨-, ⟨⟩⟩ | ⟨-, empty⟩
    cases empty
  listening fd callback := by
    rcases FiniteMap.lookup_insert_eq_some_iff.mp callback with ⟨rfl, -⟩ | ⟨-, empty⟩
    · exact Finset.mem_singleton_self fd
    · cases empty

/-- A new descriptor has no callback left over from an earlier use. -/
theorem Consistent.lookup_of_fresh (consistent : server.Consistent)
    (fresh : fd ∉ server.openFds) : server.descriptors.callbacks.lookup fd = none := by
  rw [Option.eq_none_iff_forall_not_mem]
  intro callback found
  cases callback with
  | newConnection => exact fresh (consistent.listening fd found)
  | client id =>
      rcases consistent.registered fd id found with ⟨conn, client, opened, rfl⟩
      exact fresh (consistent.opened id conn client opened).1

/-! ## One connection changes -/

theorem getElem?_replace (client : server.clients[id]? = some conn) :
    (server.replace id after).clients[other]? = some found ↔
      other = id ∧ after = found ∨ other ≠ id ∧ server.clients[other]? = some found := by
  have inside : id < server.clients.length := (List.getElem?_eq_some_iff.mp client).1
  rw [replace, List.getElem?_set]
  split
  next same => subst same; simp [inside]
  next differs => simp [Ne.symm differs]

theorem Consistent.ready_replace (consistent : server.Consistent)
    (client : server.clients[id]? = some conn) (ready : after.Ready)
    (isClient : (server.replace id after).clients[other]? = some found) : found.Ready := by
  rcases (getElem?_replace client).mp isClient with ⟨-, rfl⟩ | ⟨-, isClient⟩
  · exact ready
  · exact consistent.ready other found isClient

theorem Consistent.stays (consistent : server.Consistent)
    (client : server.clients[id]? = some conn) (stays : conn.Stays after)
    (ready : after.Ready) : ((server.replace id after).watching interest).Consistent where
  ready _ _ isClient := consistent.ready_replace client ready isClient
  opened other found isClient opened := by
    rcases (getElem?_replace client).mp isClient with ⟨rfl, rfl⟩ | ⟨-, isClient⟩
    · rw [stays.socketFd]
      exact consistent.opened other conn client (stays.isOpen_iff.mp opened)
    · exact consistent.opened other found isClient opened
  registered fd other callback := by
    rcases consistent.registered fd other callback with ⟨found, isClient, opened, socketFd⟩
    by_cases same : other = id
    · subst same
      obtain rfl : conn = found := Option.some_inj.mp (client.symm.trans isClient)
      exact ⟨after, (getElem?_replace client).mpr (.inl ⟨rfl, rfl⟩),
        stays.isOpen_iff.mpr opened, stays.socketFd.trans socketFd⟩
    · exact ⟨found, (getElem?_replace client).mpr (.inr ⟨same, isClient⟩), opened, socketFd⟩
  listening := consistent.listening

/-- The callback of a client is gone once its descriptor is released, and no other. -/
theorem Consistent.lookup_release (consistent : server.Consistent)
    (client : server.clients[id]? = some conn) (opened : conn.IsOpen) :
    (server.release conn.socketFd).descriptors.callbacks.lookup fd = some (.client other) ↔
      other ≠ id ∧ server.descriptors.callbacks.lookup fd = some (.client other) := by
  rw [release, FiniteMap.lookup_erase_eq_some_iff]
  refine and_congr_left fun callback => not_congr ⟨?_, ?_⟩
  · rintro rfl
    have own := (consistent.opened id conn client opened).2
    cases own.symm.trans callback
    rfl
  · rintro rfl
    rcases consistent.registered fd other callback with ⟨found, isClient, -, socketFd⟩
    cases client.symm.trans isClient
    exact socketFd.symm

theorem Consistent.closes (consistent : server.Consistent)
    (client : server.clients[id]? = some conn) (closes : conn.Closes after)
    (ready : after.Ready) :
    (((server.replace id after).release conn.socketFd).watching interest).Consistent where
  ready _ _ isClient := consistent.ready_replace client ready isClient
  opened other found isClient opened := by
    rcases (getElem?_replace client).mp isClient with ⟨-, rfl⟩ | ⟨differs, isClient⟩
    · exact absurd opened closes.not_isOpen
    · have known := consistent.opened other found isClient opened
      have kept := (consistent.lookup_release client closes.isOpen).mpr ⟨differs, known.2⟩
      refine ⟨Finset.mem_erase.mpr ⟨?_, known.1⟩, kept⟩
      rw [release, FiniteMap.lookup_erase_eq_some_iff] at kept
      exact kept.1
  registered fd other callback := by
    rcases (consistent.lookup_release client closes.isOpen).mp callback with ⟨differs, callback⟩
    rcases consistent.registered fd other callback with ⟨found, isClient, opened, socketFd⟩
    exact ⟨found, (getElem?_replace client).mpr (.inr ⟨differs, isClient⟩), opened, socketFd⟩
  listening fd callback := by
    rcases FiniteMap.lookup_erase_eq_some_iff.mp callback with ⟨differs, callback⟩
    exact Finset.mem_erase.mpr ⟨differs, consistent.listening fd callback⟩

/-! ## New connections -/

theorem ready_newClient {fd : Int} (valid : 0 ≤ fd) (now : Nat) : (newClient fd now).Ready where
  hasHandler := rfl
  unlocked := rfl
  started := by simp [newClient]
  socketFd_nonneg _ := valid
  nothingToWrite _ := rfl

theorem isOpen_newClient (fd : Int) (now : Nat) : (newClient fd now).IsOpen := by
  simp [newClient, Connection.IsOpen]

theorem not_isOpen_lostClient (fd : Int) (now : Nat) : ¬(lostClient fd now).IsOpen :=
  fun opened => opened.2 rfl

theorem ready_lostClient (fd : Int) (now : Nat) : (lostClient fd now).Ready where
  hasHandler := rfl
  unlocked := rfl
  started := by simp [lostClient]
  socketFd_nonneg opened := absurd opened (not_isOpen_lostClient fd now)
  nothingToWrite _ := rfl

theorem getElem?_made :
    (server.made conn).clients[id]? = some found ↔
      id = server.clients.length ∧ conn = found ∨ server.clients[id]? = some found := by
  rw [made, List.getElem?_append]
  split
  next inside => simp [Nat.ne_of_lt inside]
  next outside =>
      have beyond : server.clients[id]? = none :=
        List.getElem?_eq_none (Nat.le_of_not_lt outside)
      rw [List.getElem?_singleton, beyond]
      split
      next last =>
          have isNext : id = server.clients.length := by omega
          simp [isNext]
      next notLast =>
          have notNext : id ≠ server.clients.length := by omega
          simp [notNext]

theorem Consistent.took (consistent : server.Consistent) (fd : Int) :
    (server.took fd).Consistent where
  ready := consistent.ready
  opened id conn client opened :=
    ⟨Finset.mem_insert_of_mem (consistent.opened id conn client opened).1,
      (consistent.opened id conn client opened).2⟩
  registered := consistent.registered
  listening other callback := Finset.mem_insert_of_mem (consistent.listening other callback)

theorem Consistent.unwatched (consistent : server.Consistent) (fresh : fd ∉ server.openFds)
    (now : Nat) :
    ((((server.took fd).made (lostClient fd now)).release fd).watching interest).Consistent := by
  have unregistered := consistent.lookup_of_fresh fresh
  have lookup (other : Int) : (server.descriptors.callbacks.erase fd).lookup other =
      server.descriptors.callbacks.lookup other := by
    by_cases same : other = fd
    · rw [same, Finmap.lookup_erase, unregistered]
    · rw [Finmap.lookup_erase_ne same]
  have stillOpen {other : Int} (opened : other ∈ server.openFds) :
      other ∈ (insert fd server.openFds).erase fd := by
    rwa [Finset.erase_insert fresh]
  constructor
  case ready =>
    intro id conn client
    have made : ((server.took fd).made (lostClient fd now)).clients[id]? = some conn := client
    rcases getElem?_made.mp made with ⟨-, rfl⟩ | client
    · exact ready_lostClient fd now
    · exact consistent.ready id conn client
  case opened =>
    intro id conn client opened
    have made : ((server.took fd).made (lostClient fd now)).clients[id]? = some conn := client
    rcases getElem?_made.mp made with ⟨-, rfl⟩ | client
    · exact absurd opened (not_isOpen_lostClient fd now)
    · have known := consistent.opened id conn client opened
      exact ⟨stillOpen known.1, (lookup _).trans known.2⟩
  case registered =>
    intro other id callback
    rcases consistent.registered other id ((lookup other).symm.trans callback) with
      ⟨conn, client, opened, socketFd⟩
    exact ⟨conn, getElem?_made.mpr (.inr client), opened, socketFd⟩
  case listening =>
    intro other callback
    exact stillOpen (consistent.listening other ((lookup other).symm.trans callback))

theorem lookup_registered (now : Nat) {other : Int} {id : Nat} :
    (server.registered fd now).descriptors.callbacks.lookup other = some (.client id) ↔
      other = fd ∧ id = server.clients.length ∨
        other ≠ fd ∧ server.descriptors.callbacks.lookup other = some (.client id) := by
  rw [WebServer.registered, Descriptors.addFd_callbacks, FiniteMap.lookup_insert_eq_some_iff]
  simp [eq_comm]

theorem Consistent.registers (consistent : server.Consistent) (fresh : fd ∉ server.openFds)
    (valid : 0 ≤ fd) (now : Nat) : (server.registered fd now).Consistent := by
  constructor
  case ready =>
    intro id conn client
    have made : ((server.took fd).made (newClient fd now)).clients[id]? = some conn := client
    rcases getElem?_made.mp made with ⟨-, rfl⟩ | client
    · exact ready_newClient valid now
    · exact consistent.ready id conn client
  case opened =>
    intro id conn client opened
    have made : ((server.took fd).made (newClient fd now)).clients[id]? = some conn := client
    rcases getElem?_made.mp made with ⟨last, rfl⟩ | client
    · exact ⟨Finset.mem_insert_self _ _, (lookup_registered now).mpr (.inl ⟨rfl, last⟩)⟩
    · have known := consistent.opened id conn client opened
      have differs : conn.socketFd ≠ fd := fun same => fresh (same ▸ known.1)
      exact ⟨Finset.mem_insert_of_mem known.1,
        (lookup_registered now).mpr (.inr ⟨differs, known.2⟩)⟩
  case registered =>
    intro other id callback
    rcases (lookup_registered now).mp callback with ⟨rfl, rfl⟩ | ⟨-, callback⟩
    · exact ⟨newClient other now, getElem?_made.mpr (.inl ⟨rfl, rfl⟩),
        isOpen_newClient other now, rfl⟩
    · rcases consistent.registered other id callback with ⟨conn, client, opened, socketFd⟩
      exact ⟨conn, getElem?_made.mpr (.inr client), opened, socketFd⟩
  case listening =>
    intro other callback
    rcases FiniteMap.lookup_insert_eq_some_iff.mp callback with ⟨-, ⟨⟩⟩ | ⟨-, callback⟩
    exact Finset.mem_insert_of_mem (consistent.listening other callback)

/-! ## Closing clients -/

/-- What `Close` on a connection makes of the server. -/
def closeClient (server : WebServer) (id : Nat) : WebServer :=
  match server.clients[id]? with
  | some conn => if conn.IsOpen then server.settle id conn conn.closed else server
  | none => server

theorem Consistent.onClient_close (consistent : server.Consistent) (id : Nat) :
    onClient id Connection.close server = .returned ⟨⟩ (server.closeClient id) := by
  cases client : server.clients[id]? with
  | none => simp only [onClient, closeClient, client]
  | some conn =>
      have unlocked := (consistent.ready id conn client).unlocked
      simp only [closeClient, client]
      split
      next opened => exact onClient_of_returned client (Connection.close_of_open opened unlocked)
      next closed =>
          rcases List.getElem?_eq_some_iff.mp client with ⟨inside, rfl⟩
          rw [onClient_of_returned client (Connection.close_of_closed closed), settle,
            List.drop_length, List.set_getElem_self inside]
          rfl

/-- Closing releases the descriptor of an open connection, and does nothing to another. -/
theorem Consistent.closeClient_cases (consistent : server.Consistent) (id : Nat) :
    (∃ conn interest, server.clients[id]? = some conn ∧ conn.IsOpen ∧
      server.closeClient id =
        ((server.replace id conn.closed).release conn.socketFd).watching interest) ∨
      (∀ conn, server.clients[id]? = some conn → ¬conn.IsOpen) ∧
        server.closeClient id = server := by
  rw [closeClient]
  cases client : server.clients[id]? with
  | none => exact .inr ⟨by simp, rfl⟩
  | some conn =>
      by_cases opened : conn.IsOpen
      · have closes := Connection.closes_closed (consistent.ready id conn client) opened
        rcases server.settle_of_closes id closes with ⟨interest, settled⟩
        exact .inl ⟨conn, interest, rfl, opened, by simp only [if_pos opened, settled]⟩
      · exact .inr ⟨fun found same => Option.some_inj.mp same ▸ opened,
          by simp only [if_neg opened]⟩

theorem Consistent.closeClient (consistent : server.Consistent) (id : Nat) :
    (server.closeClient id).Consistent := by
  rcases consistent.closeClient_cases id with
    ⟨conn, interest, client, opened, closed⟩ | ⟨-, closed⟩
  · have ready := consistent.ready id conn client
    rw [closed]
    exact consistent.closes client (Connection.closes_closed ready opened)
      (Connection.ready_closed ready)
  · exact closed.symm ▸ consistent

/-- Closing a client takes its callback away, and no other. -/
theorem Consistent.lookup_closeClient (consistent : server.Consistent) :
    (server.closeClient id).descriptors.callbacks.lookup fd = some (.client other) ↔
      other ≠ id ∧ server.descriptors.callbacks.lookup fd = some (.client other) := by
  rcases consistent.closeClient_cases id with
    ⟨conn, interest, client, opened, closed⟩ | ⟨notOpen, closed⟩
  · rw [closed]
    exact consistent.lookup_release client opened
  · rw [closed, iff_and_self]
    rintro callback rfl
    rcases consistent.registered fd other callback with ⟨conn, client, opened, -⟩
    exact notOpen conn client opened

theorem Consistent.closeClient_connections (consistent : server.Consistent) (id : Nat) :
    (server.closeClient id).connections = server.connections := by
  rcases consistent.closeClient_cases id with ⟨conn, interest, -, -, closed⟩ | ⟨-, closed⟩
  · rw [closed]
    rfl
  · rw [closed]

/-! ## Steps -/

/-- What one pass of the loop of `CleanupTimeoutConnections` makes of the server. -/
def sweepEntry (config : Config) (now : Nat) (server : WebServer) (entry : Σ _ : Int, Nat) :
    WebServer :=
  match server.clients[entry.2]? with
  | some conn =>
      if TimedOut config now conn then
        { server.closeClient entry.2 with connections := server.connections.erase entry.1 }
      else server
  | none => server

theorem Consistent.cleanupEntry (consistent : server.Consistent) (config : Config) (now : Nat)
    (entry : Σ _ : Int, Nat) :
    cleanupEntry config now entry server =
      .returned ⟨⟩ (sweepEntry config now server entry) := by
  rw [WebServer.cleanupEntry, Call.get_bind_apply, sweepEntry]
  cases client : server.clients[entry.2]? with
  | none => rfl
  | some conn =>
      simp only
      split
      next =>
          rw [Call.bind_of_returned (consistent.onClient_close entry.2), Call.modify_apply,
            consistent.closeClient_connections]
      next => rfl

theorem Consistent.sweepEntry (consistent : server.Consistent) (config : Config) (now : Nat)
    (entry : Σ _ : Int, Nat) : (sweepEntry config now server entry).Consistent := by
  rw [WebServer.sweepEntry]
  split
  next =>
      split
      next =>
          have closed := consistent.closeClient entry.2
          exact ⟨closed.ready, closed.opened, closed.registered, closed.listening⟩
      next => exact consistent
  next => exact consistent

/-- The steps, each with the state it starts from and the one it makes. -/
inductive Step (config : Config) (server : WebServer) : Action → WebServer → Prop where
  | arrive : Step config server .arrive { server with waiting := server.waiting + 1 }
  | dropped {fd : Int} {events : UInt32} {arrival : Arrival} {calls : Connection.SystemCalls} :
      server.descriptors.callbacks.lookup fd = none →
      Step config server (.ioEvent fd events arrival calls) server
  | newConnection {fd : Int} {events : UInt32} {arrival : Arrival}
      {calls : Connection.SystemCalls} {outcome : Outcome Exception WebServer PUnit}
      {next : WebServer} :
      server.descriptors.callbacks.lookup fd = some .newConnection →
      server.Possible arrival.accept → ArrivalOutcome config server arrival outcome →
      outcome.Final next → Step config server (.ioEvent fd events arrival calls) next
  | stays {fd : Int} {events : UInt32} {arrival : Arrival} {calls : Connection.SystemCalls}
      {id : Nat} {conn after : Connection} {interest : Finmap fun _ : Int => UInt32} :
      server.descriptors.callbacks.lookup fd = some (.client id) →
      server.clients[id]? = some conn → ¬conn.ClosedBy events calls →
      conn.Stays after → after.Ready →
      Step config server (.ioEvent fd events arrival calls)
        ((server.replace id after).watching interest)
  | closes {fd : Int} {events : UInt32} {arrival : Arrival} {calls : Connection.SystemCalls}
      {id : Nat} {conn after : Connection} {interest : Finmap fun _ : Int => UInt32} :
      server.descriptors.callbacks.lookup fd = some (.client id) →
      server.clients[id]? = some conn → conn.ClosedBy events calls →
      conn.Closes after → after.Ready →
      Step config server (.ioEvent fd events arrival calls)
        (((server.replace id after).release conn.socketFd).watching interest)
  | cleanup {now : Nat} {order : List (Σ _ : Int, Nat)} :
      FiniteMap.IsOrder server.connections order →
      Step config server (.cleanupTimeoutConnections now order)
        (managerMutex.setHeld false
          (order.foldl (sweepEntry config now) (managerMutex.setHeld true server)))
  | closeAll {order : List (Σ _ : Int, Nat)} :
      FiniteMap.IsOrder server.connections order →
      Step config server (.closeAllConnections order)
        { order.foldl (fun server entry => server.closeClient entry.2)
            (managerMutex.setHeld true server) with
          connections := ∅
          managerMutexHeld := false }

theorem Consistent.locked (consistent : server.Consistent) (isHeld : Bool) :
    (managerMutex.setHeld isHeld server).Consistent :=
  ⟨consistent.ready, consistent.opened, consistent.registered, consistent.listening⟩

/-- The callback that is registered for the descriptor decides how an event ends. -/
theorem Consistent.final_handleIoEvent {events : UInt32} {arrival : Arrival}
    {calls : Connection.SystemCalls} (consistent : server.Consistent)
    (final : (handleIoEvent config fd events arrival calls server).Final next) :
    server.descriptors.callbacks.lookup fd = none ∧ next = server ∨
      server.descriptors.callbacks.lookup fd = some .newConnection ∧
        (handleNewConnection config arrival server).Final next ∨
      ∃ id conn after, server.descriptors.callbacks.lookup fd = some (.client id) ∧
        server.clients[id]? = some conn ∧ next = server.settle id conn after ∧ conn.IsOpen ∧
        (Connection.callback events calls conn).Final after := by
  rw [handleIoEvent, Call.get_bind_apply] at final
  cases callback : server.descriptors.callbacks.lookup fd with
  | none =>
      rw [callback] at final
      cases final
      exact .inl ⟨rfl, rfl⟩
  | some registered =>
      rw [callback] at final
      right
      cases registered with
      | newConnection => exact .inl ⟨rfl, final_attempt_iff.mp final⟩
      | client id =>
          rcases consistent.registered fd id callback with ⟨conn, client, opened, -⟩
          have ends := final_attempt_iff.mp final
          simp only [onClient, client, final_mapState_iff] at ends
          rcases ends with ⟨after, finalAfter, settles⟩
          exact .inr ⟨id, conn, after, rfl, client, settles.symm, opened, finalAfter⟩

theorem step_ioEvent_cases {events : UInt32} {arrival : Arrival}
    {calls : Connection.SystemCalls} (consistent : server.Consistent)
    (free : server.managerMutexHeld = false) (possible : server.Possible arrival.accept)
    (final : (handleIoEvent config fd events arrival calls server).Final next) :
    Step config server (.ioEvent fd events arrival calls) next := by
  rcases consistent.final_handleIoEvent final with ⟨callback, rfl⟩ | ⟨callback, arrives⟩ |
    ⟨id, conn, after, callback, client, rfl, opened, finalAfter⟩
  · exact .dropped callback
  · exact .newConnection callback possible (handleNewConnection_outcome free arrival possible)
      arrives
  · rcases Connection.callback_settles (consistent.ready id conn client) opened finalAfter with
      ⟨ready, ⟨closedBy, closes⟩ | ⟨notClosedBy, stays⟩⟩
    · rcases server.settle_of_closes id closes with ⟨interest, settled⟩
      rw [settled]
      exact .closes callback client closedBy closes ready
    · rcases server.settle_of_stays id stays with ⟨interest, settled⟩
      rw [settled]
      exact .stays callback client notClosedBy stays ready

theorem step_cases {action : Action} (consistent : server.Consistent)
    (free : server.managerMutexHeld = false) (taken : step config server action = some next) :
    Step config server action next := by
  have free' : managerMutex.held server = false := free
  cases action with
  | arrive =>
      cases taken
      exact .arrive
  | ioEvent fd events arrival calls =>
      rcases Option.ite_none_right_eq_some.mp taken with ⟨possible, ends⟩
      exact step_ioEvent_cases consistent free possible (Outcome.ending_eq_some_iff.mp ends)
  | cleanupTimeoutConnections now order =>
      rcases Option.ite_none_right_eq_some.mp taken with ⟨isOrder, ends⟩
      rw [cleanupTimeoutConnections, lockGuard_of_free free',
        forM_of_returned (fun server entry known => known.cleanupEntry config now entry)
          (fun server entry known => known.sweepEntry config now entry) order
          (consistent.locked true)] at ends
      cases ends
      exact .cleanup isOrder
  | closeAllConnections order =>
      rcases Option.ite_none_right_eq_some.mp taken with ⟨isOrder, ends⟩
      rw [closeAllConnections, lockGuard_of_free free',
        Call.bind_of_returned (forM_of_returned
          (fun server entry known => known.onClient_close entry.2)
          (fun server entry known => known.closeClient entry.2) order
          (consistent.locked true))] at ends
      cases ends
      exact .closeAll isOrder

/-! ## Between steps -/

/-- What every step keeps. -/
structure Invariant (server : WebServer) : Prop where
  consistent : server.Consistent
  free : server.managerMutexHeld = false

theorem invariant_started (listenFd : Int) : (started listenFd).Invariant :=
  ⟨consistent_started listenFd, rfl⟩

theorem Invariant.newConnection {arrival : Arrival}
    {outcome : Outcome Exception WebServer PUnit} (invariant : server.Invariant)
    (possible : server.Possible arrival.accept)
    (ends : ArrivalOutcome config server arrival outcome) (final : outcome.Final next) :
    next.Invariant := by
  have consistent := invariant.consistent
  cases ends with
  | nothing =>
      cases final
      exact ⟨⟨consistent.ready, consistent.opened, consistent.registered, consistent.listening⟩,
        invariant.free⟩
  | unmade =>
      cases final
      exact ⟨consistent.took _, invariant.free⟩
  | unwatched =>
      cases final
      exact ⟨consistent.unwatched possible.2.2 _, invariant.free⟩
  | untabled =>
      cases final
      exact ⟨consistent.registers possible.2.2 possible.2.1 _, invariant.free⟩
  | @added _ now _ =>
      cases final
      have registers := consistent.registers possible.2.2 possible.2.1 now
      exact ⟨⟨registers.ready, registers.opened, registers.registered, registers.listening⟩,
        invariant.free⟩

theorem Step.invariant {action : Action} (taken : Step config server action next)
    (invariant : server.Invariant) : next.Invariant := by
  have consistent := invariant.consistent
  cases taken with
  | arrive =>
      exact ⟨⟨consistent.ready, consistent.opened, consistent.registered, consistent.listening⟩,
        invariant.free⟩
  | dropped => exact invariant
  | newConnection _ possible ends final => exact invariant.newConnection possible ends final
  | stays _ client _ stays ready =>
      exact ⟨consistent.stays client stays ready, invariant.free⟩
  | closes _ client _ closes ready =>
      exact ⟨consistent.closes client closes ready, invariant.free⟩
  | @cleanup now order _ =>
      have swept := order.foldlRecOn (sweepEntry config now) (consistent.locked true)
        fun _ known entry _ => known.sweepEntry config now entry
      exact ⟨swept.locked false, rfl⟩
  | @closeAll order _ =>
      have closed := order.foldlRecOn (fun server entry => server.closeClient entry.2)
        (consistent.locked true) fun _ known entry _ => known.closeClient entry.2
      exact ⟨⟨closed.ready, closed.opened, closed.registered, closed.listening⟩, rfl⟩

theorem keeps_invariant (config : Config) :
    Transition.Keeps (step config) (fun _ => True) Invariant :=
  fun _ _ _ _ taken invariant =>
    (step_cases invariant.consistent invariant.free taken).invariant invariant

theorem invariant_of_run {listenFd : Int} {actions : List Action}
    (ran : Transition.run (step config) (started listenFd) actions = some server) :
    server.Invariant :=
  (keeps_invariant config).run ran (fun _ _ => trivial) (invariant_started listenFd)

end WebServer

end PPServer.Server
