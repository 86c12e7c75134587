import PPServer.Net.Removal
import PPServer.Server.Interest
import PPServer.Server.Registrations

/-!
# What blocks the server

Every callback runs on the loop thread, so one that locks a mutex twice is the end of all service.
The steps of the manager and `HandleNewConnection` always come to an end; the callback of a client
does not if a buffer overflows, or if writing fails for good.  Both are up to the client, as far as
what epoll watches lets the handlers run.
-/

namespace PPServer.Server.WebServer

open Locking Net Transition EventLoop

variable {config : Config} {server : WebServer} {id : Nat} {conn : Connection} {fd : Int}
variable {events : UInt32} {arrival : Arrival} {calls : Connection.SystemCalls}

/-- The step is offered: what the kernel answers is possible, and the table is gone through in some
order. -/
def Offers (server : WebServer) : Action → Prop
  | .arrive => True
  | .ioEvent _ _ arrival _ => server.Possible arrival.accept
  | .cleanupTimeoutConnections _ order | .closeAllConnections order =>
      FiniteMap.IsOrder server.connections order

/-- The step calls the callback of a client, which blocks. -/
def Blocks (server : WebServer) : Action → Prop
  | .ioEvent fd events _ calls =>
      ∃ id conn, server.descriptors.callbacks.lookup fd = some (.client id) ∧
        server.clients[id]? = some conn ∧ conn.BlockedBy events calls
  | .arrive | .cleanupTimeoutConnections _ _ | .closeAllConnections _ => False

theorem Consistent.deadlocks_onClient_callback_iff (consistent : server.Consistent)
    (client : server.clients[id]? = some conn) (opened : conn.IsOpen) :
    Deadlocks (onClient id (Connection.callback events calls)) server ↔
      conn.BlockedBy events calls := by
  rw [← Connection.deadlocks_callback_iff (consistent.ready id conn client) opened]
  simp only [Deadlocks, onClient, client]
  cases Connection.callback events calls conn <;> simp [Outcome.mapState]

theorem ending_attempt_eq_none_iff {op : Op PUnit} :
    (attempt op server).ending = none ↔ Deadlocks op server := by
  simp only [attempt, Deadlocks]
  cases op server <;> simp [Outcome.ending]

/-- A new connection never blocks the server. -/
theorem not_deadlocks_handleNewConnection (free : server.managerMutexHeld = false)
    (possible : server.Possible arrival.accept) :
    ¬Deadlocks (handleNewConnection config arrival) server := by
  have ends : ArrivalOutcome config server arrival _ :=
    handleNewConnection_outcome free arrival possible
  rw [Deadlocks]
  generalize handleNewConnection config arrival server = outcome at ends
  cases ends <;> simp

theorem Invariant.ending_handleIoEvent_iff (invariant : server.Invariant)
    (possible : server.Possible arrival.accept) :
    (handleIoEvent config fd events arrival calls server).ending = none ↔
      server.Blocks (.ioEvent fd events arrival calls) := by
  rw [handleIoEvent, Call.get_bind_apply, Blocks]
  cases callback : server.descriptors.callbacks.lookup fd with
  | none => exact iff_of_false (by simp [Outcome.ending]) (by simp)
  | some registered =>
      cases registered with
      | newConnection =>
          rw [ending_attempt_eq_none_iff]
          exact iff_of_false (not_deadlocks_handleNewConnection invariant.free possible) (by simp)
      | client id =>
          rcases invariant.consistent.registered fd id callback with ⟨conn, client, opened, -⟩
          rw [ending_attempt_eq_none_iff,
            invariant.consistent.deadlocks_onClient_callback_iff client opened]
          constructor
          · exact fun blocked => ⟨id, conn, rfl, client, blocked⟩
          · rintro ⟨other, found, same, isClient, blocked⟩
            cases same
            cases client.symm.trans isClient
            exact blocked

/-- A step that is offered comes to an end unless the callback of a client blocks. -/
theorem Invariant.step_eq_none_iff (invariant : server.Invariant) {action : Action}
    (offers : server.Offers action) : step config server action = none ↔ server.Blocks action := by
  have free' : managerMutex.held server = false := invariant.free
  have consistent := invariant.consistent
  cases action with
  | arrive => exact iff_of_false (by simp [step]) id
  | ioEvent fd events arrival calls =>
      have offered : server.Possible arrival.accept := offers
      rw [step, if_pos offered, invariant.ending_handleIoEvent_iff offered]
  | cleanupTimeoutConnections now order =>
      have isOrder : FiniteMap.IsOrder server.connections order := offers
      rw [step, if_pos isOrder, cleanupTimeoutConnections, lockGuard_of_free free',
        forM_of_returned (fun server entry known => known.cleanupEntry config now entry)
          (fun server entry known => known.sweepEntry config now entry) order
          (consistent.locked true)]
      exact iff_of_false (by simp [Outcome.ending, Outcome.release]) id
  | closeAllConnections order =>
      have isOrder : FiniteMap.IsOrder server.connections order := offers
      rw [step, if_pos isOrder, closeAllConnections, lockGuard_of_free free',
        Call.bind_of_returned (forM_of_returned
          (fun server entry known => known.onClient_close entry.2)
          (fun server entry known => known.closeClient entry.2) order
          (consistent.locked true))]
      exact iff_of_false (by simp [Outcome.ending, Outcome.release]) id

/-- The client has sent a request, and has reset its connection. -/
def requestAndReset : Connection.SystemCalls where
  read := .received (bytes "\r\n\r\n") (by decide) (by decide)
  readEpoll := .done
  write := .failed false (bytes "Connection reset by peer")
  writeEpoll := .done
  now := 0

theorem blockedBy_of_unwritten (unwritten : conn.writeBuffer ≠ []) :
    conn.BlockedBy epollWrite requestAndReset := by
  have skips : ¬Any epollWrite epollRead := by decide
  refine .inr ⟨by decide, fun both => skips both.1, ?_⟩
  rw [Connection.toWrite, if_neg skips]
  exact unwritten

/-- **What blocks the server.**  At any time, a step that is offered never comes to an end exactly
if it calls the callback of a client, and there a buffer overflows, or a write fails for good. -/
theorem blocks_iff_of_run {listenFd : Int} {actions : List Action}
    (ran : run (step config) (started listenFd) actions = some server) {action : Action}
    (offers : server.Offers action) : step config server action = none ↔ server.Blocks action :=
  (invariant_of_run ran).step_eq_none_iff offers

/-- A server with one client. -/
def servesOne : List Action :=
  [.arrive, .ioEvent 3 epollRead ⟨.accepted 7, none, .done, 1⟩
    ⟨.endOfFile, .done, .accepted 0, .done, 1⟩]

/-- The client has sent a request, and the response is waiting. -/
def answersOne : List Action :=
  servesOne ++ [.ioEvent 7 epollIn ⟨.interrupted, none, .done, 2⟩
    { requestAndReset with now := 2 }]

set_option maxRecDepth 4096 in
theorem exists_run_answersOne :
    ∃ server conn, run (step {}) (started 3) answersOne = some server ∧
      server.descriptors.callbacks.lookup 7 = some (.client 0) ∧
      server.clients[0]? = some conn ∧ conn.state = .writing ∧ conn.writeBuffer ≠ [] :=
  ⟨_, _, rfl, by decide, rfl, rfl, Connection.response_ne_nil⟩

theorem blocks_iff_of_run_servesOne :
    ∃ server, run (step {}) (started 3) answersOne = some server ∧
      step {} server (.ioEvent 7 epollWrite ⟨.interrupted, none, .done, 3⟩ requestAndReset) =
        none := by
  rcases exists_run_answersOne with ⟨server, conn, ran, callback, client, -, unwritten⟩
  have offers : server.Offers
      (.ioEvent 7 epollWrite ⟨.interrupted, none, .done, 3⟩ requestAndReset) := trivial
  exact ⟨server, ran,
    (blocks_iff_of_run ran offers).mpr
      ⟨0, conn, callback, client, blockedBy_of_unwritten unwritten⟩⟩

/-! ## One client is enough -/

/-- Epoll can report the events: those that are watched, and errors and hang-ups, which always
are. -/
def Reports (server : WebServer) (fd : Int) (events : UInt32) : Prop :=
  ∃ watched, server.descriptors.interest.lookup fd = some watched ∧
    events &&& (watched &&& (epollRead ||| epollWrite) ||| epollError) = events

/-- Nothing is reported of flags that cannot be. -/
theorem not_any_of_and_eq {mask flags : UInt32} (reported : events &&& mask = events)
    (apart : mask &&& flags = 0) : ¬Any events flags := by
  rw [Any, not_not, ← reported, UInt32.and_assoc, apart, UInt32.and_zero]

/-- The write handler runs in the state `WRITING` only. -/
theorem Reports.writing {state : ConnectionState} (reports : server.Reports fd events)
    (watched : server.descriptors.interest.lookup fd = some (Connection.askedIn state))
    (writes : Any events epollWrite) : state = .writing := by
  rcases reports with ⟨mask, isMask, reported⟩
  cases watched.symm.trans isMask
  cases state with
  | writing => rfl
  | _ => exact absurd writes (not_any_of_and_eq reported (by decide))

theorem readBlocks_iff :
    (∃ read, conn.ReadBlocks read) ↔
      conn.Reads ∧
        (conn.maxBufferSize < conn.readBuffer.length + 4096 ∨ ¬conn.TakesResponse) := by
  constructor
  · rintro ⟨read, blocks⟩
    cases read with
    | received data nonempty fits =>
        rcases blocks with ⟨reads, overflows⟩
        refine ⟨reads, ?_⟩
        by_cases room : conn.TakesIn data
        · exact .inr (overflows room).2
        · rw [Connection.TakesIn, Nat.not_le] at room
          exact .inl (room.trans_le (Nat.add_le_add_left fits _))
    | endOfFile | failed => exact blocks.elim
  · rintro ⟨reads, overflows | full⟩
    · have whole : ∃ data : Bytes, data.length = 4096 :=
        ⟨List.replicate 4096 0, List.length_replicate⟩
      rcases whole with ⟨data, whole⟩
      have nonempty : data ≠ [] := by
        rintro rfl
        cases whole
      refine ⟨.received data nonempty whole.le, reads, fun room => absurd room ?_⟩
      rwa [Connection.TakesIn, whole, Nat.not_le]
    · exact ⟨requestAndReset.read, reads, fun _ => ⟨(List.suffix_append _ _).isInfix, full⟩⟩

/-- What blocks an open connection, of what can be reported. -/
theorem exists_blockedBy_iff
    (watched : server.descriptors.interest.lookup fd = some (Connection.askedIn conn.state)) :
    (∃ events calls, server.Reports fd events ∧ conn.BlockedBy events calls) ↔
      conn.state = .writing ∧ conn.writeBuffer ≠ [] ∨ ∃ read, conn.ReadBlocks read := by
  constructor
  · rintro ⟨events, calls, reports, ⟨-, blocks⟩ | ⟨writes, goesOn, blocks⟩⟩
    · exact .inr ⟨calls.read, blocks⟩
    · have writing := reports.writing watched writes
      have closes : conn.ReadCloses calls.read := by
        cases calls.read with
        | received => rintro (state | state) <;> cases writing.symm.trans state
        | endOfFile | failed => trivial
      have skips : ¬Any events epollRead := fun runs => goesOn ⟨runs, .inl closes⟩
      rw [Connection.toWrite, if_neg skips] at blocks
      refine .inl ⟨writing, ?_⟩
      cases write : calls.write with
      | accepted =>
          rw [write] at blocks
          exact blocks.elim
      | failed wouldBlock =>
          rw [write] at blocks
          cases wouldBlock with
          | true => exact blocks.elim
          | false => exact blocks
  · rintro (⟨writing, unwritten⟩ | ⟨read, blocks⟩)
    · -- The client resets the connection after `epoll_wait` has returned.
      rw [writing] at watched
      exact ⟨epollWrite, requestAndReset, ⟨_, watched, by decide⟩, blockedBy_of_unwritten unwritten⟩
    · have reported : epollIn &&& (Connection.askedIn conn.state &&& (epollRead ||| epollWrite) |||
          epollError) = epollIn := by
        cases conn.state <;> decide
      exact ⟨epollIn, { requestAndReset with read := read }, ⟨_, watched, reported⟩,
        .inl ⟨by decide, blocks⟩⟩

/-- **One client is enough.**  At any time a client can block the server with one event of its own,
of those that epoll can report, exactly if its connection is open and either waits for its output
to be taken, or reads and has no room left in one of its buffers: for a whole read in the read
buffer, or for a response in the write buffer. -/
theorem can_block_iff {listenFd : Int} {actions : List Action}
    (ran : run (step config) (started listenFd) actions = some server)
    (client : server.clients[id]? = some conn) :
    (∃ fd events arrival calls, server.descriptors.callbacks.lookup fd = some (.client id) ∧
        server.Reports fd events ∧ server.Possible arrival.accept ∧
        step config server (.ioEvent fd events arrival calls) = none) ↔
      conn.IsOpen ∧
        (conn.state = .writing ∧ conn.writeBuffer ≠ [] ∨
          conn.Reads ∧
            (conn.maxBufferSize < conn.readBuffer.length + 4096 ∨ ¬conn.TakesResponse)) := by
  have invariant := invariant_of_run ran
  rw [← readBlocks_iff]
  constructor
  · rintro ⟨fd, events, arrival, calls, callback, reports, possible, blocks⟩
    have offers : server.Offers (.ioEvent fd events arrival calls) := possible
    rcases (invariant.step_eq_none_iff offers).mp blocks with
      ⟨other, found, same, isClient, blocked⟩
    cases callback.symm.trans same
    cases client.symm.trans isClient
    rcases invariant.consistent.registered fd id callback with ⟨found, isClient, opened, rfl⟩
    cases client.symm.trans isClient
    have watched := lookup_interest_of_run ran client opened
    exact ⟨opened, (exists_blockedBy_iff watched).mp ⟨events, calls, reports, blocked⟩⟩
  · rintro ⟨opened, condition⟩
    have callback := (invariant.consistent.opened id conn client opened).2
    have watched := lookup_interest_of_run ran client opened
    rcases (exists_blockedBy_iff watched).mpr condition with ⟨events, calls, reports, blocked⟩
    have offers : server.Offers
        (.ioEvent conn.socketFd events ⟨.interrupted, none, .done, 0⟩ calls) := trivial
    exact ⟨conn.socketFd, events, ⟨.interrupted, none, .done, 0⟩, calls, callback, reports,
      trivial, (invariant.step_eq_none_iff offers).mpr ⟨id, conn, callback, client, blocked⟩⟩

theorem can_block_iff_servesOne :
    ∃ server conn, run (step {}) (started 3) answersOne = some server ∧
      server.clients[0]? = some conn ∧
      ∃ fd events arrival calls, server.descriptors.callbacks.lookup fd = some (.client 0) ∧
        server.Reports fd events ∧ server.Possible arrival.accept ∧
        step {} server (.ioEvent fd events arrival calls) = none := by
  rcases exists_run_answersOne with ⟨server, conn, ran, -, client, writing, unwritten⟩
  have opened : conn.IsOpen := by simp [Connection.IsOpen, writing]
  exact ⟨server, conn, ran, client,
    (can_block_iff ran client).mpr ⟨opened, .inl ⟨writing, unwritten⟩⟩⟩

end PPServer.Server.WebServer
