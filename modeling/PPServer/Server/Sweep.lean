import PPServer.Library.Iterating
import PPServer.Server.Registrations

/-!
# The sweep of idle connections

`CleanupTimeoutConnections` erases from the map that it goes through, at the iterator, and closes
connections on the way, which calls into the event loop.  It comes to every entry once all the
same, so what it does can be read off the table and the clock at its beginning.
-/

namespace PPServer.Server.WebServer

open Locking Net EventLoop Iterating

variable {config : Config} {server current : WebServer} {now : Nat} {id : Nat} {fd : Int}
variable {conn : Connection} {visited order : List (Σ _ : Int, Nat)}

/-- The connection has been idle for too long; it is not closed yet, or it is. -/
def isIdle (config : Config) (now : Nat) (server : WebServer) (id : Nat) : Bool :=
  server.clients[id]?.any fun conn => TimedOut config now conn

theorem isIdle_of_getElem? (client : server.clients[id]? = some conn) :
    server.isIdle config now id = decide (TimedOut config now conn) := by
  rw [isIdle, client, Option.any_some]

/-- The body of the loop, with whether it erases the entry at the iterator. -/
def visitEntry (config : Config) (now : Nat) (entry : Σ _ : Int, Nat) : Op Bool := do
  let server ← get
  match server.clients[entry.2]? with
  | some conn =>
      if TimedOut config now conn then
        onClient entry.2 Connection.close
        modify fun server => { server with connections := server.connections.erase entry.1 }
        return true
      else return false
  | none => return false

/-- `CleanupTimeoutConnections` with its iterator.  The entries are in the order of the map, and
those that are left are returned. -/
def cleanupByIterator (config : Config) (now : Nat) (order : List (Σ _ : Int, Nat)) :
    Op (List (Σ _ : Int, Nat)) :=
  lockGuard managerMutex (eraseFrom (visitEntry config now) order 0)

theorem map_visitEntry (config : Config) (now : Nat) (entry : Σ _ : Int, Nat) :
    (fun _ => PUnit.unit) <$> visitEntry config now entry = cleanupEntry config now entry := by
  funext server
  rw [visitEntry, cleanupEntry, map_bind, Call.get_bind_apply, Call.get_bind_apply]
  cases server.clients[entry.2]? with
  | none => rfl
  | some conn => by_cases timedOut : TimedOut config now conn <;> simp [timedOut]

/-- The loop with the iterator visits every entry once. -/
theorem map_cleanupByIterator (config : Config) (now : Nat) (order : List (Σ _ : Int, Nat)) :
    (fun _ => PUnit.unit) <$> cleanupByIterator config now order =
      cleanupTimeoutConnections config now order := by
  have visits := map_eraseFrom (visitEntry config now) [] order
  rw [List.nil_append, List.length_nil] at visits
  simp only [map_visitEntry] at visits
  rw [cleanupByIterator, cleanupTimeoutConnections, map_lockGuard, visits]

theorem Consistent.visitEntry (consistent : server.Consistent) (config : Config) (now : Nat)
    (entry : Σ _ : Int, Nat) :
    visitEntry config now entry server =
      .returned (server.isIdle config now entry.2)
        (WebServer.sweepEntry config now server entry) := by
  rw [WebServer.visitEntry, Call.get_bind_apply, WebServer.sweepEntry]
  cases client : server.clients[entry.2]? with
  | none => rw [isIdle, client]; rfl
  | some conn =>
      rw [isIdle_of_getElem? client]
      by_cases timedOut : TimedOut config now conn
      · simp only [timedOut, if_true, decide_true]
        rw [Call.bind_of_returned (consistent.onClient_close entry.2), Call.modify_bind_apply,
          consistent.closeClient_connections]
        rfl
      · simp only [timedOut, if_false, decide_false]
        rfl

/-! ## One entry -/

/-- Everything that `Close` changes. -/
theorem Consistent.closeClient_of_isOpen (consistent : server.Consistent)
    (client : server.clients[id]? = some conn) (opened : conn.IsOpen) :
    server.closeClient id =
      { server with
        clients := server.clients.set id conn.closed
        descriptors :=
          { callbacks := server.descriptors.callbacks.erase conn.socketFd
            interest :=
              (server.descriptors.interest.erase conn.socketFd).erase conn.socketFd }
        openFds := server.openFds.erase conn.socketFd } := by
  have ready := consistent.ready id conn client
  have effects : conn.closed.effects.drop conn.effects.length =
      [.removeFd conn.socketFd, .closeSocket conn.socketFd, .onDisconnection] := by
    simp [Connection.closed, ready.hasHandler, ready.socketFd_nonneg opened]
  simp only [WebServer.closeClient, client, if_pos opened, settle, effects]
  rfl

/-- The connection is open, and has been idle for too long. -/
def Expired (config : Config) (now : Nat) (conn : Connection) : Prop :=
  TimedOut config now conn ∧ conn.IsOpen

instance (config : Config) (now : Nat) (conn : Connection) : Decidable (Expired config now conn) :=
  inferInstanceAs (Decidable (_ ∧ _))

/-- What one pass of the loop does. -/
theorem sweepEntry_cases (config : Config) (now : Nat) (server : WebServer)
    (entry : Σ _ : Int, Nat) :
    ∃ visited, sweepEntry config now server entry =
        { visited with
          connections :=
            if server.isIdle config now entry.2 then server.connections.erase entry.1
            else server.connections } ∧
      ((∃ conn, server.clients[entry.2]? = some conn ∧ Expired config now conn ∧
        visited = server.closeClient entry.2) ∨
      (∀ conn, server.clients[entry.2]? = some conn → ¬Expired config now conn) ∧
        visited = server) := by
  rw [WebServer.sweepEntry]
  cases client : server.clients[entry.2]? with
  | none => exact ⟨server, by simp [isIdle, client], .inr ⟨by simp, rfl⟩⟩
  | some conn =>
      rw [isIdle_of_getElem? client]
      by_cases timedOut : TimedOut config now conn
      · simp only [timedOut, if_true, decide_true]
        refine ⟨server.closeClient entry.2, rfl, ?_⟩
        by_cases opened : conn.IsOpen
        · exact .inl ⟨conn, rfl, ⟨timedOut, opened⟩, rfl⟩
        · have stays : server.closeClient entry.2 = server := by
            simp only [WebServer.closeClient, client, if_neg opened]
          exact .inr ⟨fun found same expired => opened (Option.some_inj.mp same ▸ expired.2), stays⟩
      · simp only [timedOut, if_false, decide_false]
        exact ⟨server, rfl, .inr ⟨fun found same expired =>
          timedOut (Option.some_inj.mp same ▸ expired.1), rfl⟩⟩

theorem sweepEntry_connections (config : Config) (now : Nat) (server : WebServer)
    (entry : Σ _ : Int, Nat) (fd : Int) (id : Nat) :
    (sweepEntry config now server entry).connections.lookup fd = some id ↔
      server.connections.lookup fd = some id ∧
        (server.isIdle config now entry.2 = true → fd ≠ entry.1) := by
  rcases sweepEntry_cases config now server entry with ⟨visited, swept, -⟩
  rw [swept]
  cases server.isIdle config now entry.2 with
  | true => simp [FiniteMap.lookup_erase_eq_some_iff, and_comm]
  | false => simp

theorem Consistent.sweepEntry_clients (consistent : server.Consistent) (config : Config)
    (now : Nat) (entry : Σ _ : Int, Nat) (id : Nat) :
    (WebServer.sweepEntry config now server entry).clients[id]? =
      server.clients[id]?.map fun conn =>
        if id = entry.2 ∧ Expired config now conn then conn.closed else conn := by
  rcases sweepEntry_cases config now server entry with
    ⟨visited, swept, ⟨conn, client, expired, rfl⟩ | ⟨unexpired, rfl⟩⟩
  · rw [swept, consistent.closeClient_of_isOpen client expired.2]
    by_cases same : id = entry.2
    · subst same
      rw [List.getElem?_set_self (List.getElem?_eq_some_iff.mp client).1, client, Option.map_some,
        if_pos ⟨rfl, expired⟩]
    · simp [same, Ne.symm same]
  · rw [swept]
    cases client : visited.clients[id]? with
    | none => rfl
    | some conn =>
        have kept : ¬(id = entry.2 ∧ Expired config now conn) := by
          rintro ⟨rfl, expired⟩
          exact unexpired conn client expired
        rw [Option.map_some, if_neg kept]

/-- What the pass takes from a map of the event loop. -/
theorem Consistent.sweepEntry_descriptors (consistent : server.Consistent) (config : Config)
    (now : Nat) (entry : Σ _ : Int, Nat) (fd : Int) :
    (∀ callback, (WebServer.sweepEntry config now server entry).descriptors.callbacks.lookup fd =
        some callback ↔ server.descriptors.callbacks.lookup fd = some callback ∧
      ∀ conn, server.clients[entry.2]? = some conn → Expired config now conn →
        fd ≠ conn.socketFd) ∧
    ∀ events, (WebServer.sweepEntry config now server entry).descriptors.interest.lookup fd =
        some events ↔ server.descriptors.interest.lookup fd = some events ∧
      ∀ conn, server.clients[entry.2]? = some conn → Expired config now conn →
        fd ≠ conn.socketFd := by
  rcases sweepEntry_cases config now server entry with
    ⟨visited, swept, ⟨conn, client, expired, rfl⟩ | ⟨unexpired, rfl⟩⟩
  · rw [swept, consistent.closeClient_of_isOpen client expired.2]
    simp [client, expired, FiniteMap.lookup_erase_eq_some_iff, and_comm]
  · rw [swept]
    have nothing : ∀ conn, visited.clients[entry.2]? = some conn → Expired config now conn →
        fd ≠ conn.socketFd := fun conn client expired => absurd expired (unexpired conn client)
    exact ⟨fun callback => (and_iff_left nothing).symm, fun events => (and_iff_left nothing).symm⟩

/-! ## In the middle of the loop -/

/-- The connection is open and has expired, and one of the entries that have been visited is its. -/
def ClosedBy (config : Config) (now : Nat) (visited : List (Σ _ : Int, Nat)) (id : Nat)
    (conn : Connection) : Prop :=
  id ∈ visited.map Sigma.snd ∧ Expired config now conn

instance (config : Config) (now : Nat) (visited : List (Σ _ : Int, Nat)) (id : Nat)
    (conn : Connection) : Decidable (ClosedBy config now visited id conn) :=
  inferInstanceAs (Decidable (_ ∧ _))

/-- How the state of the loop comes from that at its beginning. -/
structure Sweeping (config : Config) (now : Nat) (server : WebServer)
    (visited : List (Σ _ : Int, Nat)) (current : WebServer) : Prop where
  consistent : current.Consistent
  connections : ∀ fd id, current.connections.lookup fd = some id ↔
    server.connections.lookup fd = some id ∧
      ∀ entry ∈ visited, server.isIdle config now entry.2 = true → fd ≠ entry.1
  clients : ∀ id, current.clients[id]? = server.clients[id]?.map fun conn =>
    if ClosedBy config now visited id conn then conn.closed else conn
  callbacks : ∀ fd callback, current.descriptors.callbacks.lookup fd = some callback ↔
    server.descriptors.callbacks.lookup fd = some callback ∧
      ∀ id conn, server.clients[id]? = some conn → ClosedBy config now visited id conn →
        fd ≠ conn.socketFd
  interest : ∀ fd events, current.descriptors.interest.lookup fd = some events ↔
    server.descriptors.interest.lookup fd = some events ∧
      ∀ id conn, server.clients[id]? = some conn → ClosedBy config now visited id conn →
        fd ≠ conn.socketFd

theorem sweeping_nil (consistent : server.Consistent) (config : Config) (now : Nat) :
    Sweeping config now server [] server where
  consistent := consistent
  connections fd id := by simp
  clients id := by simp [ClosedBy]
  callbacks fd callback := by simp [ClosedBy]
  interest fd events := by simp [ClosedBy]

theorem not_expired_closed : ¬Expired config now conn.closed :=
  fun expired => Connection.not_isOpen_closed conn expired.2

theorem Sweeping.isIdle (sweeping : Sweeping config now server visited current) (id : Nat) :
    current.isIdle config now id = server.isIdle config now id := by
  rw [WebServer.isIdle, WebServer.isIdle, sweeping.clients, Option.any_map]
  congr 1
  funext conn
  -- `Close` leaves the time of the last activity alone.
  have same : TimedOut config now conn.closed ↔ TimedOut config now conn := Iff.rfl
  split
  next => simp [same]
  next => rfl

theorem closedBy_append_iff {entry : Σ _ : Int, Nat} :
    ClosedBy config now (visited ++ [entry]) id conn ↔
      ClosedBy config now visited id conn ∨ id = entry.2 ∧ Expired config now conn := by
  rw [ClosedBy, List.map_append, List.mem_append, List.map_singleton, List.mem_singleton,
    or_and_right]
  exact Iff.rfl

/-- The descriptors that are taken from the event loop by one more pass. -/
theorem Sweeping.forall_closedBy_append_iff (sweeping : Sweeping config now server visited current)
    (entry : Σ _ : Int, Nat) (fd : Int) :
    (∀ id conn, server.clients[id]? = some conn →
      ClosedBy config now (visited ++ [entry]) id conn → fd ≠ conn.socketFd) ↔
    (∀ id conn, server.clients[id]? = some conn → ClosedBy config now visited id conn →
      fd ≠ conn.socketFd) ∧
    ∀ conn, current.clients[entry.2]? = some conn → Expired config now conn →
      fd ≠ conn.socketFd := by
  simp only [closedBy_append_iff, sweeping.clients]
  constructor
  · intro differs
    refine ⟨fun id conn client closed => differs id conn client (.inl closed), ?_⟩
    intro found isFound expired
    rcases Option.map_eq_some_iff.mp isFound with ⟨conn, client, rfl⟩
    split at expired
    next => exact absurd expired not_expired_closed
    next unclosed =>
        rw [if_neg unclosed]
        exact differs entry.2 conn client (.inr ⟨rfl, expired⟩)
  · rintro ⟨differsBefore, differsNow⟩ id conn client (closed | ⟨rfl, expired⟩)
    · exact differsBefore id conn client closed
    · by_cases closed : ClosedBy config now visited entry.2 conn
      · exact differsBefore entry.2 conn client closed
      · exact differsNow conn (by rw [client, Option.map_some, if_neg closed]) expired

theorem Sweeping.step (sweeping : Sweeping config now server visited current)
    (entry : Σ _ : Int, Nat) :
    Sweeping config now server (visited ++ [entry]) (sweepEntry config now current entry) := by
  have consistent := sweeping.consistent
  constructor
  case consistent => exact consistent.sweepEntry config now entry
  case connections =>
    intro fd id
    rw [sweepEntry_connections, sweeping.connections, sweeping.isIdle, and_assoc]
    simp only [List.forall_mem_append, List.forall_mem_singleton]
  case clients =>
    intro id
    rw [consistent.sweepEntry_clients, sweeping.clients, Option.map_map]
    congr 1
    funext conn
    simp only [Function.comp_apply, closedBy_append_iff]
    by_cases closed : ClosedBy config now visited id conn
    · simp [closed, not_expired_closed]
    · simp [closed]
  case callbacks =>
    intro fd callback
    rw [(consistent.sweepEntry_descriptors config now entry fd).1, sweeping.callbacks, and_assoc,
      sweeping.forall_closedBy_append_iff]
  case interest =>
    intro fd events
    rw [(consistent.sweepEntry_descriptors config now entry fd).2, sweeping.interest, and_assoc,
      sweeping.forall_closedBy_append_iff]

theorem Sweeping.visitEntry (sweeping : Sweeping config now server visited current)
    (entry : Σ _ : Int, Nat) :
    visitEntry config now entry current =
      .returned (server.isIdle config now entry.2) (sweepEntry config now current entry) := by
  rw [sweeping.consistent.visitEntry config now entry, sweeping.isIdle]

/-- The loop runs to its end. -/
theorem sweeping_cleanupByIterator (consistent : server.Consistent)
    (free : server.managerMutexHeld = false) (config : Config) (now : Nat)
    (order : List (Σ _ : Int, Nat)) :
    ∃ after, cleanupByIterator config now order server =
        .returned (order.filter fun entry => !server.isIdle config now entry.2)
          (managerMutex.setHeld false after) ∧
      Sweeping config now (managerMutex.setHeld true server) order after := by
  have free' : managerMutex.held server = false := free
  let locked := managerMutex.setHeld true server
  have returns : ∀ visited state entry, Sweeping config now locked visited state →
      visitEntry config now entry state =
        .returned (locked.isIdle config now entry.2) (sweepEntry config now state entry) :=
    fun visited state entry sweeping => sweeping.visitEntry entry
  have ended := eraseFrom_of_returned returns (fun visited state entry sweeping =>
    sweeping.step entry) [] order (sweeping_nil (consistent.locked true) config now)
  rw [List.nil_append, List.length_nil] at ended
  refine ⟨order.foldl (sweepEntry config now) locked, ?_, ended.2⟩
  rw [cleanupByIterator, lockGuard_of_free free', ended.1]
  rfl

/-! ## The whole sweep -/

/-- The connection is in the table and open, and has expired. -/
def Expires (config : Config) (now : Nat) (server : WebServer) (id : Nat) (conn : Connection) :
    Prop :=
  (∃ fd, server.connections.lookup fd = some id) ∧ server.clients[id]? = some conn ∧
    Expired config now conn

/-- The sweep has done what it is to do, and nothing else. -/
structure SweptExactly (config : Config) (now : Nat) (server after : WebServer) : Prop where
  connections : ∀ fd id, after.connections.lookup fd = some id ↔
    server.connections.lookup fd = some id ∧
      ¬∃ conn, server.clients[id]? = some conn ∧ TimedOut config now conn
  closed : ∀ id conn, Expires config now server id conn →
    (∃ gone, after.clients[id]? = some gone ∧ gone.state = .disconnected) ∧
      conn.socketFd ∉ after.descriptors.callbacks ∧ conn.socketFd ∉ after.descriptors.interest
  kept : ∀ id conn, server.clients[id]? = some conn → ¬Expires config now server id conn →
    after.clients[id]? = some conn ∧ (conn.IsOpen →
      after.descriptors.callbacks.lookup conn.socketFd =
          server.descriptors.callbacks.lookup conn.socketFd ∧
        after.descriptors.interest.lookup conn.socketFd =
          server.descriptors.interest.lookup conn.socketFd)
  elsewhere : ∀ fd, (∀ id conn, Expires config now server id conn → fd ≠ conn.socketFd) →
    after.descriptors.callbacks.lookup fd = server.descriptors.callbacks.lookup fd ∧
      after.descriptors.interest.lookup fd = server.descriptors.interest.lookup fd

theorem isIdle_iff : server.isIdle config now id = true ↔
    ∃ conn, server.clients[id]? = some conn ∧ TimedOut config now conn := by
  cases client : server.clients[id]? with
  | none => simp [isIdle, client]
  | some conn => simp [isIdle, client]

/-- Once all entries have been visited, the connections that are closed are those that expire. -/
theorem closedBy_order_iff (isOrder : FiniteMap.IsOrder server.connections order)
    (client : server.clients[id]? = some conn) :
    ClosedBy config now order id conn ↔ Expires config now server id conn := by
  have tabled : id ∈ order.map Sigma.snd ↔ ∃ fd, server.connections.lookup fd = some id := by
    simp only [List.mem_map, isOrder.mem_iff]
    constructor
    · rintro ⟨entry, stored, rfl⟩
      exact ⟨entry.1, stored⟩
    · rintro ⟨fd, stored⟩
      exact ⟨⟨fd, id⟩, stored, rfl⟩
  exact ⟨fun closed => ⟨tabled.mp closed.1, client, closed.2⟩,
    fun expires => ⟨tabled.mpr expires.1, expires.2.2⟩⟩

/-- Two open connections have different descriptors. -/
theorem Consistent.unique_of_socketFd (consistent : server.Consistent) {other : Nat}
    {found : Connection} (client : server.clients[id]? = some conn) (opened : conn.IsOpen)
    (isClient : server.clients[other]? = some found) (isOpened : found.IsOpen)
    (same : conn.socketFd = found.socketFd) : id = other := by
  have own := (consistent.opened id conn client opened).2
  rw [same, (consistent.opened other found isClient isOpened).2] at own
  cases own
  rfl

theorem Sweeping.sweptExactly {after : WebServer} (consistent : server.Consistent)
    (isOrder : FiniteMap.IsOrder server.connections order)
    (sweeping : Sweeping config now server order after) :
    SweptExactly config now server after := by
  have lookups (fd : Int)
      (differs : ∀ id conn, Expires config now server id conn → fd ≠ conn.socketFd) :
      after.descriptors.callbacks.lookup fd = server.descriptors.callbacks.lookup fd ∧
        after.descriptors.interest.lookup fd = server.descriptors.interest.lookup fd := by
    have unreleased : ∀ id conn, server.clients[id]? = some conn →
        ClosedBy config now order id conn → fd ≠ conn.socketFd :=
      fun id conn client closed => differs id conn ((closedBy_order_iff isOrder client).mp closed)
    constructor
    · apply Option.ext
      intro callback
      exact (sweeping.callbacks fd callback).trans (and_iff_left unreleased)
    · apply Option.ext
      intro events
      exact (sweeping.interest fd events).trans (and_iff_left unreleased)
  constructor
  case connections =>
    intro fd id
    rw [sweeping.connections, ← isIdle_iff]
    refine and_congr_right fun stored => ⟨?_, ?_⟩
    · intro kept idle
      exact kept ⟨fd, id⟩ ((isOrder.mem_iff ⟨fd, id⟩).mpr stored) idle rfl
    · rintro notIdle entry member idle rfl
      have visited := (isOrder.mem_iff entry).mp member
      cases visited.symm.trans stored
      exact notIdle idle
  case closed =>
    intro id conn expires
    have client := expires.2.1
    have closed := (closedBy_order_iff isOrder client).mpr expires
    refine ⟨⟨conn.closed, ?_, rfl⟩, ?_, ?_⟩
    · rw [sweeping.clients, client, Option.map_some, if_pos closed]
    · intro member
      rcases Finmap.mem_iff.mp member with ⟨callback, found⟩
      exact ((sweeping.callbacks _ callback).mp found).2 id conn client closed rfl
    · intro member
      rcases Finmap.mem_iff.mp member with ⟨events, found⟩
      exact ((sweeping.interest _ events).mp found).2 id conn client closed rfl
  case kept =>
    intro id conn client stays
    have unclosed := mt (closedBy_order_iff isOrder client).mp stays
    refine ⟨by rw [sweeping.clients, client, Option.map_some, if_neg unclosed], fun opened => ?_⟩
    apply lookups
    intro other found expires same
    rcases expires with ⟨tabled, isClient, expired⟩
    obtain rfl := consistent.unique_of_socketFd client opened isClient expired.2 same
    cases client.symm.trans isClient
    exact stays ⟨tabled, client, expired⟩
  case elsewhere => exact lookups

/-- **The sweep is exact.**  In every state of the server, whatever the table of the connection
manager is and in whichever order the map is gone through, `CleanupTimeoutConnections` visits every
entry once and comes to its end; the entries it erases are those of connections that have been idle
for more than `timeout_seconds`, which are closed and taken from the event loop, and everything
else is as before. -/
theorem cleanup_exact {listenFd : Int} {actions : List Action}
    (ran : Transition.run (step config) (started listenFd) actions = some server)
    {table : Finmap fun _ : Int => Nat} (isOrder : FiniteMap.IsOrder table order) (now : Nat) :
    ∃ after,
      cleanupByIterator config now order { server with connections := table } =
          .returned (order.filter fun entry => !server.isIdle config now entry.2) after ∧
        cleanupTimeoutConnections config now order { server with connections := table } =
          .returned ⟨⟩ after ∧
        SweptExactly config now { server with connections := table } after := by
  have invariant := invariant_of_run ran
  let tabled : WebServer := { server with connections := table }
  have consistent : tabled.Consistent :=
    ⟨invariant.consistent.ready, invariant.consistent.opened, invariant.consistent.registered,
      invariant.consistent.listening⟩
  rcases sweeping_cleanupByIterator consistent invariant.free config now order with
    ⟨after, returns, sweeping⟩
  refine ⟨managerMutex.setHeld false after, returns, ?_, ?_⟩
  · rw [← map_cleanupByIterator, ← bind_pure_comp, Call.bind_of_returned returns]
    rfl
  · have swept : SweptExactly config now (managerMutex.setHeld true tabled) after :=
      sweeping.sweptExactly (consistent.locked true) isOrder
    exact ⟨swept.connections, swept.closed, swept.kept, swept.elsewhere⟩

/-- A table with one connection under two keys, and a key without a connection. -/
def repeatedTable : Finmap fun _ : Int => Nat :=
  ((∅ : Finmap fun _ : Int => Nat).insert 9 0).insert 5 0 |>.insert 6 1

theorem cleanup_exact_twice :
    ∃ server after,
      Transition.run (step {}) (started 4) [.arrive, .ioEvent 4 epollRead
        ⟨.accepted 9, none, .done, 1⟩ ⟨.endOfFile, .done, .accepted 0, .done, 1⟩] = some server ∧
      cleanupTimeoutConnections {} 32 [⟨5, 0⟩, ⟨6, 1⟩, ⟨9, 0⟩]
          { server with connections := repeatedTable } = .returned ⟨⟩ after ∧
      SweptExactly {} 32 { server with connections := repeatedTable } after := by
  have ran : ∃ server, Transition.run (step {}) (started 4) [.arrive, .ioEvent 4 epollRead
      ⟨.accepted 9, none, .done, 1⟩ ⟨.endOfFile, .done, .accepted 0, .done, 1⟩] = some server :=
    ⟨_, rfl⟩
  have isOrder : FiniteMap.IsOrder repeatedTable [⟨5, 0⟩, ⟨6, 1⟩, ⟨9, 0⟩] := by decide
  rcases ran with ⟨server, ran⟩
  rcases cleanup_exact ran isOrder 32 with ⟨after, -, returns, exactly⟩
  exact ⟨server, after, ran, returns, exactly⟩

end PPServer.Server.WebServer
