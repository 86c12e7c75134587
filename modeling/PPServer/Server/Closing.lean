import PPServer.Net.Closing
import PPServer.Server.Stepwise

/-!
# Closing in a run of the server

The triggers of `Close` are the events of a connection, the two sweeps of the connection manager,
and the destruction of what is left when the server and its event loop go.
-/

namespace PPServer.Server.WebServer

open Locking Net EventLoop

variable {config : Config} {server next point : WebServer} {id other : Nat} {fd : Int}
variable {conn : Connection}

/-! ## Moments of a run -/

/-- The last owners of these connections are destroyed. -/
def destroyConnections (ids : List Nat) : Op PUnit :=
  ids.forM fun id => onClient id Connection.destroy

def destroyConnectionsSteps (ids : List Nat) : Steps (destroyConnections ids) :=
  .forM (fun id => onClientSteps id Connection.destroySteps) ids

/-- A state of the server in a run: between two steps, in the middle of one, which may block, or
when connections are destroyed at its end. -/
inductive Moment (config : Config) (start : WebServer) : WebServer → Prop where
  | between {actions : List Action} {server : WebServer} :
      Transition.run (step config) start actions = some server → Moment config start server
  | ioEvent {actions : List Action} {server point : WebServer} {fd : Int} {events : UInt32}
      {arrival : Arrival} {calls : Connection.SystemCalls} :
      Transition.run (step config) start actions = some server →
      server.Possible arrival.accept →
      point ∈ (handleIoEventSteps config fd events arrival calls).states server →
      Moment config start point
  | cleanup {actions : List Action} {server point : WebServer} {now : Nat}
      {order : List (Σ _ : Int, Nat)} :
      Transition.run (step config) start actions = some server →
      FiniteMap.IsOrder server.connections order →
      point ∈ (cleanupTimeoutConnectionsSteps config now order).states server →
      Moment config start point
  | closeAll {actions : List Action} {server point : WebServer}
      {order : List (Σ _ : Int, Nat)} :
      Transition.run (step config) start actions = some server →
      FiniteMap.IsOrder server.connections order →
      point ∈ (closeAllConnectionsSteps order).states server → Moment config start point
  | destroy {actions : List Action} {server point : WebServer} {ids : List Nat} :
      Transition.run (step config) start actions = some server →
      point ∈ (destroyConnectionsSteps ids).states server → Moment config start point

/-! ## One connection -/

/-- The connection was made with the descriptor, and is closed in order. -/
def OrderlyClient (id : Nat) (fd : Int) (server : WebServer) : Prop :=
  ∃ conn, server.clients[id]? = some conn ∧ conn.Orderly fd

theorem OrderlyClient.same (orderly : OrderlyClient id fd server)
    (clients : next.clients = server.clients) : OrderlyClient id fd next := by
  rwa [OrderlyClient, clients]

/-- An operation of some connection, if it is orderly for this one. -/
theorem OrderlyClient.onClient (orderly : OrderlyClient id fd server) {op : Connection.Op PUnit}
    {steps : Steps op} (along : ∀ conn : Connection, other = id → server.clients[id]? = some conn →
      conn.Orderly fd → Along (Connection.Orderly fd) steps conn) :
    Along (OrderlyClient id fd) (onClientSteps other steps) server := by
  rcases orderly with ⟨conn, client, isOrderly⟩
  cases isClient : server.clients[other]? with
  | none => simp [Along, onClientSteps, isClient]
  | some found =>
      rw [along_onClient_iff isClient]
      intro point member
      rw [OrderlyClient, settle_clients]
      change ∃ conn, (server.replace other point).clients[id]? = some conn ∧ _
      simp only [getElem?_replace isClient]
      by_cases same : other = id
      · subst same
        cases client.symm.trans isClient
        exact ⟨point, .inl ⟨rfl, rfl⟩, along conn rfl client isOrderly point member⟩
      · exact ⟨conn, .inr ⟨Ne.symm same, client⟩, isOrderly⟩

theorem orderly_closeClient (valid : 0 ≤ fd) (orderly : OrderlyClient id fd server) (other : Nat) :
    Along (OrderlyClient id fd) (onClientSteps other Connection.closeSteps) server :=
  orderly.onClient fun _ _ _ isOrderly => Connection.orderly_close isOrderly valid

/-! ## The points of a step -/

theorem orderly_cleanupEntry (valid : 0 ≤ fd) (orderly : OrderlyClient id fd server) (now : Nat)
    (entry : Σ _ : Int, Nat) :
    Along (OrderlyClient id fd) (cleanupEntrySteps config now entry) server := by
  have closes := orderly_closeClient valid orderly entry.2
  simp only [Along, cleanupEntrySteps, Steps.getBind]
  cases server.clients[entry.2]? with
  | none => exact List.forall_mem_nil _
  | some conn =>
      refine Along.ite (fun _ => .bind closes fun _ after returns => ?_) fun _ => .pure _ _
      exact .modify ((closes.of_returned orderly returns).same rfl)

theorem orderly_cleanup (valid : 0 ≤ fd) (orderly : OrderlyClient id fd server) (now : Nat)
    (order : List (Σ _ : Int, Nat)) :
    Along (OrderlyClient id fd) (cleanupTimeoutConnectionsSteps config now order) server :=
  .scope (fun _ _ orderly => orderly.same rfl) orderly
    (.forM (fun _ entry orderly => orderly_cleanupEntry valid orderly now entry) order
      (orderly.same rfl))

theorem orderly_closeAll (valid : 0 ≤ fd) (orderly : OrderlyClient id fd server)
    (order : List (Σ _ : Int, Nat)) :
    Along (OrderlyClient id fd) (closeAllConnectionsSteps order) server := by
  have locked : OrderlyClient id fd (managerMutex.setHeld true server) := orderly.same rfl
  have closes : Along (OrderlyClient id fd)
      (.forM (fun entry => onClientSteps entry.2 Connection.closeSteps) order)
      (managerMutex.setHeld true server) :=
    .forM (fun _ entry orderly => orderly_closeClient valid orderly entry.2) order locked
  exact .scope (fun _ _ orderly => orderly.same rfl) orderly (.bind closes fun _ _ returns =>
    .modify ((closes.of_returned locked returns).same rfl))

theorem orderly_destroyConnections (valid : 0 ≤ fd) (orderly : OrderlyClient id fd server)
    (ids : List Nat) : Along (OrderlyClient id fd) (destroyConnectionsSteps ids) server :=
  .forM (fun _ _ orderly => orderly.onClient fun _ _ _ isOrderly =>
    Connection.orderly_destroy isOrderly valid) ids orderly

theorem orderly_ioEvent {events : UInt32} {arrival : Arrival} {calls : Connection.SystemCalls}
    {other : Int} (valid : 0 ≤ fd) (invariant : server.Invariant)
    (orderly : OrderlyClient id fd server) (possible : server.Possible arrival.accept) :
    Along (OrderlyClient id fd) (handleIoEventSteps config other events arrival calls) server := by
  cases callback : server.descriptors.callbacks.lookup other with
  | none => exact along_unregistered callback
  | some registered =>
      cases registered with
      | newConnection =>
          rw [along_newConnection_iff callback]
          refine (along_arriving invariant.free possible).mono fun point arriving => ?_
          rcases orderly with ⟨conn, client, isOrderly⟩
          rcases arriving.clients with ⟨made, clients, -⟩
          refine ⟨conn, ?_, isOrderly⟩
          rw [clients, List.getElem?_append_left (List.getElem?_eq_some_iff.mp client).1, client]
      | client found =>
          rw [along_callback_iff callback]
          rcases invariant.consistent.registered other found callback with
            ⟨conn, client, opened, -⟩
          refine orderly.onClient fun conn' same client' isOrderly => ?_
          subst same
          cases client.symm.trans client'
          have ready := invariant.consistent.ready found conn client
          exact Connection.orderly_callback isOrderly valid ready opened events calls

/-! ## Runs -/

/-- An operation that comes to an end leaves the connection as its points do. -/
theorem orderly_of_ending {op : Op PUnit} {steps : Steps op}
    (along : Along (OrderlyClient id fd) steps server) (orderly : OrderlyClient id fd server)
    (ends : (op server).ending = some next) : OrderlyClient id fd next := by
  have atEnd := along.at_end orderly
  rwa [(Outcome.ending_eq_some_iff.mp ends).state_eq] at atEnd

theorem keeps_orderly (config : Config) (valid : 0 ≤ fd) :
    Transition.Keeps (step config) (fun _ => True) fun server =>
      server.Invariant ∧ OrderlyClient id fd server := by
  intro server action next _ taken holds
  rcases holds with ⟨invariant, orderly⟩
  refine ⟨keeps_invariant config server action next trivial taken invariant, ?_⟩
  cases action with
  | arrive =>
      cases taken
      exact orderly.same rfl
  | ioEvent other events arrival calls =>
      rcases Option.ite_none_right_eq_some.mp taken with ⟨possible, ends⟩
      exact orderly_of_ending (orderly_ioEvent valid invariant orderly possible) orderly ends
  | cleanupTimeoutConnections now order =>
      rcases Option.ite_none_right_eq_some.mp taken with ⟨-, ends⟩
      exact orderly_of_ending (orderly_cleanup valid orderly now order) orderly ends
  | closeAllConnections order =>
      rcases Option.ite_none_right_eq_some.mp taken with ⟨-, ends⟩
      exact orderly_of_ending (orderly_closeAll valid orderly order) orderly ends

theorem Moment.orderly (moment : Moment config server point) (valid : 0 ≤ fd)
    (invariant : server.Invariant) (orderly : OrderlyClient id fd server) :
    OrderlyClient id fd point := by
  have kept {actions : List Action} {last : WebServer}
      (ran : Transition.run (step config) server actions = some last) :
      last.Invariant ∧ OrderlyClient id fd last :=
    (keeps_orderly config valid).run ran (fun _ _ => trivial) ⟨invariant, orderly⟩
  cases moment with
  | between ran => exact (kept ran).2
  | ioEvent ran possible member =>
      rcases kept ran with ⟨invariant, orderly⟩
      exact orderly_ioEvent valid invariant orderly possible _ member
  | cleanup ran _ member => exact orderly_cleanup valid (kept ran).2 _ _ _ member
  | closeAll ran _ member => exact orderly_closeAll valid (kept ran).2 _ _ member
  | destroy ran member => exact orderly_destroyConnections valid (kept ran).2 _ _ member

theorem orderly_newClient (fd : Int) (now : Nat) : (newClient fd now).Orderly fd where
  hasHandler := rfl
  unclosed _ := ⟨rfl, rfl⟩
  begun := List.nil_prefix
  done closed := by cases closed

theorem orderly_lostClient (fd : Int) (now : Nat) : (lostClient fd now).Orderly fd where
  hasHandler := rfl
  unclosed opened := absurd opened (not_isOpen_lostClient fd now)
  begun := List.prefix_append _ [Effect.onDisconnection]
  done closed := by cases closed

/-- A connection that `HandleNewConnection` has made, whether it can be watched or not. -/
theorem orderly_of_newConnection {lfd : Int} {events : UInt32} {epollAdd : EpollAdd} {now : Nat}
    {calls : Connection.SystemCalls} (invariant : server.Invariant)
    (callback : server.descriptors.callbacks.lookup lfd = some .newConnection)
    (taken : step config server (.ioEvent lfd events ⟨.accepted fd, none, epollAdd, now⟩ calls) =
      some next) : 0 ≤ fd ∧ OrderlyClient server.clients.length fd next := by
  rcases Option.ite_none_right_eq_some.mp taken with ⟨possible, ends⟩
  refine ⟨possible.2.1, ?_⟩
  rw [Outcome.ending_eq_some_iff, handleIoEvent, Call.get_bind_apply, callback] at ends
  have final := final_attempt_iff.mp ends
  have outcome : ArrivalOutcome config server _ _ :=
    handleNewConnection_outcome invariant.free ⟨.accepted fd, none, epollAdd, now⟩ possible
  generalize handleNewConnection config ⟨.accepted fd, none, epollAdd, now⟩ server = ended
    at outcome final
  cases outcome with
  | nothing none => exact absurd rfl (none fd)
  | unwatched =>
      cases final
      exact ⟨_, List.getElem?_concat_length, orderly_lostClient fd now⟩
  | untabled | added =>
      cases final
      exact ⟨_, List.getElem?_concat_length, orderly_newClient fd now⟩

/-- **Closing happens once.**  In every run of the server, from the call of `HandleNewConnection`
on that has accepted the descriptor `fd`, the connection it has made is taken from the event loop,
closed and reported closed at most once, on `fd` only; and once `Close` has come to its end, all
three have happened. -/
theorem closes_once {listenFd lfd : Int} {events : UInt32} {epollAdd : EpollAdd} {now : Nat}
    {calls : Connection.SystemCalls} {actions : List Action}
    (ran : Transition.run (step config) (started listenFd) actions = some server)
    (callback : server.descriptors.callbacks.lookup lfd = some .newConnection)
    (taken : step config server (.ioEvent lfd events ⟨.accepted fd, none, epollAdd, now⟩ calls) =
      some next)
    (moment : Moment config next point) :
    ∃ conn, point.clients[server.clients.length]? = some conn ∧ conn.ClosesOnce fd := by
  have invariant := invariant_of_run ran
  have nextInvariant := keeps_invariant config server _ next trivial taken invariant
  rcases orderly_of_newConnection invariant callback taken with ⟨valid, orderly⟩
  rcases moment.orderly valid nextInvariant orderly with ⟨conn, client, isOrderly⟩
  exact ⟨conn, client, isOrderly.closesOnce valid⟩

/-- A client that hangs up: the read handler closes its connection, and the error handler and
`CloseAllConnections` do so again. -/
def hangsUp : List Action :=
  [.ioEvent 9 (epollRead ||| epollError) ⟨.interrupted, none, .done, 2⟩
      ⟨.endOfFile, .done, .accepted 0, .done, 2⟩,
    .closeAllConnections [⟨9, 0⟩]]

theorem closes_once_hangsUp :
    ∃ server next point conn,
      Transition.run (step {}) (started 4) [.arrive] = some server ∧
      step {} server (.ioEvent 4 epollRead ⟨.accepted 9, none, .done, 1⟩
        ⟨.endOfFile, .done, .accepted 0, .done, 1⟩) = some next ∧
      Transition.run (step {}) next hangsUp = some point ∧
      point.clients[server.clients.length]? = some conn ∧ conn.state = .disconnected ∧
      conn.ClosesOnce 9 := by
  have ran : ∃ server next point conn,
      Transition.run (step {}) (started 4) [.arrive] = some server ∧
      server.descriptors.callbacks.lookup 4 = some .newConnection ∧
      step {} server (.ioEvent 4 epollRead ⟨.accepted 9, none, .done, 1⟩
        ⟨.endOfFile, .done, .accepted 0, .done, 1⟩) = some next ∧
      Transition.run (step {}) next hangsUp = some point ∧
      point.clients[server.clients.length]? = some conn ∧ conn.state = .disconnected :=
    ⟨_, _, _, _, rfl, by decide, rfl, rfl, rfl, rfl⟩
  rcases ran with ⟨server, next, point, conn, ran, callback, taken, toPoint, client, state⟩
  rcases closes_once ran callback taken (.between toPoint) with ⟨other, client', once⟩
  cases client.symm.trans client'
  exact ⟨server, next, point, conn, ran, taken, toPoint, client, state, once⟩

end PPServer.Server.WebServer
