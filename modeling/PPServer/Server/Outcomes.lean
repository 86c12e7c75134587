import PPServer.Server.WebServer

/-!
# What the operations of the server come to

An operation of a connection changes the server by its effects: it leaves everything but the
watched events alone, or gives back the descriptor of the connection.  `HandleNewConnection`
ends in one of five ways.
-/

namespace PPServer.Server

open Locking Net EventLoop

namespace WebServer

variable {config : Config} {server next : WebServer} {id : Nat} {conn after : Connection}
variable {fd : Int}

/-! ## The parts of a step -/

/-- The same server with other events watched. -/
def watching (server : WebServer) (interest : Finmap fun _ : Int => UInt32) : WebServer :=
  { server with descriptors := { server.descriptors with interest } }

def replace (server : WebServer) (id : Nat) (conn : Connection) : WebServer :=
  { server with clients := server.clients.set id conn }

/-- The descriptor is given back, to the event loop and to the kernel. -/
def release (server : WebServer) (fd : Int) : WebServer :=
  { server with
    descriptors :=
      { server.descriptors with callbacks := server.descriptors.callbacks.erase fd }
    openFds := server.openFds.erase fd }

theorem perform_quiet (server : WebServer) {effect : Effect} (quiet : ¬effect.IsRelease) :
    ∃ interest, server.perform effect = server.watching interest := by
  cases effect with
  | updateFd fd read write => exact ⟨_, rfl⟩
  | removeFd fd | closeSocket fd => exact absurd trivial quiet
  | sent | onConnection | onDisconnection | error | readCallback | writeCallback
  | errorCallback => exact ⟨server.descriptors.interest, rfl⟩

theorem foldl_perform_quiet (server : WebServer) {effects : List Effect}
    (quiet : ∀ effect ∈ effects, ¬effect.IsRelease) :
    ∃ interest, effects.foldl perform server = server.watching interest := by
  induction effects generalizing server with
  | nil => exact ⟨server.descriptors.interest, rfl⟩
  | cons effect effects ih =>
      rw [List.forall_mem_cons] at quiet
      rcases server.perform_quiet quiet.1 with ⟨interest, performed⟩
      rcases ih (server.watching interest) quiet.2 with ⟨interest', rest⟩
      exact ⟨interest', by rw [List.foldl_cons, performed, rest]; rfl⟩

theorem settle_self (client : server.clients[id]? = some conn) :
    server.settle id conn conn = server := by
  rcases List.getElem?_eq_some_iff.mp client with ⟨inside, rfl⟩
  simp [settle, List.set_getElem_self]

/-! Effects of a connection have to do with neither the other connections nor the manager. -/

theorem foldl_perform_elsewhere (server : WebServer) (effects : List Effect) :
    (effects.foldl perform server).clients = server.clients ∧
      (effects.foldl perform server).connections = server.connections ∧
      (effects.foldl perform server).managerMutexHeld = server.managerMutexHeld := by
  induction effects generalizing server with
  | nil => exact ⟨rfl, rfl, rfl⟩
  | cons effect effects ih =>
      rw [List.foldl_cons]
      rcases ih (server.perform effect) with ⟨clients, connections, managerMutexHeld⟩
      rw [clients, connections, managerMutexHeld]
      cases effect <;> exact ⟨rfl, rfl, rfl⟩

theorem settle_clients (server : WebServer) (id : Nat) (conn after : Connection) :
    (server.settle id conn after).clients = server.clients.set id after :=
  (foldl_perform_elsewhere _ _).1

theorem settle_connections (server : WebServer) (id : Nat) (conn after : Connection) :
    (server.settle id conn after).connections = server.connections :=
  (foldl_perform_elsewhere _ _).2.1

theorem settle_managerMutexHeld (server : WebServer) (id : Nat) (conn after : Connection) :
    (server.settle id conn after).managerMutexHeld = server.managerMutexHeld :=
  (foldl_perform_elsewhere _ _).2.2

theorem settle_of_stays (server : WebServer) (id : Nat) (stays : conn.Stays after) :
    ∃ interest, server.settle id conn after = (server.replace id after).watching interest := by
  rcases stays.effects with ⟨quiet, effects, isQuiet⟩
  rw [settle, effects, List.drop_left]
  exact foldl_perform_quiet (server.replace id after) isQuiet

theorem settle_of_closes (server : WebServer) (id : Nat) (closes : conn.Closes after) :
    ∃ interest, server.settle id conn after =
      ((server.replace id after).release conn.socketFd).watching interest := by
  rcases closes.effects with ⟨before, behind, effects, isQuiet, isQuiet'⟩
  rcases foldl_perform_quiet (server.replace id after) isQuiet with ⟨interest, performed⟩
  rw [settle, effects, List.drop_left, List.foldl_append, List.foldl_cons, List.foldl_cons,
    show before.foldl perform { server with clients := server.clients.set id after } = _ from
      performed]
  exact foldl_perform_quiet _ isQuiet'

theorem onClient_of_returned (client : server.clients[id]? = some conn)
    {op : Connection.Op PUnit} (returns : op conn = .returned ⟨⟩ after) :
    onClient id op server = .returned ⟨⟩ (server.settle id conn after) := by
  simp only [onClient, client, returns, Outcome.mapState]

/-! ## How `HandleNewConnection` ends -/

/-- `accept4` has taken a connection off the queue. -/
def took (server : WebServer) (fd : Int) : WebServer :=
  { server with
    waiting := server.waiting - 1
    openFds := insert fd server.openFds }

def made (server : WebServer) (conn : Connection) : WebServer :=
  { server with clients := server.clients ++ [conn] }

/-- A connection with its handler. -/
def setUpClient (fd : Int) (now : Nat) : Connection :=
  { Connection.new fd now with hasHandler := true }

/-- A connection that has been set up and started. -/
def newClient (fd : Int) (now : Nat) : Connection :=
  { Connection.new fd now with
    hasHandler := true
    state := .connected
    effects := [.onConnection] }

/-- A connection that has been set up and destroyed. -/
def lostClient (fd : Int) (now : Nat) : Connection :=
  { Connection.new fd now with
    hasHandler := true
    state := .closing
    socketFd := -1
    effects := [.removeFd fd, .closeSocket fd] }

/-- A new connection is registered in the event loop, and started. -/
def registered (server : WebServer) (fd : Int) (now : Nat) : WebServer :=
  { (server.took fd).made (newClient fd now) with
    descriptors :=
      server.descriptors.addFd fd (epollRead ||| epollEt) (.client server.clients.length) }

/-- The number of connections that `accept4` takes off the queue. -/
def taken : Accept → Nat
  | .accepted _ | .aborted => 1
  | .interrupted | .wouldBlock | .failed => 0

/-- How `HandleNewConnection` ends. -/
inductive ArrivalOutcome (config : Config) (server : WebServer) :
    Arrival → Outcome Exception WebServer PUnit → Prop where
  | nothing {accept : Accept} {setupFailure : Option (SetupCall × Bytes)} {epollAdd : EpollAdd}
      {now : Nat} : (∀ fd, accept ≠ .accepted fd) →
      ArrivalOutcome config server ⟨accept, setupFailure, epollAdd, now⟩
        (.returned ⟨⟩ { server with waiting := server.waiting - taken accept })
  | unmade {fd : Int} {call : SetupCall} {text : Bytes} {epollAdd : EpollAdd} {now : Nat} :
      ArrivalOutcome config server ⟨.accepted fd, some (call, text), epollAdd, now⟩
        (.threw (.runtimeError (call.message ++ bytes ": " ++ text)) (server.took fd))
  | unwatched {fd : Int} {text : Bytes} {now : Nat}
      {interest : Finmap fun _ : Int => UInt32} :
      ArrivalOutcome config server ⟨.accepted fd, none, .failed text, now⟩
        (.threw (.runtimeError (bytes "Failed to add fd to epoll: " ++ text))
          ((((server.took fd).made (lostClient fd now)).release fd).watching interest))
  | untabled {fd : Int} {now : Nat} : config.maxConnections ≤ server.connections.keys.card →
      ArrivalOutcome config server ⟨.accepted fd, none, .done, now⟩
        (.returned ⟨⟩ (server.registered fd now))
  | added {fd : Int} {now : Nat} : server.connections.keys.card < config.maxConnections →
      ArrivalOutcome config server ⟨.accepted fd, none, .done, now⟩
        (.returned ⟨⟩
          { server.registered fd now with
            connections := server.connections.insert fd server.clients.length })

/-- An operation of the connection that has been made last. -/
theorem onClient_made (server : WebServer) {op : Connection.Op PUnit}
    (returns : op conn = .returned ⟨⟩ after) :
    onClient server.clients.length op (server.made conn) =
      .returned ⟨⟩ ((after.effects.drop conn.effects.length).foldl perform
        (server.made after)) := by
  have client : (server.made conn).clients[server.clients.length]? = some conn :=
    List.getElem?_concat_length
  rw [onClient_of_returned client returns, settle]
  simp [made]

theorem addConnection_returns (free : server.managerMutexHeld = false) (config : Config)
    (fd : Int) (id : Nat) :
    addConnection config fd id server =
      if config.maxConnections ≤ server.connections.keys.card then .returned false server
      else .returned true
        { server with connections := server.connections.insert fd id } := by
  rw [addConnection, lockGuard_of_free free]
  split
  next full => simp [managerMutex, Outcome.release, full, ← free]
  next room => simp [-bind_pure_comp, managerMutex, Outcome.release, room, free]

theorem setHandler_new (fd : Int) (now : Nat) :
    Connection.setHandler (Connection.new fd now) = .returned ⟨⟩ (setUpClient fd now) := rfl

theorem destroy_setUpClient {fd : Int} (valid : 0 ≤ fd) (now : Nat) :
    Connection.destroy (setUpClient fd now) = .returned ⟨⟩ (lostClient fd now) := by
  simp [Connection.destroy, Connection.new, setUpClient, lostClient, valid]

theorem start_setUpClient (fd : Int) (now : Nat) :
    Connection.start now (setUpClient fd now) = .returned ⟨⟩ (newClient fd now) := by
  simp [Connection.start, Connection.new, Connection.updateActivityTime, setUpClient, newClient]

/-- `HandleNewConnection` from `AddFd` on. -/
theorem register_outcome (free : server.managerMutexHeld = false) (valid : 0 ≤ fd) (now : Nat)
    (epollAdd : EpollAdd) :
    ArrivalOutcome config server ⟨.accepted fd, none, epollAdd, now⟩
      ((do
        unwinding (onClient server.clients.length Connection.destroy)
          (addFd fd (epollRead ||| epollEt) (.client server.clients.length) epollAdd)
        let _ ← addConnection config fd server.clients.length
        onClient server.clients.length (Connection.start now) : Op PUnit)
        ((server.took fd).made (setUpClient fd now))) := by
  cases epollAdd with
  | failed text =>
      have fails : addFd fd (epollRead ||| epollEt) (.client server.clients.length)
          (.failed text) ((server.took fd).made (setUpClient fd now)) =
            .threw (.runtimeError (bytes "Failed to add fd to epoll: " ++ text)) _ := rfl
      have destroys : onClient server.clients.length Connection.destroy
          ((server.took fd).made (setUpClient fd now)) = .returned ⟨⟩ _ :=
        onClient_made (server.took fd) (destroy_setUpClient valid now)
      rw [Call.bind_of_threw (unwinding_of_threw fails destroys)]
      exact .unwatched
  | done =>
      let watched : WebServer :=
        { server.took fd with
          descriptors := server.descriptors.addFd fd (epollRead ||| epollEt)
            (.client server.clients.length) }
      have watches : addFd fd (epollRead ||| epollEt) (.client server.clients.length) .done
          ((server.took fd).made (setUpClient fd now)) =
            .returned ⟨⟩ (watched.made (setUpClient fd now)) := rfl
      have freeAfter : (watched.made (setUpClient fd now)).managerMutexHeld = false := free
      have adds := addConnection_returns freeAfter config fd server.clients.length
      rw [Call.bind_of_returned (unwinding_of_returned watches)]
      split at adds
      next full =>
          have starts : onClient server.clients.length (Connection.start now)
              (watched.made (setUpClient fd now)) = .returned ⟨⟩ (server.registered fd now) :=
            onClient_made watched (start_setUpClient fd now)
          rw [Call.bind_of_returned adds, starts]
          exact .untabled full
      next room =>
          let tabled : WebServer :=
            { watched with
              connections := server.connections.insert fd server.clients.length }
          have tables : addConnection config fd server.clients.length
              (watched.made (setUpClient fd now)) =
                .returned true (tabled.made (setUpClient fd now)) := adds
          have starts : onClient server.clients.length (Connection.start now)
              (tabled.made (setUpClient fd now)) = .returned ⟨⟩
                { server.registered fd now with
                  connections := server.connections.insert fd server.clients.length } :=
            onClient_made tabled (start_setUpClient fd now)
          rw [Call.bind_of_returned tables, starts]
          exact .added (Nat.lt_of_not_le room)

theorem handleNewConnection_outcome (free : server.managerMutexHeld = false) (arrival : Arrival)
    (possible : server.Possible arrival.accept) :
    ArrivalOutcome config server arrival (handleNewConnection config arrival server) := by
  rcases arrival with ⟨accept, setupFailure, epollAdd, now⟩
  cases accept with
  | aborted | interrupted | wouldBlock | failed => exact .nothing (by simp)
  | accepted fd =>
      have valid : ¬fd < 0 := Int.not_lt.mpr possible.2.1
      have accepts : accept4 (.accepted fd) server = .returned fd (server.took fd) := rfl
      rw [handleNewConnection, Call.bind_of_returned accepts, if_neg valid]
      cases setupFailure with
      | some failure => exact .unmade
      | none =>
          have makes : makeConnection fd now none (server.took fd) =
              .returned server.clients.length ((server.took fd).made (Connection.new fd now)) :=
            rfl
          have setsUp : onClient server.clients.length Connection.setHandler
              ((server.took fd).made (Connection.new fd now)) =
                .returned ⟨⟩ ((server.took fd).made (setUpClient fd now)) :=
            onClient_made (server.took fd) (setHandler_new fd now)
          rw [Call.bind_of_returned makes, Call.bind_of_returned setsUp]
          exact register_outcome free possible.2.1 now epollAdd

end WebServer

end PPServer.Server
