import PPServer.Net.Removal
import PPServer.Server.Stepwise

/-!
# Callbacks that are destroyed while they run

`HandleIoEvent` runs a callback where it is stored, in the table of the event loop.  `Close` of the
connection removes the entry under the descriptor, and with it the callback, which is destroyed
while it is running.
-/

namespace PPServer.Server.WebServer

open Locking Net EventLoop

variable {config : Config} {server : WebServer} {id : Nat} {conn : Connection} {fd : Int}
variable {callback : Callback} {op : Connection.Op PUnit} {steps : Steps op}

/-- The callback is stored under the descriptor. -/
def Registered (fd : Int) (callback : Callback) (server : WebServer) : Prop :=
  server.descriptors.callbacks.lookup fd = some callback

/-- An operation of a connection leaves the entry of its descriptor in place at the points at
which it has not removed the descriptor. -/
theorem registered_settle_iff (registered : Registered conn.socketFd callback server) (id : Nat)
    {point : Connection} (grows : conn.Grows point) :
    Registered conn.socketFd callback (server.settle id conn point) ↔ ¬conn.Removes point := by
  rcases grows with ⟨added, effects⟩
  have removes_iff : conn.Removes point ↔ .removeFd conn.socketFd ∈ added := by
    constructor
    · rintro ⟨other, effects', removed⟩
      rwa [List.append_cancel_left (effects.trans effects')]
    · exact fun removed => ⟨added, effects.symm, removed⟩
  rw [removes_iff, Registered, settle, ← effects, List.drop_left, lookup_foldl_perform]
  split
  next removed => simp [removed]
  next kept => exact iff_of_true registered kept

/-- The callback of a client stays in place exactly if it neither closes the connection nor
blocks. -/
theorem along_client_iff (consistent : server.Consistent)
    (registered : Registered fd (.client id) server) (events : UInt32)
    (calls : Connection.SystemCalls) :
    Along (Registered fd (.client id))
        (onClientSteps id (Connection.callbackSteps events calls)) server ↔
      ∀ conn, server.clients[id]? = some conn →
        ¬(conn.ClosedBy events calls ∨ conn.BlockedBy events calls) := by
  rcases consistent.registered fd id registered with ⟨conn, client, opened, rfl⟩
  have ready := consistent.ready id conn client
  rw [along_onClient_iff client]
  have here : (∀ other, server.clients[id]? = some other →
      ¬(other.ClosedBy events calls ∨ other.BlockedBy events calls)) ↔
        ¬(conn.ClosedBy events calls ∨ conn.BlockedBy events calls) := by
    simp [client]
  rw [here, ← Connection.along_callback_iff ready opened]
  refine forall₂_congr fun point member => ?_
  exact registered_settle_iff registered id
    ((Connection.callback_grows events calls).from_start conn point member)

/-- **The callback that runs stays in the table** at every point exactly if it is not the callback
of a connection that it closes, or on which it blocks. -/
theorem callback_kept_iff {listenFd : Int} {actions : List Action}
    (ran : Transition.run (step config) (started listenFd) actions = some server)
    (registered : Registered fd callback server) (events : UInt32) (arrival : Arrival)
    (possible : server.Possible arrival.accept) (calls : Connection.SystemCalls) :
    Along (Registered fd callback) (handleIoEventSteps config fd events arrival calls) server ↔
      ∀ id conn, callback = .client id → server.clients[id]? = some conn →
        ¬(conn.ClosedBy events calls ∨ conn.BlockedBy events calls) := by
  have invariant := invariant_of_run ran
  cases callback with
  | newConnection =>
      rw [along_newConnection_iff registered]
      refine iff_of_true (fun point member => ?_) fun _ _ isClient => by cases isClient
      have arriving := along_arriving invariant.free possible point member
      exact (arriving.callbacks fd (invariant.consistent.listening fd registered)).trans registered
  | client id =>
      rw [along_callback_iff registered, along_client_iff invariant.consistent registered]
      constructor
      · rintro kept other conn ⟨⟩ client
        exact kept conn client
      · exact fun kept conn client => kept id conn rfl client

/-- A client connects. -/
def acceptsOne : List Action :=
  [.arrive,
    .ioEvent 3 epollRead ⟨.accepted 7, none, .done, 1⟩ ⟨.endOfFile, .done, .accepted 0, .done, 1⟩]

theorem run_acceptsOne :
    ∃ server, Transition.run (step {}) (started 3) acceptsOne = some server ∧
      Registered 7 (.client 0) server ∧ ∃ conn, server.clients[0]? = some conn :=
  ⟨_, rfl, show Finmap.lookup 7 _ = _ by decide, _, rfl⟩

/-- It sends a part of a request. -/
theorem callback_kept_iff_part :
    ∃ server, Transition.run (step {}) (started 3) acceptsOne = some server ∧
      (Along (Registered 7 (.client 0))
          (handleIoEventSteps {} 7 epollRead ⟨.interrupted, none, .done, 2⟩
            ⟨.received (bytes "GET ") (by decide) (by decide), .done, .accepted 0, .done, 2⟩)
          server ↔
        ∀ id conn, Callback.client 0 = .client id → server.clients[id]? = some conn →
          ¬(conn.ClosedBy epollRead
              ⟨.received (bytes "GET ") (by decide) (by decide), .done, .accepted 0, .done, 2⟩ ∨
            conn.BlockedBy epollRead
              ⟨.received (bytes "GET ") (by decide) (by decide), .done, .accepted 0, .done,
                2⟩)) := by
  rcases run_acceptsOne with ⟨server, ran, registered, -⟩
  exact ⟨server, ran,
    callback_kept_iff ran registered epollRead ⟨.interrupted, none, .done, 2⟩ trivial _⟩

/-- It closes its end. -/
theorem not_callback_kept_endOfFile :
    ∃ server, Transition.run (step {}) (started 3) acceptsOne = some server ∧
      Registered 7 (.client 0) server ∧ server.Possible .interrupted ∧
      ¬Along (Registered 7 (.client 0))
        (handleIoEventSteps {} 7 epollRead ⟨.interrupted, none, .done, 2⟩
          ⟨.endOfFile, .done, .accepted 0, .done, 2⟩) server := by
  rcases run_acceptsOne with ⟨server, ran, registered, conn, client⟩
  refine ⟨server, ran, registered, trivial, fun kept => ?_⟩
  rw [along_callback_iff registered,
    along_client_iff (invariant_of_run ran).consistent registered] at kept
  exact kept conn client (.inl (.inl ⟨by decide, trivial⟩))

end PPServer.Server.WebServer
