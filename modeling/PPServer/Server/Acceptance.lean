import PPServer.Server.ConnectionLimit

/-!
# What is left of a connection that cannot be accepted

`HandleNewConnection` can fail at three points after `accept4` has given it a descriptor: the
constructor of the connection throws, and then nobody owns the descriptor; `AddFd` throws, and
then the destructor of the connection closes it; or `AddConnection` returns false, and then the
connection is served without being in the table.
-/

namespace PPServer.Server

open Locking Net EventLoop

namespace WebServer

variable {config : Config} {server next : WebServer} {fd : Int} {arrival : Arrival}

/-- The constructor or `AddFd` throws, or `AddConnection` returns false. -/
def Fails (config : Config) (server : WebServer) (arrival : Arrival) : Prop :=
  arrival.setupFailure ≠ none ∨ arrival.epollAdd ≠ .done ∨
    config.maxConnections ≤ server.connections.keys.card

/-- The descriptor is closed, and neither the event loop nor the kernel nor the table of the
connection manager refers to it. -/
structure Forgets (server : WebServer) (fd : Int) : Prop where
  closed : fd ∉ server.openFds
  callbacks : fd ∉ server.descriptors.callbacks
  interest : fd ∉ server.descriptors.interest
  connections : fd ∉ server.connections

/-- The server after `AddFd` has failed and the connection has been destroyed. -/
def abandoned (server : WebServer) (fd : Int) (now : Nat) : WebServer :=
  (((server.took fd).made (lostClient fd now)).perform (.removeFd fd)).perform (.closeSocket fd)

theorem handleNewConnection_unwatched (valid : 0 ≤ fd) (text : Bytes) (now : Nat) :
    handleNewConnection config ⟨.accepted fd, none, .failed text, now⟩ server =
      .threw (.runtimeError (bytes "Failed to add fd to epoll: " ++ text))
        (server.abandoned fd now) := by
  have accepts : accept4 (.accepted fd) server = .returned fd (server.took fd) := rfl
  have makes : makeConnection fd now none (server.took fd) =
      .returned server.clients.length ((server.took fd).made (Connection.new fd now)) := rfl
  have setsUp : onClient server.clients.length Connection.setHandler
      ((server.took fd).made (Connection.new fd now)) =
        .returned ⟨⟩ ((server.took fd).made (setUpClient fd now)) :=
    onClient_made (server.took fd) (setHandler_new fd now)
  have fails : addFd fd (epollRead ||| epollEt) (.client server.clients.length)
      (.failed text) ((server.took fd).made (setUpClient fd now)) =
        .threw (.runtimeError (bytes "Failed to add fd to epoll: " ++ text)) _ := rfl
  have destroys : onClient server.clients.length Connection.destroy
      ((server.took fd).made (setUpClient fd now)) = .returned ⟨⟩ (server.abandoned fd now) :=
    onClient_made (server.took fd) (destroy_setUpClient valid now)
  rw [handleNewConnection, Call.bind_of_returned accepts, if_neg (Int.not_lt.mpr valid),
    Call.bind_of_returned makes, Call.bind_of_returned setsUp]
  exact Call.bind_of_threw (unwinding_of_threw fails destroys) _

/-- A connection that is destroyed leaves nothing behind but an older entry in the table. -/
theorem forgets_abandoned_iff (now : Nat) :
    (server.abandoned fd now).Forgets fd ↔ fd ∉ server.connections := by
  constructor
  · intro forgets
    exact forgets.connections
  · intro absent
    exact
      { closed := Finset.notMem_erase _ _
        callbacks := Finmap.notMem_erase_self
        interest := Finmap.notMem_erase_self
        connections := absent }

/-- **Accepting is not all-or-nothing.**  Where `HandleNewConnection` fails after it has been given
a descriptor, it leaves no trace of it exactly if it is `AddFd` that fails, and the table has no
entry from an earlier use of the descriptor. -/
theorem handleNewConnection_forgets_iff {listenFd : Int} {actions : List Action}
    (ran : Transition.run (step config) (started listenFd) actions = some server)
    (possible : server.Possible arrival.accept) (accepted : arrival.accept = .accepted fd)
    (fails : Fails config server arrival) :
    ∃ next, (handleNewConnection config arrival server).Final next ∧
      (next.Forgets fd ↔ Unwatched arrival ∧ fd ∉ server.connections) := by
  rcases arrival with ⟨accept, setupFailure, epollAdd, now⟩
  obtain rfl : accept = .accepted fd := accepted
  have ends : ArrivalOutcome config server ⟨.accepted fd, setupFailure, epollAdd, now⟩ _ :=
    handleNewConnection_outcome (invariant_of_run ran).free _ possible
  generalize ended : handleNewConnection config ⟨.accepted fd, setupFailure, epollAdd, now⟩ server =
    outcome at ends ⊢
  have stillOpen : fd ∈ insert fd server.openFds := Finset.mem_insert_self ..
  cases ends with
  | nothing notAccepted => exact absurd rfl (notAccepted fd)
  | unmade =>
      -- Nobody closes the descriptor.
      refine ⟨_, rfl, iff_of_false (fun forgets => forgets.closed stillOpen) ?_⟩
      rintro ⟨⟨made, -⟩, -⟩
      cases made
  | unwatched =>
      refine ⟨server.abandoned fd now, ?_, ?_⟩
      · rw [handleNewConnection_unwatched possible.2.1] at ended
        rw [← ended]
        rfl
      · rw [forgets_abandoned_iff]
        exact (and_iff_right ⟨rfl, by simp⟩).symm
  | untabled | added =>
      exact ⟨_, rfl, iff_of_false (fun forgets => forgets.closed stillOpen)
        fun both => both.1.2 rfl⟩

/-- `AddFd` fails on the first connection. -/
theorem handleNewConnection_forgets_iff_unwatched :
    ∃ next, (handleNewConnection ⟨10000, 30⟩
        ⟨.accepted 7, none, .failed (bytes "Cannot allocate memory"), 1⟩
          { started 3 with waiting := 1 }).Final next ∧
      (next.Forgets 7 ↔ Unwatched ⟨.accepted 7, none, .failed (bytes "Cannot allocate memory"), 1⟩ ∧
        7 ∉ (started 3).connections) :=
  handleNewConnection_forgets_iff
    (rfl : Transition.run (step ⟨10000, 30⟩) (started 3) [.arrive] = _)
    (by decide) rfl (.inr (.inl (by simp)))

/-- A client that resets its connection at once makes `getpeername` fail, and its descriptor is
never closed. -/
theorem not_forgets_reset :
    ∃ server next, Transition.run (step ⟨10000, 30⟩) (started 3) [.arrive] = some server ∧
      server.Possible (.accepted 7) ∧
      Fails ⟨10000, 30⟩ server
        ⟨.accepted 7, some (.getpeername, bytes "Transport endpoint is not connected"), .done, 1⟩ ∧
      (handleNewConnection ⟨10000, 30⟩
        ⟨.accepted 7, some (.getpeername, bytes "Transport endpoint is not connected"), .done, 1⟩
          server).Final next ∧
      ¬next.Forgets 7 := by
  refine ⟨_, _, rfl, by decide, .inl (by simp), rfl, fun forgets => forgets.closed ?_⟩
  exact Finset.mem_insert_self ..

end WebServer

end PPServer.Server
