import PPServer.Net.Exchange
import PPServer.Server.Registrations

/-!
# One connection among many

What becomes of a connection is settled by the events that its own callback is called for and by
the calls of its `Close`.  The other clients, the listen queue and the table have no other part in
it, so a run of the server is, for each of its connections, a run of that connection alone.  What
holds of new connections and is kept by their turns then holds of all connections at all times.
-/

namespace PPServer.Server.WebServer

open Locking Net Transition EventLoop

variable {config : Config} {server next last : WebServer} {id other : Nat} {conn : Connection}

/-- The turns of a connection in a step of the server. -/
def turnsOf (config : Config) (id : Nat) (server : WebServer) : Action → List Connection.Turn
  | .arrive => []
  | .ioEvent fd events _ calls =>
      if server.descriptors.callbacks.lookup fd = some (.client id) then [.event events calls]
      else []
  | .cleanupTimeoutConnections now order =>
      order.flatMap fun entry =>
        if entry.2 = id ∧ server.clients[id]?.any (fun conn => TimedOut config now conn) then
          [.close]
        else []
  | .closeAllConnections order =>
      order.flatMap fun entry => if entry.2 = id then [.close] else []

/-- A loop over the table, of which each pass comes to some turns of the connection. -/
theorem foldl_turns {pass : WebServer → (Σ _ : Int, Nat) → WebServer}
    {turns : (Σ _ : Int, Nat) → List Connection.Turn} {holds : WebServer → Connection → Prop}
    (each : ∀ server conn entry, holds server conn →
      ∃ after, run Connection.turn conn (turns entry) = some after ∧
        holds (pass server entry) after)
    (order : List (Σ _ : Int, Nat)) (start : holds server conn) :
    ∃ after, run Connection.turn conn (order.flatMap turns) = some after ∧
      holds (order.foldl pass server) after := by
  induction order generalizing server conn with
  | nil => exact ⟨conn, run_nil_iff.mpr rfl, start⟩
  | cons entry order ih =>
      rcases each server conn entry start with ⟨middle, toMiddle, holdsMiddle⟩
      rcases ih holdsMiddle with ⟨after, fromMiddle, holdsAfter⟩
      exact ⟨after, run_append_iff.mpr ⟨middle, toMiddle, fromMiddle⟩, holdsAfter⟩

/-- What a pass over the table of the manager needs to know of the connection. -/
structure Seen (id lastActivityTime : Nat) (server : WebServer) (conn : Connection) : Prop where
  consistent : server.Consistent
  client : server.clients[id]? = some conn
  lastActivityTime : conn.lastActivityTime = lastActivityTime

variable {lastActivityTime : Nat}

/-- Closing another connection leaves this one as it is, and closing this one is its turn. -/
theorem Seen.closeClient (seen : Seen id lastActivityTime server conn) (other : Nat) :
    ∃ after,
      run Connection.turn conn (if other = id then [.close] else []) = some after ∧
        Seen id lastActivityTime (server.closeClient other) after := by
  have consistent := seen.consistent.closeClient other
  have unlocked := (seen.consistent.ready id conn seen.client).unlocked
  rcases seen.consistent.closeClient_cases other with
    ⟨found, interest, isClient, opened, closed⟩ | ⟨notOpen, same⟩
  · have clients : (server.closeClient other).clients = server.clients.set other found.closed :=
      closed ▸ rfl
    by_cases isThis : other = id
    · subst isThis
      cases seen.client.symm.trans isClient
      have inside := (List.getElem?_eq_some_iff.mp isClient).1
      have turns : Connection.turn conn .close = some conn.closed := by
        rw [Connection.turn, Connection.close_of_open opened unlocked, Outcome.ending]
      refine ⟨conn.closed, ?_, consistent, ?_, seen.lastActivityTime⟩
      · rw [if_pos rfl]
        exact run_cons_iff.mpr ⟨conn.closed, turns, run_nil_iff.mpr rfl⟩
      · rw [clients, List.getElem?_set_self inside]
    · refine ⟨conn, ?_, consistent, ?_, seen.lastActivityTime⟩
      · rw [if_neg isThis]
        exact run_nil_iff.mpr rfl
      · rw [clients, List.getElem?_set_ne isThis]
        exact seen.client
  · refine ⟨conn, ?_, consistent, same.symm ▸ seen.client, seen.lastActivityTime⟩
    split
    next isThis =>
        subst isThis
        have turns : Connection.turn conn .close = some conn := by
          rw [Connection.turn, Connection.close_of_closed (notOpen conn seen.client),
            Outcome.ending]
        exact run_cons_iff.mpr ⟨conn, turns, run_nil_iff.mpr rfl⟩
    next => exact run_nil_iff.mpr rfl

/-- A pass of the loop of `CleanupTimeoutConnections`. -/
theorem Seen.sweepEntry {now : Nat} {timedOut : Bool}
    (seen : Seen id lastActivityTime server conn)
    (isTimedOut : timedOut = true ↔ config.timeoutSeconds < (now : Int) - lastActivityTime)
    (entry : Σ _ : Int, Nat) :
    ∃ after,
      run Connection.turn conn (if entry.2 = id ∧ timedOut then [.close] else []) = some after ∧
        Seen id lastActivityTime (server.sweepEntry config now entry) after := by
  have consistent := seen.consistent.sweepEntry config now entry
  rcases seen.closeClient entry.2 with ⟨after, closes, seenAfter⟩
  by_cases isThis : entry.2 = id
  · have isClient := seen.client
    rw [← isThis] at isClient
    have decides : TimedOut config now conn ↔ timedOut = true := by
      rw [isTimedOut, TimedOut, seen.lastActivityTime]
    rw [if_pos isThis] at closes
    by_cases isOut : timedOut = true
    · refine ⟨after, ?_, consistent, ?_, seenAfter.lastActivityTime⟩
      · rwa [if_pos ⟨isThis, isOut⟩]
      · simp only [WebServer.sweepEntry, isClient, if_pos (decides.mpr isOut)]
        exact seenAfter.client
    · refine ⟨conn, ?_, consistent, ?_, seen.lastActivityTime⟩
      · rw [if_neg fun both => isOut both.2]
        exact run_nil_iff.mpr rfl
      · simp only [WebServer.sweepEntry, isClient, if_neg (mt decides.mp isOut)]
        exact seen.client
  · rw [if_neg isThis, run_nil_iff] at closes
    subst closes
    refine ⟨conn, ?_, consistent, ?_, seen.lastActivityTime⟩
    · rw [if_neg fun both => isThis both.1]
      exact run_nil_iff.mpr rfl
    · rw [WebServer.sweepEntry]
      split
      next =>
          split
          next => exact seenAfter.client
          next => exact seen.client
      next => exact seen.client

/-- `HandleNewConnection` leaves the connections alone that there are. -/
theorem clients_of_arrival {arrival : Arrival} {outcome : Outcome Exception WebServer PUnit}
    (ends : ArrivalOutcome config server arrival outcome) (final : outcome.Final next)
    (client : server.clients[id]? = some conn) : next.clients[id]? = some conn := by
  have grown (made : Connection) : (server.clients ++ [made])[id]? = some conn := by
    have inside := (List.getElem?_eq_some_iff.mp client).1
    rw [List.getElem?_append_left inside]
    exact client
  cases ends with
  | nothing | unmade =>
      cases final
      exact client
  | unwatched | untabled | added =>
      cases final
      exact grown _

/-- An event is a turn of the connection whose callback it calls. -/
theorem Invariant.turn_of_event {fd : Int} {events : UInt32} {arrival : Arrival}
    {calls : Connection.SystemCalls} (invariant : server.Invariant)
    (possible : server.Possible arrival.accept)
    (final : (handleIoEvent config fd events arrival calls server).Final next)
    (client : server.clients[id]? = some conn) :
    ∃ after,
      run Connection.turn conn (turnsOf config id server (.ioEvent fd events arrival calls)) =
        some after ∧
      next.clients[id]? = some after := by
  rw [turnsOf]
  rcases invariant.consistent.final_handleIoEvent final with ⟨callback, rfl⟩ |
    ⟨callback, arrives⟩ | ⟨called, found, after, callback, isClient, rfl, -, finalAfter⟩
  · rw [callback, if_neg (by simp)]
    exact ⟨conn, run_nil_iff.mpr rfl, client⟩
  · rw [callback, if_neg (by simp)]
    have outcome : ArrivalOutcome config server arrival _ :=
      handleNewConnection_outcome invariant.free arrival possible
    exact ⟨conn, run_nil_iff.mpr rfl, clients_of_arrival outcome arrives client⟩
  · rw [callback, settle_clients]
    by_cases same : called = id
    · subst same
      cases client.symm.trans isClient
      have inside := (List.getElem?_eq_some_iff.mp client).1
      have turns : Connection.turn conn (.event events calls) = some after :=
        Outcome.ending_eq_some_iff.mpr finalAfter
      rw [if_pos rfl, List.getElem?_set_self inside]
      exact ⟨after, run_cons_iff.mpr ⟨after, turns, run_nil_iff.mpr rfl⟩, rfl⟩
    · have differs : some (Callback.client called) ≠ some (.client id) := by simpa using same
      rw [if_neg differs, List.getElem?_set_ne same]
      exact ⟨conn, run_nil_iff.mpr rfl, client⟩

/-- To a connection, a step of the server is what it does to that connection. -/
theorem projects_client (config : Config) (id : Nat) :
    Projects (step config) Connection.turn (fun server => server.clients[id]?)
      (turnsOf config id) Invariant where
  keeps := keeps_invariant config
  goesOn server action next conn taken invariant client := by
    have free : managerMutex.held server = false := invariant.free
    have locked := invariant.consistent.locked true
    have seen : Seen id conn.lastActivityTime (managerMutex.setHeld true server) conn :=
      ⟨locked, client, rfl⟩
    cases action with
    | arrive =>
        cases taken
        exact ⟨conn, run_nil_iff.mpr rfl, client⟩
    | ioEvent fd events arrival calls =>
        rcases Option.ite_none_right_eq_some.mp taken with ⟨possible, ends⟩
        exact invariant.turn_of_event possible (Outcome.ending_eq_some_iff.mp ends) client
    | cleanupTimeoutConnections now order =>
        cases step_cases invariant.consistent invariant.free taken with
        | cleanup =>
            have timedOut : server.clients[id]?.any (fun conn => TimedOut config now conn) = true ↔
                config.timeoutSeconds < (now : Int) - conn.lastActivityTime := by
              have client' : server.clients[id]? = some conn := client
              rw [client', Option.any_some]
              exact decide_eq_true_iff
            rcases foldl_turns (fun _ _ entry known => known.sweepEntry timedOut entry) order
              seen with ⟨after, turns, seenAfter⟩
            exact ⟨after, turns, seenAfter.client⟩
    | closeAllConnections order =>
        cases step_cases invariant.consistent invariant.free taken with
        | closeAll =>
            rcases foldl_turns (fun _ _ (entry : Σ _ : Int, Nat) known =>
              known.closeClient entry.2) order seen with ⟨after, turns, seenAfter⟩
            exact ⟨after, turns, seenAfter.client⟩

/-- **Connections are isolated.**  From any state that the server comes to, a run of the server is
for each of its connections a run of that connection alone, through the turns it is given. -/
theorem client_of_run {listenFd : Int} {actions more : List Action}
    (ran : run (step config) (started listenFd) actions = some server)
    (goesOn : run (step config) server more = some last)
    (client : server.clients[id]? = some conn) :
    ∃ after,
      run Connection.turn conn (seenAlong (step config) (turnsOf config id) server more) =
        some after ∧
      last.clients[id]? = some after :=
  (projects_client config id).run goesOn (invariant_of_run ran) client

/-- One of two clients hangs up, and the server is closed with the other. -/
theorem client_of_run_second :
    ∃ server last conn,
      run (step {}) (started 3) [.arrive, .arrive,
        .ioEvent 3 epollRead ⟨.accepted 7, none, .done, 1⟩
          ⟨.endOfFile, .done, .accepted 0, .done, 1⟩,
        .ioEvent 3 epollRead ⟨.accepted 8, none, .done, 2⟩
          ⟨.endOfFile, .done, .accepted 0, .done, 2⟩] = some server ∧
      run (step {}) server [
        .ioEvent 7 epollRead ⟨.wouldBlock, none, .done, 3⟩
          ⟨.endOfFile, .done, .accepted 0, .done, 3⟩,
        .closeAllConnections [⟨7, 0⟩, ⟨8, 1⟩]] = some last ∧
      server.clients[1]? = some conn ∧
      ∃ after, Connection.turn conn .close = some after ∧ last.clients[1]? = some after := by
  let more : List Action := [
    .ioEvent 7 epollRead ⟨.wouldBlock, none, .done, 3⟩ ⟨.endOfFile, .done, .accepted 0, .done, 3⟩,
    .closeAllConnections [⟨7, 0⟩, ⟨8, 1⟩]]
  have ran : ∃ server last conn,
      run (step {}) (started 3) [.arrive, .arrive,
        .ioEvent 3 epollRead ⟨.accepted 7, none, .done, 1⟩
          ⟨.endOfFile, .done, .accepted 0, .done, 1⟩,
        .ioEvent 3 epollRead ⟨.accepted 8, none, .done, 2⟩
          ⟨.endOfFile, .done, .accepted 0, .done, 2⟩] = some server ∧
      run (step {}) server more = some last ∧ server.clients[1]? = some conn ∧
      seenAlong (step {}) (turnsOf {} 1) server more = [.close] :=
    ⟨_, _, _, rfl, rfl, rfl, rfl⟩
  rcases ran with ⟨server, last, conn, ran, goesOn, client, turns⟩
  rcases client_of_run ran goesOn client with ⟨after, closes, isAfter⟩
  rw [turns] at closes
  rcases run_cons_iff.mp closes with ⟨next, taken, rest⟩
  rw [run_nil_iff] at rest
  exact ⟨server, last, conn, ran, goesOn, client, after, rest ▸ taken, isAfter⟩

/-! ## All connections -/

/-- A connection that `HandleNewConnection` has just made. -/
inductive Made : Connection → Prop where
  | started (fd : Int) (now : Nat) : 0 ≤ fd → Made (newClient fd now)
  /-- The event loop could not watch it. -/
  | lost (fd : Int) (now : Nat) : 0 ≤ fd → Made (lostClient fd now)

theorem length_closeClient (server : WebServer) (id : Nat) :
    (server.closeClient id).clients.length = server.clients.length := by
  rw [closeClient]
  split
  next =>
      split
      next => rw [settle_clients, List.length_set]
      next => rfl
  next => rfl

theorem length_sweepEntry (config : Config) (now : Nat) (server : WebServer)
    (entry : Σ _ : Int, Nat) :
    (sweepEntry config now server entry).clients.length = server.clients.length := by
  rw [sweepEntry]
  split
  next =>
      split
      next => exact length_closeClient server entry.2
      next => rfl
  next => rfl

theorem length_foldl {pass : WebServer → (Σ _ : Int, Nat) → WebServer}
    (same : ∀ server entry, (pass server entry).clients.length = server.clients.length)
    (order : List (Σ _ : Int, Nat)) (server : WebServer) :
    (order.foldl pass server).clients.length = server.clients.length := by
  induction order generalizing server with
  | nil => rfl
  | cons entry order ih => exact (ih (pass server entry)).trans (same server entry)

theorem made_of_arrival {arrival : Arrival} {outcome : Outcome Exception WebServer PUnit}
    (possible : server.Possible arrival.accept)
    (ends : ArrivalOutcome config server arrival outcome) (final : outcome.Final next)
    (absent : server.clients[id]? = none) (client : next.clients[id]? = some conn) :
    Made conn := by
  have isLast {made : Connection} (found : (server.clients ++ [made])[id]? = some conn) :
      made = conn := by
    rw [List.getElem?_append_right (List.getElem?_eq_none_iff.mp absent)] at found
    rcases List.getElem?_eq_some_iff.mp found with ⟨inside, isConn⟩
    rwa [List.getElem_singleton] at isConn
  cases ends with
  | nothing | unmade =>
      cases final
      cases absent.symm.trans client
  | unwatched =>
      cases final
      exact isLast client ▸ .lost _ _ possible.2.1
  | untabled | added =>
      cases final
      exact isLast client ▸ .started _ _ possible.2.1

/-- A step makes no other connections. -/
theorem Step.made {action : Action} (taken : Step config server action next)
    (absent : server.clients[id]? = none) (client : next.clients[id]? = some conn) :
    Made conn := by
  have gone {clients : List Connection} (same : clients.length = server.clients.length) :
      clients[id]? ≠ some conn := by
    rw [List.getElem?_eq_none_iff, ← same] at absent
    rw [List.getElem?_eq_none_iff.mpr absent]
    exact (Option.some_ne_none conn).symm
  cases taken with
  | arrive | dropped => cases absent.symm.trans client
  | newConnection _ possible ends final => exact made_of_arrival possible ends final absent client
  | stays | closes => exact absurd client (gone (List.length_set ..))
  | @cleanup now order _ =>
      exact absurd client (gone (length_foldl (length_sweepEntry config now) order _))
  | @closeAll order _ =>
      have same := length_foldl (fun server entry => length_closeClient server entry.2) order
        (managerMutex.setHeld true server)
      exact absurd client (gone same)

/-- **What all connections have in common.**  What holds of a new connection, and is kept by every
turn, holds of every connection of the server at all times. -/
theorem forall_clients_of_run {property : Connection → Prop}
    (start : ∀ conn, Made conn → property conn)
    (keeps : Transition.Keeps Connection.turn (fun _ => True) property) {listenFd : Int}
    {actions : List Action}
    (ran : run (step config) (started listenFd) actions = some server) (id : Nat)
    (conn : Connection) (client : server.clients[id]? = some conn) : property conn := by
  have keepsAll : Transition.Keeps (step config) (fun _ => True) fun server =>
      server.Invariant ∧
        ∀ (id : Nat) (conn : Connection), server.clients[id]? = some conn → property conn := by
    intro server action next _ taken known
    rcases known with ⟨invariant, holds⟩
    refine ⟨keeps_invariant config server action next trivial taken invariant, ?_⟩
    intro id conn client
    cases before : server.clients[id]? with
    | none =>
        have steps := step_cases invariant.consistent invariant.free taken
        exact start conn (steps.made before client)
    | some found =>
        rcases (projects_client config id).goesOn server action next found taken invariant before
          with ⟨after, turns, isAfter⟩
        cases client.symm.trans isAfter
        exact keeps.run turns (fun _ _ => trivial) (holds id found before)
  have holds := keepsAll.run ran (fun _ _ => trivial)
    ⟨invariant_started listenFd, by simp [WebServer.started]⟩
  exact holds.2 id conn client

end PPServer.Server.WebServer
