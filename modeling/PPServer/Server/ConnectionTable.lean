import PPServer.Server.Registrations

/-!
# The table of the connection manager

`connections_` is to list the open connections.  A connection that is closed in its own callback
stays in it, because `Close` does not tell the manager, and a connection that is accepted when
the table is full does not get into it, because nobody looks at what `AddConnection` returns.
-/

namespace PPServer.Server

open Locking Net EventLoop

namespace WebServer

variable {config : Config} {server next : WebServer} {id : Nat} {conn : Connection} {fd : Int}

/-- The table has an entry exactly for every open connection, under its descriptor, whose
callback is registered. -/
def Agrees (server : WebServer) : Prop :=
  ∀ fd id, server.connections.lookup fd = some id ↔
    ∃ conn, server.clients[id]? = some conn ∧ conn.IsOpen ∧ conn.socketFd = fd ∧
      server.descriptors.callbacks.lookup fd = some (.client id)

/-- The table is compared with the callbacks alone. -/
theorem Consistent.agrees_iff (consistent : server.Consistent) :
    server.Agrees ↔ ∀ fd id, server.connections.lookup fd = some id ↔
      server.descriptors.callbacks.lookup fd = some (.client id) := by
  refine forall₂_congr fun fd id => iff_congr Iff.rfl ⟨?_, ?_⟩
  · rintro ⟨conn, -, -, -, callback⟩
    exact callback
  · intro callback
    rcases consistent.registered fd id callback with ⟨conn, client, opened, socketFd⟩
    exact ⟨conn, client, opened, socketFd, callback⟩

/-- The arrival is set up to its end. -/
def Completes (arrival : Arrival) : Prop :=
  (∃ fd, arrival.accept = .accepted fd) ∧ arrival.setupFailure = none ∧
    arrival.epollAdd = .done

/-- The step closes no connection in its own callback, and accepts none while the table is
full. -/
def Orderly (config : Config) (server : WebServer) : Action → Prop
  | .ioEvent fd events arrival calls =>
      match server.descriptors.callbacks.lookup fd with
      | some .newConnection =>
          Completes arrival → server.connections.keys.card < config.maxConnections
      | some (.client id) =>
          ∀ conn, server.clients[id]? = some conn → ¬conn.ClosedBy events calls
      | none => True
  | .arrive | .cleanupTimeoutConnections _ _ | .closeAllConnections _ => True

theorem agrees_started (listenFd : Int) : (started listenFd).Agrees := by
  rw [(consistent_started listenFd).agrees_iff]
  intro fd id
  refine iff_of_false (Option.some_ne_none id).symm fun callback => ?_
  rcases FiniteMap.lookup_insert_eq_some_iff.mp callback with ⟨-, ⟨⟩⟩ | ⟨-, ⟨⟩⟩

/-- A step that changes neither the callbacks nor the table keeps their agreement. -/
theorem Consistent.agrees_of_same (consistent : server.Consistent) (agrees : server.Agrees)
    (consistentNext : next.Consistent)
    (callbacks : next.descriptors.callbacks = server.descriptors.callbacks)
    (connections : next.connections = server.connections) : next.Agrees := by
  rw [consistentNext.agrees_iff, callbacks, connections]
  exact consistent.agrees_iff.mp agrees

/-! ## New connections -/

theorem ArrivalOutcome.agrees_iff {arrival : Arrival}
    {outcome : Outcome Exception WebServer PUnit} (invariant : server.Invariant)
    (agrees : server.Agrees) (possible : server.Possible arrival.accept)
    (ends : ArrivalOutcome config server arrival outcome) (final : outcome.Final next) :
    next.Agrees ↔
      (Completes arrival → server.connections.keys.card < config.maxConnections) := by
  have consistent := invariant.consistent
  have consistentNext := (invariant.newConnection possible ends final).consistent
  have table := consistent.agrees_iff.mp agrees
  cases ends with
  | nothing notAccepted =>
      cases final
      refine iff_of_true (consistent.agrees_of_same agrees consistentNext rfl rfl) ?_
      rintro ⟨⟨fd, accepted⟩, -⟩
      exact absurd accepted (notAccepted fd)
  | unmade =>
      cases final
      refine iff_of_true (consistent.agrees_of_same agrees consistentNext rfl rfl) ?_
      rintro ⟨-, made, -⟩
      cases made
  | @unwatched fd =>
      cases final
      refine iff_of_true ?_ ?_
      · rw [consistentNext.agrees_iff]
        intro other id
        refine (table other id).trans ?_
        have unregistered := consistent.lookup_of_fresh possible.2.2
        refine Iff.trans (iff_and_self.mpr ?_) FiniteMap.lookup_erase_eq_some_iff.symm
        rintro callback rfl
        cases unregistered.symm.trans callback
      · rintro ⟨-, -, watched⟩
        cases watched
  | @untabled fd now full =>
      cases final
      refine iff_of_false ?_ ?_
      · intro agreesNext
        have callback : (server.registered fd now).descriptors.callbacks.lookup fd =
            some (.client server.clients.length) := (lookup_registered now).mpr (.inl ⟨rfl, rfl⟩)
        have tabled := (consistentNext.agrees_iff.mp agreesNext fd _).mpr callback
        rcases (agrees fd _).mp tabled with ⟨conn, client, -⟩
        exact absurd (List.getElem?_eq_some_iff.mp client).1 (Nat.lt_irrefl _)
      · intro room
        exact absurd full (Nat.not_le.mpr (room ⟨⟨fd, rfl⟩, rfl, rfl⟩))
  | @added fd now room =>
      cases final
      refine iff_of_true ?_ fun _ => room
      rw [consistentNext.agrees_iff]
      intro other id
      refine Iff.trans ?_ (lookup_registered now).symm
      rw [FiniteMap.lookup_insert_eq_some_iff, table other id,
        show id = server.clients.length ↔ server.clients.length = id from eq_comm]

/-! ## Closing clients -/

/-- A connection that is closed and erased is in neither registry. -/
theorem Consistent.agrees_closeClient (consistent : server.Consistent) (agrees : server.Agrees)
    (tabled : server.connections.lookup fd = some id) :
    { server.closeClient id with connections := server.connections.erase fd }.Agrees := by
  have closed := consistent.closeClient id
  have erased :
      { server.closeClient id with connections := server.connections.erase fd }.Consistent :=
    ⟨closed.ready, closed.opened, closed.registered, closed.listening⟩
  have table := consistent.agrees_iff.mp agrees
  have callback := (table fd id).mp tabled
  rw [erased.agrees_iff]
  intro other client
  refine FiniteMap.lookup_erase_eq_some_iff.trans (Iff.trans ?_ consistent.lookup_closeClient.symm)
  rw [table other client]
  refine and_congr_left fun callback' => not_congr ⟨?_, ?_⟩
  · rintro rfl
    cases callback.symm.trans callback'
    rfl
  · rintro rfl
    rcases consistent.registered fd client callback with ⟨conn, isClient, -, rfl⟩
    rcases consistent.registered other client callback' with ⟨found, isClient', -, rfl⟩
    cases isClient.symm.trans isClient'
    rfl

theorem Consistent.agrees_sweepEntry (consistent : server.Consistent) (agrees : server.Agrees)
    {now : Nat} {entry : Σ _ : Int, Nat}
    (tabled : server.connections.lookup entry.1 = some entry.2) :
    (WebServer.sweepEntry config now server entry).Agrees := by
  rw [WebServer.sweepEntry]
  split
  next =>
      split
      next => exact consistent.agrees_closeClient agrees tabled
      next => exact agrees
  next => exact agrees

/-- A pass leaves the entries of the other descriptors alone. -/
theorem lookup_sweepEntry {now : Nat} {entry : Σ _ : Int, Nat} (differs : fd ≠ entry.1) :
    (sweepEntry config now server entry).connections.lookup fd =
      server.connections.lookup fd := by
  rw [sweepEntry]
  split
  next =>
      split
      next => exact Finmap.lookup_erase_ne differs
      next => rfl
  next => rfl

theorem Consistent.agrees_sweep (consistent : server.Consistent) (agrees : server.Agrees)
    (config : Config) (now : Nat) {order : List (Σ _ : Int, Nat)} (nodup : order.NodupKeys)
    (tabled : ∀ entry ∈ order, server.connections.lookup entry.1 = some entry.2) :
    (order.foldl (WebServer.sweepEntry config now) server).Agrees := by
  induction order generalizing server with
  | nil => exact agrees
  | cons entry order ih =>
      rw [List.forall_mem_cons] at tabled
      rw [List.nodupKeys_cons] at nodup
      apply ih (consistent.sweepEntry config now entry)
        (consistent.agrees_sweepEntry agrees tabled.1) nodup.2
      intro other isLater
      have differs : other.1 ≠ entry.1 := fun same =>
        nodup.1 (same ▸ List.mem_keys_of_mem isLater)
      rw [lookup_sweepEntry differs]
      exact tabled.2 other isLater

/-- After all the connections of a list have been closed, none of them has a callback. -/
theorem Consistent.lookup_closeClients (consistent : server.Consistent)
    {order : List (Σ _ : Int, Nat)}
    (callback : (order.foldl (fun server entry => server.closeClient entry.2)
      server).descriptors.callbacks.lookup fd = some (.client id)) :
    server.descriptors.callbacks.lookup fd = some (.client id) ∧
      ∀ entry ∈ order, entry.2 ≠ id := by
  induction order generalizing server with
  | nil => exact ⟨callback, by simp⟩
  | cons entry order ih =>
      rcases ih (consistent.closeClient entry.2) callback with ⟨before, differ⟩
      rcases consistent.lookup_closeClient.mp before with ⟨differs, before⟩
      exact ⟨before, List.forall_mem_cons.mpr ⟨Ne.symm differs, differ⟩⟩

/-! ## Steps and runs -/

theorem Step.agrees_iff {action : Action} (taken : Step config server action next)
    (invariant : server.Invariant) (agrees : server.Agrees) :
    next.Agrees ↔ Orderly config server action := by
  have consistent := invariant.consistent
  have consistentNext := (taken.invariant invariant).consistent
  cases taken with
  | arrive => exact iff_of_true agrees trivial
  | dropped callback =>
      refine iff_of_true agrees ?_
      simp only [Orderly, callback]
  | newConnection callback possible ends final =>
      simp only [Orderly, callback]
      exact ends.agrees_iff invariant agrees possible final
  | @stays _ _ _ _ id conn _ _ callback client notClosedBy _ _ =>
      refine iff_of_true (consistent.agrees_of_same agrees consistentNext rfl rfl) ?_
      simp only [Orderly, callback]
      intro found isClient
      cases client.symm.trans isClient
      exact notClosedBy
  | @closes _ _ _ _ id conn _ _ callback client closedBy closes _ =>
      refine iff_of_false ?_ ?_
      · intro agreesNext
        have own := (consistent.opened id conn client closes.isOpen).2
        have tabled := (consistent.agrees_iff.mp agrees conn.socketFd id).mpr own
        have kept := (consistentNext.agrees_iff.mp agreesNext conn.socketFd id).mp tabled
        exact absurd rfl ((consistent.lookup_release client closes.isOpen).mp kept).1
      · simp only [Orderly, callback]
        exact fun notClosedBy => notClosedBy conn client closedBy
  | @cleanup now order isOrder =>
      refine iff_of_true ?_ trivial
      exact (consistent.locked true).agrees_sweep agrees config now isOrder.nodupKeys
        fun entry => (isOrder.mem_iff entry).mp
  | @closeAll order isOrder =>
      refine iff_of_true ?_ trivial
      rw [consistentNext.agrees_iff]
      intro fd id
      refine iff_of_false (Option.some_ne_none id).symm fun callback => ?_
      rcases (consistent.locked true).lookup_closeClients callback with ⟨before, differ⟩
      have tabled := (consistent.agrees_iff.mp agrees fd id).mpr before
      exact differ ⟨fd, id⟩ ((isOrder.mem_iff ⟨fd, id⟩).mpr tabled) rfl

/-- **The table and the event loop agree** in every state of a run exactly if no step of the run
closes a connection in its own callback or accepts one while the table is full. -/
theorem connections_agree_iff (config : Config) (listenFd : Int) (actions : List Action) :
    (∀ server, Transition.Visits (step config) (started listenFd) actions server →
      server.Agrees) ↔
      ∀ server action next,
        Transition.Takes (step config) (started listenFd) actions server action next →
          Orderly config server action := by
  have lifted : (∀ server, Transition.Visits (step config) (started listenFd) actions server →
      server.Invariant ∧ server.Agrees) ↔ _ :=
    Transition.forall_visits_iff ⟨invariant_started listenFd, agrees_started listenFd⟩
      fun server action next taken known =>
        (and_iff_right (keeps_invariant config server action next trivial taken known.1)).trans
          ((step_cases known.1.consistent known.1.free taken).agrees_iff known.1 known.2)
  rw [← lifted]
  refine forall₂_congr fun server visits => (and_iff_right ?_).symm
  rcases visits with ⟨before, -, ran⟩
  exact invariant_of_run ran

/-- A client that connects, and closes its end. -/
def peerCloses : List Action :=
  [.arrive,
    .ioEvent 3 epollRead ⟨.accepted 7, none, .done, 1⟩ ⟨.endOfFile, .done, .accepted 0, .done, 1⟩,
    .ioEvent 7 epollRead ⟨.interrupted, none, .done, 2⟩
      ⟨.endOfFile, .done, .accepted 0, .done, 2⟩]

/-- Its entry stays in the table. -/
theorem not_agrees_peerCloses :
    ∃ server, Transition.Visits (step {}) (started 3) peerCloses server ∧ ¬server.Agrees := by
  have ran : ∃ server, Transition.run (step {}) (started 3) peerCloses = some server ∧
      server.connections.lookup 7 = some 0 ∧ server.descriptors.callbacks.lookup 7 = none :=
    ⟨_, rfl, by decide, by decide⟩
  rcases ran with ⟨server, ran, tabled, unregistered⟩
  refine ⟨server, ⟨peerCloses, List.prefix_rfl, ran⟩, fun agrees => ?_⟩
  rcases (agrees 7 0).mp tabled with ⟨conn, -, -, -, callback⟩
  cases unregistered.symm.trans callback

end WebServer

end PPServer.Server
