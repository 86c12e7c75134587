import PPServer.Server.Registrations

/-!
# The limit on connections

`AddConnection` compares the size of the table with `max_connections`, but only after the
connection has been registered in the event loop, and `HandleNewConnection` starts it
whatever the answer is.
-/

namespace PPServer.Server

open Locking Net EventLoop

namespace WebServer

variable {config : Config} {server next : WebServer} {id : Nat} {conn after : Connection}
variable {fd : Int}

/-- An open connection that has been started and registered. -/
def Serves (server : WebServer) (id : Nat) (conn : Connection) : Prop :=
  conn.IsOpen ∧ conn.state ≠ .connecting ∧
    server.descriptors.callbacks.lookup conn.socketFd = some (.client id)

instance (server : WebServer) (id : Nat) (conn : Connection) : Decidable (server.Serves id conn) :=
  inferInstanceAs (Decidable (_ ∧ _ ∧ _))

/-- The number of open connections that have been started and registered. -/
def openClients (server : WebServer) : Nat :=
  server.clients.zipIdx.countP fun entry => server.Serves entry.2 entry.1

def countOpen (server : WebServer) : Nat := server.clients.countP fun conn => conn.IsOpen

/-- Every open connection has been started and registered. -/
theorem Consistent.openClients_eq (consistent : server.Consistent) :
    server.openClients = server.countOpen := by
  have serves (entry : Connection × Nat) (member : entry ∈ server.clients.zipIdx) :
      server.Serves entry.2 entry.1 ↔ entry.1.IsOpen := by
    have client := List.mem_zipIdx_iff_getElem?.mp member
    exact and_iff_left_of_imp fun opened =>
      ⟨(consistent.ready entry.2 entry.1 client).started,
        (consistent.opened entry.2 entry.1 client opened).2⟩
  calc server.openClients
      _ = server.clients.zipIdx.countP ((fun conn => conn.IsOpen) ∘ Prod.fst) :=
        List.countP_congr fun entry member => by simpa using serves entry member
      _ = (server.clients.zipIdx.map Prod.fst).countP fun conn => conn.IsOpen :=
        List.countP_map.symm
      _ = server.countOpen := by rw [List.zipIdx_map_fst, countOpen]

/-! ## What a step does to the number -/

theorem countOpen_replace (client : server.clients[id]? = some conn)
    (isOpen_iff : after.IsOpen ↔ conn.IsOpen) :
    (server.replace id after).countOpen = server.countOpen := by
  rcases List.getElem?_eq_some_iff.mp client with ⟨inside, rfl⟩
  have positive (opened : server.clients[id].IsOpen) :
      0 < server.clients.countP fun conn => conn.IsOpen :=
    List.countP_pos_iff.mpr ⟨_, List.getElem_mem inside, decide_eq_true opened⟩
  rw [countOpen, replace, countOpen, List.countP_set inside]
  by_cases opened : server.clients[id].IsOpen
  · have := positive opened
    simp [isOpen_iff, opened]
    omega
  · simp [isOpen_iff, opened]

theorem countOpen_replace_le (client : server.clients[id]? = some conn)
    (closed : ¬after.IsOpen) :
    (server.replace id after).countOpen ≤ server.countOpen := by
  rcases List.getElem?_eq_some_iff.mp client with ⟨inside, rfl⟩
  rw [countOpen, replace, countOpen, List.countP_set inside]
  simp [closed]

theorem Consistent.countOpen_closeClient_le (consistent : server.Consistent) (id : Nat) :
    (server.closeClient id).countOpen ≤ server.countOpen := by
  rcases consistent.closeClient_cases id with
    ⟨conn, interest, client, -, closed⟩ | ⟨-, closed⟩
  · rw [closed]
    exact countOpen_replace_le client (Connection.not_isOpen_closed conn)
  · rw [closed]

theorem Consistent.countOpen_sweepEntry_le (consistent : server.Consistent) (config : Config)
    (now : Nat) (entry : Σ _ : Int, Nat) :
    (WebServer.sweepEntry config now server entry).countOpen ≤ server.countOpen := by
  rw [WebServer.sweepEntry]
  split
  next =>
      split
      next => exact consistent.countOpen_closeClient_le entry.2
      next => exact le_rfl
  next => exact le_rfl

/-- A connection that is made last is one more if it is open. -/
theorem countOpen_made (server : WebServer) (conn : Connection) :
    (server.made conn).countOpen = server.countOpen + if conn.IsOpen then 1 else 0 := by
  rw [countOpen, made, List.countP_append, countOpen]
  by_cases opened : conn.IsOpen <;> simp [opened]

/-! ## Accepting beyond the limit -/

/-- The descriptor that `HandleNewConnection` gets in this step, if it gets one. -/
def accepts (server : WebServer) : Action → Option (Int × Arrival)
  | .ioEvent fd _ arrival _ =>
      match server.descriptors.callbacks.lookup fd, arrival.accept with
      | some .newConnection, .accepted clientFd => some (clientFd, arrival)
      | _, _ => none
  | .arrive | .cleanupTimeoutConnections _ _ | .closeAllConnections _ => none

/-- `AddFd` fails on the connection, and that destroys it. -/
def Unwatched (arrival : Arrival) : Prop :=
  arrival.setupFailure = none ∧ arrival.epollAdd ≠ .done

/-- The accepted descriptor is closed, and no connection on it is registered or started. -/
def Refuses (server next : WebServer) (fd : Int) : Prop :=
  fd ∉ next.openFds ∧ next.descriptors.callbacks.lookup fd = none ∧
    ∀ conn ∈ next.clients.drop server.clients.length, .onConnection ∉ conn.effects

/-- The step accepts a connection only below the limit, unless `AddFd` fails on it. -/
def WithinLimit (config : Config) (server : WebServer) (action : Action) : Prop :=
  ∀ fd arrival, server.accepts action = some (fd, arrival) →
    server.openClients < config.maxConnections ∨ Unwatched arrival

theorem ArrivalOutcome.refuses_iff {arrival : Arrival}
    {outcome : Outcome Exception WebServer PUnit} (accepted : arrival.accept = .accepted fd)
    (ends : ArrivalOutcome config server arrival outcome) (final : outcome.Final next) :
    server.Refuses next fd ↔ Unwatched arrival := by
  cases ends with
  | nothing notAccepted => exact absurd accepted (notAccepted fd)
  | unmade =>
      cases final
      cases accepted
      refine iff_of_false (fun refuses => refuses.1 (Finset.mem_insert_self _ _)) ?_
      rintro ⟨made, -⟩
      cases made
  | unwatched =>
      cases final
      cases accepted
      refine iff_of_true ⟨Finset.notMem_erase _ _, Finmap.lookup_erase _ _, ?_⟩ ⟨rfl, by simp⟩
      simp [watching, release, made, took, lostClient]
  | untabled | added =>
      cases final
      cases accepted
      exact iff_of_false (fun refuses => refuses.1 (Finset.mem_insert_self _ _))
        fun unwatched => unwatched.2 rfl

/-! ## Steps and runs -/

theorem ArrivalOutcome.countOpen_le {arrival : Arrival}
    {outcome : Outcome Exception WebServer PUnit}
    (ends : ArrivalOutcome config server arrival outcome) (final : outcome.Final next) :
    next.countOpen ≤ server.countOpen ∨
      (∃ fd, arrival.accept = .accepted fd) ∧ ¬Unwatched arrival ∧
        next.countOpen = server.countOpen + 1 := by
  cases ends with
  | nothing | unmade =>
      cases final
      exact .inl le_rfl
  | @unwatched fd _ now =>
      cases final
      have lost := (server.took fd).countOpen_made (lostClient fd now)
      rw [if_neg (not_isOpen_lostClient fd now)] at lost
      exact .inl lost.le
  | @untabled fd now | @added fd now =>
      cases final
      have made := (server.took fd).countOpen_made (newClient fd now)
      rw [if_pos (isOpen_newClient fd now)] at made
      exact .inr ⟨⟨fd, rfl⟩, fun unwatched => unwatched.2 rfl, made⟩

/-- Only accepting a connection can add to the open ones, and it adds one. -/
theorem Step.countOpen_le {action : Action} (taken : Step config server action next)
    (invariant : server.Invariant) :
    next.countOpen ≤ server.countOpen ∨
      ∃ fd arrival, server.accepts action = some (fd, arrival) ∧ ¬Unwatched arrival ∧
        next.countOpen = server.countOpen + 1 := by
  have consistent := invariant.consistent
  cases taken with
  | arrive | dropped => exact .inl le_rfl
  | newConnection callback possible ends final =>
      rcases ends.countOpen_le final with fewer | ⟨⟨fd, accepted⟩, watched, more⟩
      · exact .inl fewer
      · exact .inr ⟨fd, _, by simp only [accepts, callback, accepted], watched, more⟩
  | stays _ client _ stays _ => exact .inl (countOpen_replace client stays.isOpen_iff).le
  | closes _ client _ closes _ => exact .inl (countOpen_replace_le client closes.not_isOpen)
  | @cleanup now order _ =>
      have swept := order.foldlRecOn
        (motive := fun middle : WebServer =>
          middle.Consistent ∧ middle.countOpen ≤ server.countOpen)
        (sweepEntry config now) ⟨consistent.locked true, le_rfl⟩ fun middle known entry _ =>
          ⟨known.1.sweepEntry config now entry,
            (known.1.countOpen_sweepEntry_le config now entry).trans known.2⟩
      exact .inl swept.2
  | @closeAll order _ =>
      have closed := order.foldlRecOn
        (motive := fun middle : WebServer =>
          middle.Consistent ∧ middle.countOpen ≤ server.countOpen)
        (fun (server : WebServer) entry => server.closeClient entry.2)
        ⟨consistent.locked true, le_rfl⟩ fun middle known entry _ =>
          ⟨known.1.closeClient entry.2,
            (known.1.countOpen_closeClient_le entry.2).trans known.2⟩
      exact .inl closed.2

/-- What steps within the limit keep. -/
structure Bounded (config : Config) (server : WebServer) : Prop where
  invariant : server.Invariant
  countOpen_le : server.countOpen ≤ config.maxConnections

theorem Step.bounded {action : Action} (taken : Step config server action next)
    (bounded : Bounded config server) (within : WithinLimit config server action) :
    Bounded config next := by
  refine ⟨taken.invariant bounded.invariant, ?_⟩
  rcases taken.countOpen_le bounded.invariant with fewer | ⟨fd, arrival, accepts, watched, more⟩
  · exact fewer.trans bounded.countOpen_le
  · have room := (within fd arrival accepts).resolve_right watched
    rw [bounded.invariant.consistent.openClients_eq] at room
    omega

/-- A step that accepts a connection ends as `HandleNewConnection` does. -/
theorem Step.newConnection_of_accepts {action : Action} {arrival : Arrival}
    (taken : Step config server action next)
    (accepts : server.accepts action = some (fd, arrival)) :
    arrival.accept = .accepted fd ∧
      ∃ outcome, ArrivalOutcome config server arrival outcome ∧ outcome.Final next := by
  cases taken with
  | arrive | cleanup | closeAll => cases accepts
  | dropped callback => simp [WebServer.accepts, callback] at accepts
  | stays callback | closes callback => simp [WebServer.accepts, callback] at accepts
  | @newConnection _ _ arrived _ outcome _ callback possible ends final =>
      simp only [WebServer.accepts, callback] at accepts
      split at accepts
      next accepted =>
          cases accepts
          exact ⟨accepted, outcome, ends, final⟩
      next => cases accepts

theorem Step.refuses_iff {action : Action} {arrival : Arrival}
    (taken : Step config server action next)
    (accepts : server.accepts action = some (fd, arrival)) :
    server.Refuses next fd ↔ Unwatched arrival := by
  rcases taken.newConnection_of_accepts accepts with ⟨accepted, outcome, ends, final⟩
  exact ends.refuses_iff accepted final

/-- **The limit is enforced** in a run exactly if every step that accepts a connection finds fewer
open connections than the limit allows, or fails to watch it. -/
theorem limit_enforced_iff (config : Config) (listenFd : Int) (actions : List Action) :
    ((∀ server, Transition.Visits (step config) (started listenFd) actions server →
        server.openClients ≤ config.maxConnections) ∧
      ∀ server action next,
        Transition.Takes (step config) (started listenFd) actions server action next →
          ∀ fd arrival, server.accepts action = some (fd, arrival) →
            config.maxConnections ≤ server.openClients → server.Refuses next fd) ↔
      ∀ server action next,
        Transition.Takes (step config) (started listenFd) actions server action next →
          WithinLimit config server action := by
  have stepOf (server : WebServer) (action : Action) (next : WebServer)
      (takes : Transition.Takes (step config) (started listenFd) actions server action next) :
      Step config server action next := by
    rcases takes.visits with ⟨before, -, ran⟩
    have invariant := invariant_of_run ran
    exact step_cases invariant.consistent invariant.free takes.taken
  constructor
  · intro enforced server action next takes fd arrival accepts
    rcases Nat.lt_or_ge server.openClients config.maxConnections with room | full
    · exact .inl room
    · exact .inr (((stepOf server action next takes).refuses_iff accepts).mp
        (enforced.2 server action next takes fd arrival accepts full))
  · intro within
    constructor
    · intro server visits
      have bounded : Bounded config server :=
        Transition.forall_visits_of_takes ⟨invariant_started listenFd, Nat.zero_le _⟩
          (fun server action next taken bounded =>
            (step_cases bounded.invariant.consistent bounded.invariant.free taken).bounded bounded)
          within server visits
      exact bounded.invariant.consistent.openClients_eq.trans_le bounded.countOpen_le
    · intro server action next takes fd arrival accepts full
      have unwatched := (within server action next takes fd arrival accepts).resolve_left
        (Nat.not_lt.mpr full)
      exact ((stepOf server action next takes).refuses_iff accepts).mpr unwatched

/-- Two clients that connect, one after the other. -/
def twoClients : List Action :=
  [.arrive,
    .ioEvent 3 epollRead ⟨.accepted 7, none, .done, 1⟩ ⟨.endOfFile, .done, .accepted 0, .done, 1⟩,
    .arrive,
    .ioEvent 3 epollRead ⟨.accepted 8, none, .done, 2⟩ ⟨.endOfFile, .done, .accepted 0, .done, 2⟩]

/-- Both of them are served, although one is the limit. -/
theorem limit_exceeded_twoClients :
    ∃ server, Transition.Visits (step ⟨1, 30⟩) (started 3) twoClients server ∧
      ¬server.openClients ≤ 1 := by
  have ran : ∃ server, Transition.run (step ⟨1, 30⟩) (started 3) twoClients = some server ∧
      ¬server.openClients ≤ 1 := ⟨_, rfl, by decide⟩
  rcases ran with ⟨server, ran, exceeded⟩
  exact ⟨server, ⟨twoClients, List.prefix_rfl, ran⟩, exceeded⟩

end WebServer

end PPServer.Server
