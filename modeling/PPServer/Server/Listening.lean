import PPServer.Server.Acceptance

/-!
# The listening socket while the server works

Whatever connections come and go, the event loop goes on to watch the sockets that it watches for
new connections, and no others, since each connection takes only its own descriptor from the event
loop.
-/

namespace PPServer.Server.WebServer

open Locking Net EventLoop

variable {config : Config} {server middle next : WebServer} {id : Nat} {fd : Int}
variable {conn after : Connection}

/-- The callback for new connections is registered where it was, and is as watched as it was. -/
structure Spares (server next : WebServer) : Prop where
  callbacks : ∀ fd, next.descriptors.callbacks.lookup fd = some .newConnection ↔
    server.descriptors.callbacks.lookup fd = some .newConnection
  interest : ∀ fd, server.descriptors.callbacks.lookup fd = some .newConnection →
    fd ∈ server.descriptors.interest → fd ∈ next.descriptors.interest

theorem Spares.refl (server : WebServer) : server.Spares server :=
  ⟨fun _ => Iff.rfl, fun _ _ watched => watched⟩

theorem Spares.trans (first : server.Spares middle) (second : middle.Spares next) :
    server.Spares next where
  callbacks fd := (second.callbacks fd).trans (first.callbacks fd)
  interest fd listens watched :=
    second.interest fd ((first.callbacks fd).mpr listens) (first.interest fd listens watched)

/-! ## Effects of a connection -/

/-- The effect does not take the descriptor from the event loop. -/
def SparesFd (fd : Int) (effect : Effect) : Prop :=
  effect ≠ .removeFd fd ∧ effect ≠ .closeSocket fd

theorem mem_interest_perform {effect : Effect} (spares : SparesFd fd effect)
    (watched : fd ∈ server.descriptors.interest) :
    fd ∈ (server.perform effect).descriptors.interest := by
  cases effect with
  | updateFd changed read write =>
      simp only [perform, Descriptors.updateFd]
      split
      next => exact Finmap.mem_insert.mpr (.inr watched)
      next => exact watched
  | removeFd removed =>
      have differs : fd ≠ removed := fun same => spares.1 (same ▸ rfl)
      exact Finmap.mem_erase.mpr ⟨differs, watched⟩
  | closeSocket removed =>
      have differs : fd ≠ removed := fun same => spares.2 (same ▸ rfl)
      exact Finmap.mem_erase.mpr ⟨differs, watched⟩
  | sent | onConnection | onDisconnection | error | readCallback | writeCallback
  | errorCallback => exact watched

theorem mem_interest_settle {new : List Effect} (effects : after.effects = conn.effects ++ new)
    (spares : ∀ effect ∈ new, SparesFd fd effect) (watched : fd ∈ server.descriptors.interest) :
    fd ∈ (server.settle id conn after).descriptors.interest := by
  rw [settle, effects, List.drop_left]
  have watched' : fd ∈ (server.replace id after).descriptors.interest := watched
  exact new.foldlRecOn (motive := fun server => fd ∈ server.descriptors.interest) perform watched'
    fun _ watched effect member => mem_interest_perform (spares effect member) watched

theorem sparesFd_of_quiet {effect : Effect} (quiet : ¬effect.IsRelease) : SparesFd fd effect :=
  ⟨fun same => quiet (same ▸ trivial), fun same => quiet (same ▸ trivial)⟩

theorem spares_settle_of_stays (id : Nat) (stays : conn.Stays after) :
    server.Spares (server.settle id conn after) where
  callbacks fd := by
    rcases server.settle_of_stays id stays with ⟨interest, settled⟩
    rw [settled]
    exact Iff.rfl
  interest fd _ watched := by
    rcases stays.effects with ⟨quiet, effects, isQuiet⟩
    exact mem_interest_settle effects
      (fun effect member => sparesFd_of_quiet (isQuiet effect member)) watched

theorem Consistent.spares_settle_of_closes (consistent : server.Consistent)
    (client : server.clients[id]? = some conn) (closes : conn.Closes after) :
    server.Spares (server.settle id conn after) := by
  have own := (consistent.opened id conn client closes.isOpen).2
  have differs {fd : Int}
      (listens : server.descriptors.callbacks.lookup fd = some .newConnection) :
      fd ≠ conn.socketFd := by
    rintro rfl
    cases own.symm.trans listens
  constructor
  case callbacks =>
    intro fd
    rcases server.settle_of_closes id closes with ⟨interest, settled⟩
    rw [settled]
    exact FiniteMap.lookup_erase_eq_some_iff.trans (and_iff_right_of_imp differs)
  case interest =>
    intro fd listens watched
    rcases closes.effects with ⟨before, behind, effects, isQuiet, isQuiet'⟩
    have apart := (differs listens).symm
    refine mem_interest_settle effects (fun effect member => ?_) watched
    simp only [List.mem_append, List.mem_cons] at member
    rcases member with isBefore | rfl | rfl | isBehind
    · exact sparesFd_of_quiet (isQuiet effect isBefore)
    · exact ⟨fun same => apart (Effect.removeFd.inj same), Effect.noConfusion⟩
    · exact ⟨Effect.noConfusion, fun same => apart (Effect.closeSocket.inj same)⟩
    · exact sparesFd_of_quiet (isQuiet' effect isBehind)

/-! ## Calls of the connection manager -/

theorem Consistent.spares_closeClient (consistent : server.Consistent) (id : Nat) :
    server.Spares (server.closeClient id) := by
  rw [WebServer.closeClient]
  split
  next conn client =>
      split
      next opened =>
          exact consistent.spares_settle_of_closes client
            (Connection.closes_closed (consistent.ready id conn client) opened)
      next => exact .refl server
  next => exact .refl server

theorem Consistent.spares_sweepEntry (consistent : server.Consistent) (config : Config) (now : Nat)
    (entry : Σ _ : Int, Nat) : server.Spares (WebServer.sweepEntry config now server entry) := by
  rw [WebServer.sweepEntry]
  split
  next =>
      split
      next =>
          have spares := consistent.spares_closeClient entry.2
          exact ⟨spares.callbacks, spares.interest⟩
      next => exact .refl server
  next => exact .refl server

/-! ## New connections -/

theorem Consistent.spares_registered (consistent : server.Consistent)
    (fresh : fd ∉ server.openFds) (now : Nat) : server.Spares (server.registered fd now) := by
  have unused := consistent.lookup_of_fresh fresh
  constructor
  case callbacks =>
    intro other
    rw [WebServer.registered, Descriptors.addFd_callbacks, FiniteMap.lookup_insert_eq_some_iff]
    constructor
    · rintro (⟨-, ⟨⟩⟩ | ⟨-, listens⟩)
      exact listens
    · intro listens
      refine .inr ⟨?_, listens⟩
      rintro rfl
      cases unused.symm.trans listens
  case interest =>
    intro other _ watched
    exact Finmap.mem_insert.mpr (.inr watched)

theorem Consistent.spares_abandoned (consistent : server.Consistent)
    (fresh : fd ∉ server.openFds) (now : Nat) : server.Spares (server.abandoned fd now) := by
  have unused := consistent.lookup_of_fresh fresh
  have differs {other : Int}
      (listens : server.descriptors.callbacks.lookup other = some .newConnection) :
      other ≠ fd := by
    rintro rfl
    cases unused.symm.trans listens
  constructor
  case callbacks =>
    intro other
    exact FiniteMap.lookup_erase_eq_some_iff.trans (and_iff_right_of_imp differs)
  case interest =>
    intro other listens watched
    have kept := Finmap.mem_erase.mpr ⟨differs listens, watched⟩
    exact Finmap.mem_erase.mpr ⟨differs listens, kept⟩

theorem Consistent.spares_handleNewConnection {arrival : Arrival} (consistent : server.Consistent)
    (free : server.managerMutexHeld = false) (possible : server.Possible arrival.accept)
    (final : (handleNewConnection config arrival server).Final next) : server.Spares next := by
  have outcome : ArrivalOutcome config server arrival (handleNewConnection config arrival server) :=
    handleNewConnection_outcome free arrival possible
  generalize ended : handleNewConnection config arrival server = result at outcome final
  cases outcome with
  | nothing | unmade =>
      cases final
      exact ⟨fun _ => Iff.rfl, fun _ _ watched => watched⟩
  | @unwatched fd text now interest =>
      rw [handleNewConnection_unwatched possible.2.1] at ended
      rw [← ended] at final
      cases final
      exact consistent.spares_abandoned possible.2.2 now
  | @untabled fd now full =>
      cases final
      exact consistent.spares_registered possible.2.2 now
  | @added fd now room =>
      cases final
      have spares := consistent.spares_registered possible.2.2 now
      exact ⟨spares.callbacks, spares.interest⟩

/-! ## Steps -/

theorem Consistent.spares_handleIoEvent {events : UInt32} {arrival : Arrival}
    {calls : Connection.SystemCalls} (consistent : server.Consistent)
    (free : server.managerMutexHeld = false) (possible : server.Possible arrival.accept)
    (final : (handleIoEvent config fd events arrival calls server).Final next) :
    server.Spares next := by
  rcases consistent.final_handleIoEvent final with ⟨-, rfl⟩ | ⟨-, arrives⟩ |
    ⟨id, conn, after, -, client, rfl, opened, finalAfter⟩
  · exact .refl next
  · exact consistent.spares_handleNewConnection free possible arrives
  · rcases Connection.callback_settles (consistent.ready id conn client) opened finalAfter with
      ⟨-, ⟨-, closes⟩ | ⟨-, stays⟩⟩
    · exact consistent.spares_settle_of_closes client closes
    · exact spares_settle_of_stays id stays

/-- A loop over the table that closes connections. -/
theorem Consistent.spares_foldl {pass : WebServer → (Σ _ : Int, Nat) → WebServer}
    (consistent : server.Consistent)
    (keeps : ∀ (server : WebServer) (entry : Σ _ : Int, Nat), server.Consistent →
      (pass server entry).Consistent)
    (spares : ∀ (server : WebServer) (entry : Σ _ : Int, Nat), server.Consistent →
      server.Spares (pass server entry))
    (order : List (Σ _ : Int, Nat)) : server.Spares (order.foldl pass server) := by
  induction order generalizing server with
  | nil => exact .refl server
  | cons entry order ih =>
      exact (spares server entry consistent).trans (ih (keeps server entry consistent))

/-- **No step of the server touches the listening socket.** -/
theorem Invariant.spares {action : Action} (invariant : server.Invariant)
    (taken : step config server action = some next) : server.Spares next := by
  have consistent := invariant.consistent
  have locked := consistent.locked true
  cases action with
  | arrive =>
      cases taken
      exact ⟨fun _ => Iff.rfl, fun _ _ watched => watched⟩
  | ioEvent fd events arrival calls =>
      rcases Option.ite_none_right_eq_some.mp taken with ⟨possible, ends⟩
      exact consistent.spares_handleIoEvent invariant.free possible
        (Outcome.ending_eq_some_iff.mp ends)
  | cleanupTimeoutConnections now order =>
      cases step_cases consistent invariant.free taken with
      | cleanup =>
          have spares := locked.spares_foldl
            (fun _ entry known => known.sweepEntry config now entry)
            (fun _ entry known => known.spares_sweepEntry config now entry) order
          exact ⟨spares.callbacks, spares.interest⟩
  | closeAllConnections order =>
      cases step_cases consistent invariant.free taken with
      | closeAll =>
          have spares := locked.spares_foldl (fun _ entry known => known.closeClient entry.2)
            (fun _ entry known => known.spares_closeClient entry.2) order
          exact ⟨spares.callbacks, spares.interest⟩

end PPServer.Server.WebServer
