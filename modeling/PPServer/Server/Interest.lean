import PPServer.Server.Isolation
import PPServer.Server.Listening
import PPServer.Server.WriteInterest

/-!
# What epoll watches

Each connection tells the event loop what to watch on its descriptor, and is the only one that
does.  So epoll watches each open connection for what it has last asked for: it is always watched
for reading, and for writing exactly in the state `WRITING`, also where the event loop could not be
told of a response.
-/

namespace PPServer.Net

open EventLoop

/-- The effect changes what is watched on no descriptor but this one. -/
def Effect.About (fd : Int) : Effect → Prop
  | .updateFd other _ _ | .removeFd other | .closeSocket other => other = fd ∨ other = -1
  | .sent _ | .onConnection | .onDisconnection | .error _ _ | .readCallback | .writeCallback
  | .errorCallback _ => True

/-- The events that are to be watched on the descriptor after the effect. -/
def Effect.asks (fd : Int) (events : UInt32) : Effect → UInt32
  | .updateFd other read write =>
      if other = fd then
        ((if read then epollRead else 0) ||| (if write then epollWrite else 0)) ||| epollEt
      else events
  | .removeFd _ | .closeSocket _ | .sent _ | .onConnection | .onDisconnection | .error _ _
  | .readCallback | .writeCallback | .errorCallback _ => events

namespace Connection

/-- The events that are to be watched on the descriptor of the connection. -/
def asked (conn : Connection) : UInt32 :=
  conn.effects.foldl (Effect.asks conn.socketFd) ((epollRead ||| epollEt) ||| epollEt)

/-- What has been done since concerns the descriptor of the connection only. -/
structure Own (conn after : Connection) : Prop where
  socketFd : after.socketFd = conn.socketFd ∨ after.socketFd = -1
  effects : ∃ new, after.effects = conn.effects ++ new ∧
    ∀ effect ∈ new, effect.About conn.socketFd

variable {conn middle after : Connection} {data : Bytes} {more : Nat}

theorem Own.refl (conn : Connection) : conn.Own conn :=
  ⟨.inl rfl, [], (List.append_nil _).symm, List.forall_mem_nil _⟩

theorem Own.trans (first : conn.Own middle) (second : middle.Own after) : conn.Own after := by
  rcases first with ⟨socketFd, new, effects, about⟩
  rcases second with ⟨socketFd', new', effects', about'⟩
  have back {fd : Int} (own : fd = middle.socketFd ∨ fd = -1) : fd = conn.socketFd ∨ fd = -1 := by
    omega
  refine ⟨back socketFd', new ++ new', ?_, List.forall_mem_append.mpr ⟨about, ?_⟩⟩
  · rw [effects', effects, List.append_assoc]
  · intro effect member
    have own := about' effect member
    cases effect with
    | updateFd | removeFd | closeSocket => exact back own
    | _ => trivial

theorem Change.own (change : conn.Change data more after) : conn.Own after := by
  cases change with
  | closed =>
      refine ⟨?_, _, rfl, ?_⟩
      · simp only [Connection.closed]
        split
        next => exact .inr rfl
        next => exact .inl rfl
      · intro effect member
        simp only [List.mem_cons, List.mem_append, List.mem_ite_nil_right, List.not_mem_nil,
          or_false] at member
        rcases member with rfl | ⟨-, rfl⟩ | ⟨-, rfl⟩
        · exact .inl rfl
        · exact .inl rfl
        · trivial
  | notified =>
      refine ⟨.inl rfl, _, rfl, fun effect member => ?_⟩
      simp only [List.mem_cons, List.mem_ite_nil_right, List.not_mem_nil, or_false] at member
      rcases member with rfl | ⟨-, rfl⟩ <;> trivial
  | received | «repeated» => exact ⟨.inl rfl, [], (List.append_nil _).symm, List.forall_mem_nil _⟩
  | answered =>
      refine ⟨.inl rfl, [.updateFd conn.socketFd true true], rfl, ?_⟩
      exact List.forall_mem_singleton.mpr (.inl rfl)
  | sent =>
      refine ⟨.inl rfl, [.sent _], rfl, ?_⟩
      exact List.forall_mem_singleton.mpr trivial
  | drained =>
      refine ⟨.inl rfl, _, rfl, fun effect member => ?_⟩
      simp only [List.mem_cons, List.mem_ite_nil_right, List.not_mem_nil, or_false] at member
      rcases member with rfl | rfl | ⟨-, rfl⟩
      · trivial
      · exact .inl rfl
      · trivial

theorem Changes.own (changes : conn.Changes data more after) : conn.Own after := by
  induction changes with
  | none => exact .refl conn
  | more _ change ih => exact ih.trans change.own

theorem asked_of_effects {new : List Effect} (effects : after.effects = conn.effects ++ new)
    (socketFd : after.socketFd = conn.socketFd) :
    after.asked = new.foldl (Effect.asks conn.socketFd) conn.asked := by
  rw [asked, socketFd, effects, List.foldl_append, asked]

/-- The events that an open connection has asked for in this state. -/
def askedIn : ConnectionState → UInt32
  | .writing => (epollRead ||| epollWrite) ||| epollEt
  | .disconnected | .connecting | .connected | .reading | .closing =>
      (epollRead ||| 0) ||| epollEt

/-- What a connection has asked for goes with its state. -/
structure Tuned (conn : Connection) : Prop where
  ready : conn.Ready
  asked : conn.IsOpen → conn.asked = askedIn conn.state

theorem Tuned.change (tuned : conn.Tuned) (change : conn.Change data more after) :
    after.Tuned := by
  refine ⟨change.ready tuned.ready, fun opened => ?_⟩
  cases change with
  | closed => exact absurd opened (not_isOpen_closed conn)
  | notified message =>
      have effects : (conn.notified message).effects = conn.effects ++
        .error conn.socketFd message ::
          if conn.hasErrorCallback then [.errorCallback message] else [] := rfl
      rw [asked_of_effects effects rfl]
      split <;> exact tuned.asked opened
  | received reads | «repeated» reads =>
      have same := tuned.asked reads.isOpen
      rcases reads with state | state <;> rw [state] at same <;> exact same
  | @answered _ now =>
      have effects : (conn.answered data now).effects =
        conn.effects ++ [.updateFd conn.socketFd true true] := rfl
      rw [asked_of_effects effects rfl]
      exact if_pos rfl
  | @sent count =>
      have effects : (conn.sent count).effects =
        conn.effects ++ [.sent (conn.writeBuffer.take count)] := rfl
      rw [asked_of_effects effects rfl]
      exact tuned.asked opened
  | @drained count =>
      have effects : (conn.drained count).effects = conn.effects ++
        .sent (conn.writeBuffer.take count) :: .updateFd conn.socketFd true false ::
          if conn.hasWriteCallback then [.writeCallback] else [] := rfl
      rw [asked_of_effects effects rfl]
      split <;> exact if_pos rfl

theorem keeps_tuned : Transition.Keeps turn (fun _ => True) Tuned := by
  intro conn action after _ taken tuned
  exact (changes_turn tuned.ready taken).keep_connection
    (fun tuned change => tuned.change change) tuned

end Connection

end PPServer.Net

namespace PPServer.Server.WebServer

open Locking Net EventLoop Transition

variable {config : Config} {server next : WebServer} {id other : Nat} {fd own : Int}
variable {conn after found : Connection} {effect : Effect} {new : List Effect}

/-! ## Effects of a connection -/

/-- An effect that concerns another descriptor. -/
theorem lookup_perform_of_ne (about : effect.About own) (differs : fd ≠ own) (valid : 0 ≤ fd) :
    (server.perform effect).descriptors.interest.lookup fd =
      server.descriptors.interest.lookup fd := by
  have apart {other : Int} (about : other = own ∨ other = -1) : fd ≠ other := by omega
  cases effect with
  | updateFd other read write =>
      simp only [perform, Descriptors.updateFd]
      split
      next => exact Finmap.lookup_insert_of_ne _ (apart about)
      next => rfl
  | removeFd other | closeSocket other => exact Finmap.lookup_erase_ne (apart about)
  | sent | onConnection | onDisconnection | error | readCallback | writeCallback
  | errorCallback => rfl

theorem lookup_foldl_perform_of_ne (about : ∀ effect ∈ new, effect.About own)
    (differs : fd ≠ own) (valid : 0 ≤ fd) (server : WebServer) :
    (new.foldl perform server).descriptors.interest.lookup fd =
      server.descriptors.interest.lookup fd := by
  induction new generalizing server with
  | nil => rfl
  | cons effect new ih =>
      rw [List.forall_mem_cons] at about
      exact (ih about.2 _).trans (lookup_perform_of_ne about.1 differs valid)

/-- Effects that leave the descriptor with the event loop. -/
theorem lookup_foldl_perform_asks {events : UInt32} (quiet : ∀ effect ∈ new, ¬effect.IsRelease)
    (watched : server.descriptors.interest.lookup fd = some events) :
    (new.foldl perform server).descriptors.interest.lookup fd =
      some (new.foldl (Effect.asks fd) events) := by
  induction new generalizing server events with
  | nil => exact watched
  | cons effect new ih =>
      rw [List.forall_mem_cons] at quiet
      refine ih quiet.2 ?_
      cases effect with
      | updateFd other read write =>
          by_cases same : other = fd
          · rw [Effect.asks, if_pos same]
            exact same ▸ lookup_updateFd (same ▸ watched)
          · rw [Effect.asks, if_neg same]
            simp only [perform, Descriptors.updateFd]
            split
            next => exact (Finmap.lookup_insert_of_ne _ (Ne.symm same)).trans watched
            next => exact watched
      | removeFd | closeSocket => exact absurd trivial quiet.1
      | sent | onConnection | onDisconnection | error | readCallback | writeCallback
      | errorCallback => exact watched

/-! ## What epoll watches -/

/-- Open connections are watched for what they have asked for. -/
def Attends (server : WebServer) : Prop :=
  ∀ (id : Nat) (conn : Connection), server.clients[id]? = some conn → conn.IsOpen →
    server.descriptors.interest.lookup conn.socketFd = some conn.asked

/-- Open connections have different descriptors. -/
theorem Consistent.socketFd_ne (consistent : server.Consistent)
    (client : server.clients[id]? = some conn) (opened : conn.IsOpen)
    (isClient : server.clients[other]? = some found) (isOpen : found.IsOpen)
    (differs : other ≠ id) : found.socketFd ≠ conn.socketFd := by
  intro same
  have callback := (consistent.opened id conn client opened).2
  have isCallback := (consistent.opened other found isClient isOpen).2
  rw [same, callback] at isCallback
  cases isCallback
  exact differs rfl

theorem Attends.settle (attends : server.Attends) (consistent : server.Consistent)
    (client : server.clients[id]? = some conn) (opened : conn.IsOpen) (ownEffects : conn.Own after)
    (stays : after.IsOpen → conn.Stays after) : (server.settle id conn after).Attends := by
  intro other found isClient isOpen
  rw [settle_clients] at isClient
  rcases ownEffects.effects with ⟨new, effects, about⟩
  rw [lookup_settle effects]
  rcases (getElem?_replace client).mp isClient with ⟨rfl, rfl⟩ | ⟨differs, isClient⟩
  · rcases stays isOpen with ⟨-, socketFd, quiet, effects', isQuiet⟩
    cases List.append_cancel_left (effects.symm.trans effects')
    rw [socketFd, Connection.asked_of_effects effects socketFd]
    exact lookup_foldl_perform_asks isQuiet (attends other conn client opened)
  · have apart := consistent.socketFd_ne client opened isClient isOpen differs
    have valid := (consistent.ready other found isClient).socketFd_nonneg isOpen
    rw [lookup_foldl_perform_of_ne about apart valid]
    exact attends other found isClient isOpen

theorem Attends.closeClient (attends : server.Attends) (consistent : server.Consistent) (id : Nat) :
    (server.closeClient id).Attends := by
  rw [WebServer.closeClient]
  split
  next conn client =>
      split
      next opened =>
          have changes : conn.Changes [] 0 conn.closed := .of_change .closed
          exact attends.settle consistent client opened changes.own
            fun isOpen => absurd isOpen (Connection.not_isOpen_closed conn)
      next => exact attends
  next => exact attends

theorem Attends.sweepEntry (attends : server.Attends) (consistent : server.Consistent) (now : Nat)
    (entry : Σ _ : Int, Nat) : (sweepEntry config now server entry).Attends := by
  rw [WebServer.sweepEntry]
  split
  next =>
      split
      next => exact attends.closeClient consistent entry.2
      next => exact attends
  next => exact attends

/-! ## New connections -/

theorem Attends.registered (attends : server.Attends) (consistent : server.Consistent)
    (fresh : fd ∉ server.openFds) (now : Nat) : (server.registered fd now).Attends := by
  intro id conn client opened
  have made : ((server.took fd).made (newClient fd now)).clients[id]? = some conn := client
  rcases getElem?_made.mp made with ⟨-, rfl⟩ | client
  · exact Finmap.lookup_insert _
  · have isOpen := (consistent.opened id conn client opened).1
    have differs : conn.socketFd ≠ fd := fun same => fresh (same ▸ isOpen)
    exact (Finmap.lookup_insert_of_ne _ differs).trans (attends id conn client opened)

theorem Attends.abandoned (attends : server.Attends) (consistent : server.Consistent)
    (fresh : fd ∉ server.openFds) (now : Nat) : (server.abandoned fd now).Attends := by
  intro id conn client opened
  have made : ((server.took fd).made (lostClient fd now)).clients[id]? = some conn := client
  rcases getElem?_made.mp made with ⟨-, rfl⟩ | client
  · exact absurd opened (not_isOpen_lostClient fd now)
  · have isOpen := (consistent.opened id conn client opened).1
    have differs : conn.socketFd ≠ fd := fun same => fresh (same ▸ isOpen)
    have kept := (Finmap.lookup_erase_ne differs).trans (attends id conn client opened)
    exact (Finmap.lookup_erase_ne differs).trans kept

theorem Attends.handleNewConnection {arrival : Arrival} (attends : server.Attends)
    (invariant : server.Invariant) (possible : server.Possible arrival.accept)
    (final : (handleNewConnection config arrival server).Final next) : next.Attends := by
  have outcome : ArrivalOutcome config server arrival (WebServer.handleNewConnection config arrival
    server) := handleNewConnection_outcome invariant.free arrival possible
  generalize ended : WebServer.handleNewConnection config arrival server = result at outcome final
  cases outcome with
  | nothing | unmade =>
      cases final
      exact attends
  | unwatched =>
      rw [handleNewConnection_unwatched possible.2.1] at ended
      rw [← ended] at final
      cases final
      exact attends.abandoned invariant.consistent possible.2.2 _
  | untabled | added =>
      cases final
      exact attends.registered invariant.consistent possible.2.2 _

/-! ## Steps -/

theorem Attends.handleIoEvent {events : UInt32} {arrival : Arrival}
    {calls : Connection.SystemCalls} (attends : server.Attends) (invariant : server.Invariant)
    (possible : server.Possible arrival.accept)
    (final : (handleIoEvent config fd events arrival calls server).Final next) :
    next.Attends := by
  have consistent := invariant.consistent
  rcases consistent.final_handleIoEvent final with ⟨-, rfl⟩ | ⟨-, arrives⟩ |
    ⟨id, conn, after, -, client, rfl, opened, finalAfter⟩
  · exact attends
  · exact attends.handleNewConnection invariant possible arrives
  · have ready := consistent.ready id conn client
    have turns : conn.turn (.event events calls) = some after :=
      Outcome.ending_eq_some_iff.mpr finalAfter
    have changes := Connection.changes_turn ready turns
    refine attends.settle consistent client opened changes.own fun isOpen => ?_
    rcases Connection.callback_settles ready opened finalAfter with
      ⟨-, ⟨-, closes⟩ | ⟨-, stays⟩⟩
    · exact absurd isOpen closes.not_isOpen
    · exact stays

/-- A loop over the table that closes connections. -/
theorem Attends.foldl {pass : WebServer → (Σ _ : Int, Nat) → WebServer}
    (attends : server.Attends) (consistent : server.Consistent)
    (keeps : ∀ (server : WebServer) (entry : Σ _ : Int, Nat), server.Consistent →
      (pass server entry).Consistent)
    (each : ∀ (server : WebServer) (entry : Σ _ : Int, Nat), server.Attends →
      server.Consistent → (pass server entry).Attends)
    (order : List (Σ _ : Int, Nat)) : (order.foldl pass server).Attends := by
  induction order generalizing server with
  | nil => exact attends
  | cons entry order ih =>
      exact ih (each server entry attends consistent) (keeps server entry consistent)

theorem keeps_attends (config : Config) :
    Keeps (step config) (fun _ => True) fun server => server.Invariant ∧ server.Attends := by
  rintro server action next - taken ⟨invariant, attends⟩
  refine ⟨keeps_invariant config server action next trivial taken invariant, ?_⟩
  have locked := invariant.consistent.locked true
  have attendsLocked : (managerMutex.setHeld true server).Attends := attends
  cases action with
  | arrive =>
      cases taken
      exact attends
  | ioEvent fd events arrival calls =>
      rcases Option.ite_none_right_eq_some.mp taken with ⟨possible, ends⟩
      exact attends.handleIoEvent invariant possible (Outcome.ending_eq_some_iff.mp ends)
  | cleanupTimeoutConnections now order =>
      cases step_cases invariant.consistent invariant.free taken with
      | cleanup =>
          exact attendsLocked.foldl locked
            (fun _ entry known => known.sweepEntry config now entry)
            (fun _ entry attends known => attends.sweepEntry known now entry) order
  | closeAllConnections order =>
      cases step_cases invariant.consistent invariant.free taken with
      | closeAll =>
          exact attendsLocked.foldl locked (fun _ entry known => known.closeClient entry.2)
            (fun _ entry attends known => attends.closeClient known entry.2) order

theorem tuned_made (made : Made conn) : conn.Tuned := by
  cases made with
  | started fd now valid => exact ⟨ready_newClient valid now, fun _ => rfl⟩
  | lost fd now =>
      exact ⟨ready_lostClient fd now, fun opened => absurd opened (not_isOpen_lostClient fd now)⟩

/-- **What epoll watches.**  At any time the descriptor of an open connection is watched for
reading, and for writing exactly in the state `WRITING`. -/
theorem lookup_interest_of_run {listenFd : Int} {actions : List Action}
    (ran : run (step config) (started listenFd) actions = some server)
    (client : server.clients[id]? = some conn) (opened : conn.IsOpen) :
    server.descriptors.interest.lookup conn.socketFd = some (Connection.askedIn conn.state) := by
  have start : (started listenFd).Attends := fun id conn client => by cases client
  have attends := ((keeps_attends config).run ran (fun _ _ => trivial)
    ⟨invariant_started listenFd, start⟩).2
  have tuned :=
    forall_clients_of_run (fun _ => tuned_made) Connection.keeps_tuned ran id conn client
  rw [attends id conn client opened, tuned.asked opened]

end PPServer.Server.WebServer
