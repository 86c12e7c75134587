import PPServer.Net.Stepwise
import PPServer.Server.ConnectionTable

/-!
# The operations of the server step by step

What the loop thread runs, with every state of the server that it passes through: the steps of a
connection are those of its operation, each with its effects.
-/

namespace PPServer.Server.WebServer

open Locking Net EventLoop

variable {config : Config} {server : WebServer} {id : Nat} {conn : Connection}

def onClientSteps (id : Nat) {op : Connection.Op PUnit} (steps : Steps op) :
    Steps (onClient id op) where
  states server :=
    match server.clients[id]? with
    | some conn => (steps.states conn).map (server.settle id conn)
    | none => []
  ends server := by
    simp only [onClient]
    cases client : server.clients[id]? with
    | none => rfl
    | some conn =>
        calc ((steps.states conn).map (server.settle id conn)).getLastD server
          _ = ((steps.states conn).map (server.settle id conn)).getLastD
                (server.settle id conn conn) := by rw [settle_self client]
          _ = server.settle id conn ((steps.states conn).getLastD conn) := List.getLastD_map
          _ = server.settle id conn (op conn).state := by rw [steps.ends]
          _ = ((op conn).mapState (server.settle id conn)).state := by cases op conn <;> rfl

/-! ## `ConnectionManager` -/

def addConnectionSteps (config : Config) (fd : Int) (id : Nat) :
    Steps (addConnection config fd id) :=
  .lockGuard managerMutex <| .getBind fun _ =>
    .ite (.pure _) (.bind (.modify _) fun _ => .pure _)

def removeConnection (fd : Int) : Op PUnit :=
  lockGuard managerMutex do
    modify fun server => { server with connections := server.connections.erase fd }

def removeConnectionSteps (fd : Int) : Steps (removeConnection fd) :=
  .lockGuard managerMutex (.modify _)

def getConnection (fd : Int) : Op (Option Nat) :=
  lockGuard managerMutex do
    let server ← get
    return server.connections.lookup fd

def getConnectionSteps (fd : Int) : Steps (getConnection fd) :=
  .lockGuard managerMutex <| .getBind fun _ => .pure _

/-- `GetStatistics`, which gives the number of connections twice. -/
def getStatistics : Op (Nat × Nat) :=
  lockGuard managerMutex do
    let server ← get
    return (server.connections.keys.card, server.connections.keys.card)

def getStatisticsSteps : Steps getStatistics :=
  .lockGuard managerMutex <| .getBind fun _ => .pure _

def cleanupEntrySteps (config : Config) (now : Nat) (entry : Σ _ : Int, Nat) :
    Steps (cleanupEntry config now entry) :=
  .getBind fun server =>
    match server.clients[entry.2]? with
    | some _ =>
        .ite (.bind (onClientSteps entry.2 Connection.closeSteps) fun _ => .modify _) (.pure _)
    | none => .pure _

def cleanupTimeoutConnectionsSteps (config : Config) (now : Nat)
    (order : List (Σ _ : Int, Nat)) : Steps (cleanupTimeoutConnections config now order) :=
  .lockGuard managerMutex (.forM (cleanupEntrySteps config now) order)

def closeAllConnectionsSteps (order : List (Σ _ : Int, Nat)) :
    Steps (closeAllConnections order) :=
  .lockGuard managerMutex <|
    .bind (.forM (fun entry => onClientSteps entry.2 Connection.closeSteps) order) fun _ =>
      .modify _

/-! ## New connections -/

def accept4Steps : (accept : Accept) → Steps (accept4 accept)
  | .accepted _ | .aborted => .bind (.modify _) fun _ => .pure _
  | .interrupted | .wouldBlock | .failed => .pure _

def makeConnectionSteps (fd : Int) (now : Nat) :
    (setupFailure : Option (SetupCall × Bytes)) → Steps (makeConnection fd now setupFailure)
  | some _ => .throwing _
  | none => .getBind fun _ => .bind (.modify _) fun _ => .pure _

def addFdSteps (fd : Int) (events : UInt32) (callback : Callback) :
    (epoll : EpollAdd) → Steps (addFd fd events callback epoll)
  | .done => .modify _
  | .failed _ => .throwing _

def handleNewConnectionSteps (config : Config) (arrival : Arrival) :
    Steps (handleNewConnection config arrival) :=
  .bind (accept4Steps arrival.accept) fun _ => .ite (.pure _) <|
    .bind (makeConnectionSteps _ _ arrival.setupFailure) fun id =>
      .bind (onClientSteps id Connection.setHandlerSteps) fun _ =>
        .bind (.unwinding (onClientSteps id Connection.destroySteps)
          (addFdSteps _ _ _ arrival.epollAdd)) fun _ =>
          .bind (addConnectionSteps config _ id) fun _ =>
            onClientSteps id (Connection.startSteps arrival.now)

/-! ## Events -/

def handleIoEventSteps (config : Config) (fd : Int) (events : UInt32) (arrival : Arrival)
    (calls : Connection.SystemCalls) : Steps (handleIoEvent config fd events arrival calls) :=
  .getBind fun server =>
    match server.descriptors.callbacks.lookup fd with
    | some .newConnection => .attempt (handleNewConnectionSteps config arrival)
    | some (.client id) => .attempt (onClientSteps id (Connection.callbackSteps events calls))
    | none => .pure _

theorem along_unregistered {events : UInt32} {arrival : Arrival}
    {calls : Connection.SystemCalls} {property : WebServer → Prop} {fd : Int}
    (unregistered : server.descriptors.callbacks.lookup fd = none) :
    Along property (handleIoEventSteps config fd events arrival calls) server := by
  simp only [Along, handleIoEventSteps, Steps.getBind]
  rw [unregistered]
  exact List.forall_mem_nil _

theorem along_newConnection_iff {events : UInt32} {arrival : Arrival}
    {calls : Connection.SystemCalls} {property : WebServer → Prop} {fd : Int}
    (registered : server.descriptors.callbacks.lookup fd = some .newConnection) :
    Along property (handleIoEventSteps config fd events arrival calls) server ↔
      Along property (handleNewConnectionSteps config arrival) server := by
  simp only [Along, handleIoEventSteps, Steps.getBind]
  rw [registered]
  rfl

theorem along_callback_iff {events : UInt32} {arrival : Arrival}
    {calls : Connection.SystemCalls} {property : WebServer → Prop} {fd : Int}
    (registered : server.descriptors.callbacks.lookup fd = some (.client id)) :
    Along property (handleIoEventSteps config fd events arrival calls) server ↔
      Along property (onClientSteps id (Connection.callbackSteps events calls)) server := by
  simp only [Along, handleIoEventSteps, Steps.getBind]
  rw [registered]
  rfl

/-! ## The points of an operation of a connection -/

variable {property : WebServer → Prop} {op : Connection.Op PUnit} {steps : Steps op}
variable {fd : Int}

theorem along_onClient_iff (client : server.clients[id]? = some conn) :
    Along property (onClientSteps id steps) server ↔
      Along (fun point => property (server.settle id conn point)) steps conn := by
  simp only [Along, onClientSteps, client, List.forall_mem_map]

/-- A callback is lost if the effects remove its descriptor, and only then. -/
theorem lookup_foldl_perform (server : WebServer) (effects : List Effect) (fd : Int) :
    (effects.foldl perform server).descriptors.callbacks.lookup fd =
      if .removeFd fd ∈ effects then none else server.descriptors.callbacks.lookup fd := by
  induction effects generalizing server with
  | nil => rfl
  | cons effect effects ih =>
      rw [List.foldl_cons, ih]
      by_cases removes : effect = .removeFd fd
      · rw [removes]
        simp [perform, Descriptors.removeFd]
      · have same : (server.perform effect).descriptors.callbacks.lookup fd =
            server.descriptors.callbacks.lookup fd := by
          cases effect with
          | removeFd other =>
              have differs : fd ≠ other := fun same => removes (congrArg _ same.symm)
              exact Finmap.lookup_erase_ne differs
          | updateFd | closeSocket | sent | onConnection | onDisconnection | error
          | readCallback | writeCallback | errorCallback => rfl
        have notRemoved : Effect.removeFd fd ≠ effect := Ne.symm removes
        simp only [same, List.mem_cons, notRemoved, false_or]

/-! ## The points of `HandleNewConnection` -/

/-- What `HandleNewConnection` leaves as it was: the callbacks of the sockets that were open, the
connections that were there, and, unless it comes to `AddConnection`, the mutex. -/
structure Arriving (server : WebServer) (arrival : Arrival) (point : WebServer) : Prop where
  callbacks : ∀ fd ∈ server.openFds, point.descriptors.callbacks.lookup fd =
    server.descriptors.callbacks.lookup fd
  clients : ∃ made, point.clients = server.clients ++ made ∧
    ∀ conn ∈ made, conn.bufferMutexHeld = false
  free : ¬Completes arrival → point.managerMutexHeld = server.managerMutexHeld

/-- The effects remove no other descriptor, and the mutex is free. -/
structure Harmless (fd : Int) (conn : Connection) : Prop where
  removes : ∀ other, .removeFd other ∈ conn.effects → other = fd
  unlocked : conn.bufferMutexHeld = false

theorem harmless_setHandler (fd : Int) (now : Nat) :
    Along (Harmless fd) Connection.setHandlerSteps (Connection.new fd now) :=
  .modify ⟨by simp [Connection.new], rfl⟩

theorem harmless_destroy {fd : Int} (valid : 0 ≤ fd) (now : Nat) :
    Along (Harmless fd) Connection.destroySteps (setUpClient fd now) := by
  have none : Harmless fd { setUpClient fd now with state := .closing } :=
    ⟨by simp [setUpClient, Connection.new], rfl⟩
  have removed : Harmless fd
      { setUpClient fd now with state := .closing, effects := [.removeFd fd] } :=
    ⟨by simp, rfl⟩
  have closed : Harmless fd
      { setUpClient fd now with
        state := .closing
        effects := [.removeFd fd, .closeSocket fd] } :=
    ⟨by simp, rfl⟩
  refine .getBind (.ite (fun _ => .pure _ _) fun _ => .modify_bind none (.modify_bind removed ?_))
  refine .ite (fun _ => .modify_bind closed (.modify_bind ⟨closed.removes, rfl⟩ ?_))
    fun invalid => absurd valid invalid
  exact .ite (fun _ => .pure _ _) fun noHandler => absurd rfl noHandler

theorem harmless_start (fd : Int) (now : Nat) :
    Along (Harmless fd) (Connection.startSteps now) (setUpClient fd now) := by
  have none (state : ConnectionState) (time : Nat) :
      Harmless fd { setUpClient fd now with state, lastActivityTime := time } :=
    ⟨by simp [setUpClient, Connection.new], rfl⟩
  refine .modify_bind (none _ _) (.modify_bind (none _ _) (.getBind ?_))
  exact .ite (fun _ => .modify ⟨by simp [setUpClient, Connection.new], rfl⟩) fun _ => .pure _ _

variable {arrival : Arrival}

/-- An operation of the connection that is being set up. -/
theorem arriving_onClient {before : WebServer} (arriving : Arriving server arrival before)
    (last : before.clients = server.clients) (fresh : fd ∉ server.openFds)
    (noEffects : conn.effects = []) (harmless : Along (Harmless fd) steps conn) :
    Along (Arriving server arrival) (onClientSteps server.clients.length steps)
      (before.made conn) := by
  have client : (before.made conn).clients[server.clients.length]? = some conn := by
    rw [← last]
    exact List.getElem?_concat_length
  rw [along_onClient_iff client]
  intro point member
  have isHarmless := harmless point member
  constructor
  case callbacks =>
    intro other opened
    have kept : .removeFd other ∉ point.effects.drop conn.effects.length := by
      rw [noEffects, List.length_nil, List.drop_zero]
      exact fun removed => fresh (isHarmless.removes other removed ▸ opened)
    rw [settle, lookup_foldl_perform, if_neg kept]
    exact arriving.callbacks other opened
  case clients =>
    refine ⟨[point], ?_, List.forall_mem_singleton.mpr isHarmless.unlocked⟩
    rw [settle_clients, made, last]
    simp
  case free =>
    intro notCompletes
    rw [settle_managerMutexHeld]
    exact arriving.free notCompletes

/-- `AddConnection` changes the table, and the mutex for a time. -/
theorem arriving_addConnection {before : WebServer} (arriving : Arriving server arrival before)
    (completes : Completes arrival) (fd : Int) (id : Nat) :
    Along (Arriving server arrival) (addConnectionSteps config fd id) before := by
  refine Within.along (.lockGuard (.getBind fun _ => .ite (.pure _)
    (.bind (.modify fun _ known => ?_) fun _ => .pure _)) fun _ _ known => ?_) arriving
  · exact ⟨known.callbacks, known.clients, fun other => absurd completes other⟩
  · exact ⟨known.callbacks, known.clients, fun other => absurd completes other⟩

/-- `HandleNewConnection` from `AddFd` on. -/
theorem arriving_register {fd : Int} {now : Nat} {epollAdd : EpollAdd}
    (free : server.managerMutexHeld = false) (fresh : fd ∉ server.openFds) (valid : 0 ≤ fd)
    (arriving : Arriving server ⟨.accepted fd, none, epollAdd, now⟩ (server.took fd)) :
    Along (Arriving server ⟨.accepted fd, none, epollAdd, now⟩)
      (.bind (.unwinding (onClientSteps server.clients.length Connection.destroySteps)
          (addFdSteps fd (epollRead ||| epollEt) (.client server.clients.length) epollAdd))
        fun _ => .bind (addConnectionSteps config fd server.clients.length) fun _ =>
          onClientSteps server.clients.length (Connection.startSteps now))
      ((server.took fd).made (setUpClient fd now)) := by
  cases epollAdd with
  | failed text =>
      refine .bind (.unwinding (.throwing _ _) fun error after throws => ?_)
        fun value after returns => ?_
      · cases throws
        exact arriving_onClient arriving rfl fresh rfl (harmless_destroy valid now)
      · cases returned_of_unwinding returns
  | done =>
      let watched : WebServer :=
        { server.took fd with
          descriptors := server.descriptors.addFd fd (epollRead ||| epollEt)
            (.client server.clients.length) }
      have kept (other : Int) (opened : other ∈ server.openFds) :
          watched.descriptors.callbacks.lookup other =
            server.descriptors.callbacks.lookup other := by
        have differs : other ≠ fd := by
          rintro rfl
          exact fresh opened
        exact Finmap.lookup_insert_of_ne _ differs
      have watching : Arriving server ⟨.accepted fd, none, .done, now⟩ watched :=
        ⟨kept, arriving.clients, arriving.free⟩
      have made : Arriving server ⟨.accepted fd, none, .done, now⟩
          (watched.made (setUpClient fd now)) :=
        ⟨kept, ⟨[setUpClient fd now], rfl, by simp [setUpClient, Connection.new]⟩,
          arriving.free⟩
      have starts := harmless_start fd now
      refine .bind (.unwinding (.modify made) fun _ _ throws => by cases throws)
        fun value after returns => ?_
      cases returned_of_unwinding returns
      have completes : Completes ⟨.accepted fd, none, .done, now⟩ := ⟨⟨fd, rfl⟩, rfl, rfl⟩
      refine .bind (arriving_addConnection made completes fd _) fun added after returns => ?_
      have adds := addConnection_returns
        (show (watched.made (setUpClient fd now)).managerMutexHeld = false from free) config fd
        server.clients.length
      split at adds
      next =>
          cases returns.symm.trans adds
          exact arriving_onClient watching rfl fresh rfl starts
      next =>
          let tabled : WebServer :=
            { watched with
              connections := server.connections.insert fd server.clients.length }
          have tabling : Arriving server ⟨.accepted fd, none, .done, now⟩ tabled :=
            ⟨kept, arriving.clients, arriving.free⟩
          cases returns.symm.trans adds
          exact arriving_onClient tabling rfl fresh rfl starts

theorem along_arriving (free : server.managerMutexHeld = false)
    (possible : server.Possible arrival.accept) :
    Along (Arriving server arrival) (handleNewConnectionSteps config arrival) server := by
  rcases arrival with ⟨accept, setupFailure, epollAdd, now⟩
  have start : Arriving server ⟨accept, setupFailure, epollAdd, now⟩ server :=
    ⟨fun _ _ => rfl, ⟨[], by simp, by simp⟩, fun _ => rfl⟩
  cases accept with
  | interrupted | wouldBlock | failed =>
      refine .bind (.pure _ _) fun clientFd after returns => ?_
      cases returns
      exact .ite (fun _ => .pure _ _) fun valid => absurd (by decide) valid
  | aborted =>
      refine .bind (.modify_bind ⟨start.callbacks, start.clients, start.free⟩ (.pure _ _))
        fun clientFd after returns => ?_
      cases returns
      exact .ite (fun _ => .pure _ _) fun valid => absurd (by decide) valid
  | accepted fd =>
      have fresh : fd ∉ server.openFds := possible.2.2
      have valid : 0 ≤ fd := possible.2.1
      have took : Arriving server ⟨.accepted fd, setupFailure, epollAdd, now⟩
          (server.took fd) := ⟨start.callbacks, start.clients, start.free⟩
      refine .bind (.modify_bind took (.pure _ _)) fun clientFd after returns => ?_
      cases returns
      refine .ite (fun invalid => absurd valid (Int.not_le.mpr invalid)) fun _ => ?_
      cases setupFailure with
      | some failure => exact .bind (.throwing _ _) fun _ _ returns => by cases returns
      | none =>
          have made : Arriving server ⟨.accepted fd, none, epollAdd, now⟩
              ((server.took fd).made (Connection.new fd now)) :=
            ⟨start.callbacks, ⟨[Connection.new fd now], rfl, by simp [Connection.new]⟩,
              start.free⟩
          refine .bind (.getBind (.modify_bind made (.pure _ _))) fun id after returns => ?_
          cases returns
          refine .bind (arriving_onClient took rfl fresh rfl (harmless_setHandler fd now))
            fun value after returns => ?_
          have setsUp := onClient_made (server.took fd) (setHandler_new fd now)
          cases returns.symm.trans setsUp
          exact arriving_register free fresh valid took

end PPServer.Server.WebServer
