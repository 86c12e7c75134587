import PPServer.EventLoop.Run
import PPServer.Net.Closable
import PPServer.Server.Stepwise

/-!
# Signals

`SIGINT` and `SIGTERM` stop the server from within a signal handler, on whatever the interrupted
thread was doing.  `Stop` locks the mutex of the connection manager, and `Close` that of every open
connection in its table, so it waits for ever if the interrupted code holds one of them.
-/

namespace PPServer.Server

open Locking Net EventLoop

/-- The server with what `Start` and `Stop` change around it. -/
structure Process where
  server : WebServer
  /-- `running_` of the server. -/
  running : Bool
  listenFd : Int
  /-- `running_` of the event loop. -/
  loopRunning : Bool
  /-- The counter of the eventfd. -/
  eventFd : Nat

namespace Process

abbrev Op (α : Type) := Call Exception Process α

def onServer {α : Type} (op : WebServer.Op α) : Op α := fun process =>
  (op process.server).mapState fun server => { process with server }

/-- `EventLoop::Stop`. -/
def stopLoop : Op PUnit := do
  modify fun process => { process with loopRunning := false }
  modify fun process => { process with eventFd := wakeUp process.eventFd }

/-- `WebServer::Stop`, which visits the connections in this order. -/
def stop (order : List (Σ _ : Int, Nat)) : Op PUnit := do
  let process ← get
  if !process.running then return
  modify fun process => { process with running := false }
  if 0 ≤ process.listenFd then
    onServer (modify (·.perform (.removeFd process.listenFd)))
    onServer (modify (·.perform (.closeSocket process.listenFd)))
    modify fun process => { process with listenFd := -1 }
  onServer (WebServer.closeAllConnections order)
  stopLoop

def handleSignal (order : List (Σ _ : Int, Nat)) : Op PUnit := do
  stop order
  stopLoop

/-- `SignalHandler`; the constructor has set `instance_`. -/
def signalHandler (order : List (Σ _ : Int, Nat)) : Op PUnit := handleSignal order

end Process

namespace WebServer

variable {config : Config} {server next : WebServer} {id other : Nat} {conn : Connection}
variable {order : List (Σ _ : Int, Nat)}

/-! ## Closing all connections -/

/-- `Close` of the connection blocks. -/
def Stuck (server : WebServer) (id : Nat) : Prop :=
  ∃ conn, server.clients[id]? = some conn ∧ ¬conn.Closable

/-- The interrupted code holds a mutex that `CloseAllConnections` locks. -/
def Obstructed (server : WebServer) : Prop :=
  server.managerMutexHeld = true ∨
    ∃ fd id, server.connections.lookup fd = some id ∧ server.Stuck id

theorem deadlocks_onClient_close_iff :
    Deadlocks (onClient id Connection.close) server ↔ server.Stuck id := by
  rw [Deadlocks, Stuck]
  simp only [onClient]
  cases server.clients[id]? with
  | none => simp
  | some conn => simp [deadlocked_mapState_iff, Connection.Closable, Deadlocks]

/-- A connection that can be closed can be closed again. -/
theorem close_of_closable (closable : conn.Closable) :
    ∃ after, Connection.close conn = .returned ⟨⟩ after ∧ after.Closable := by
  by_cases opened : conn.IsOpen
  · have free := Connection.closable_iff.mp closable opened
    exact ⟨_, Connection.close_of_open opened free,
      Connection.closable_of_not_isOpen (Connection.not_isOpen_closed conn)⟩
  · exact ⟨_, Connection.close_of_closed opened, closable⟩

/-- Closing a connection that is not stuck changes nothing about which connections are. -/
theorem onClient_close_of_not_stuck (notStuck : ¬server.Stuck id) :
    ∃ next, onClient id Connection.close server = .returned ⟨⟩ next ∧
      ∀ other, next.Stuck other ↔ server.Stuck other := by
  cases client : server.clients[id]? with
  | none => exact ⟨server, by simp only [onClient, client], fun _ => Iff.rfl⟩
  | some conn =>
      have closable : conn.Closable := by
        by_contra stuck
        exact notStuck ⟨conn, client, stuck⟩
      rcases close_of_closable closable with ⟨after, returns, closableAfter⟩
      refine ⟨_, onClient_of_returned client returns, fun other => ?_⟩
      have clients : (server.settle id conn after).clients =
          (server.replace id after).clients := settle_clients server id conn after
      by_cases same : other = id
      · subst same
        refine iff_of_false ?_ notStuck
        rintro ⟨found, isClient, stuck⟩
        rw [clients, getElem?_replace client] at isClient
        rcases isClient with ⟨-, rfl⟩ | ⟨differs, -⟩
        · exact stuck closableAfter
        · exact differs rfl
      · simp only [Stuck, clients, getElem?_replace client]
        simp [same]

theorem deadlocks_closeEach_iff :
    Deadlocks (order.forM fun entry => onClient entry.2 Connection.close) server ↔
      ∃ entry ∈ order, server.Stuck entry.2 := by
  induction order generalizing server with
  | nil => simp
  | cons entry order ih =>
      change Deadlocks (onClient entry.2 Connection.close >>= fun _ => order.forM _) server ↔ _
      rw [deadlocks_bind_iff, deadlocks_onClient_close_iff, List.exists_mem_cons_iff]
      refine or_congr_right' fun notStuck => ?_
      rcases onClient_close_of_not_stuck notStuck with ⟨next, returns, same⟩
      constructor
      · rintro ⟨value, other, returns', blocks⟩
        cases returns.symm.trans returns'
        simpa only [same] using ih.mp blocks
      · intro stuck
        refine ⟨⟨⟩, next, returns, ih.mpr ?_⟩
        simpa only [same] using stuck

theorem deadlocks_closeAllConnections_iff
    (isOrder : FiniteMap.IsOrder server.connections order) :
    Deadlocks (closeAllConnections order) server ↔ server.Obstructed := by
  cases held : server.managerMutexHeld with
  | true => exact iff_of_true ⟨server, lockGuard_of_held held⟩ (.inl held)
  | false =>
      have entries : (∃ entry ∈ order, server.Stuck entry.2) ↔
          ∃ fd id, server.connections.lookup fd = some id ∧ server.Stuck id := by
        simp only [isOrder.mem_iff]
        exact ⟨fun ⟨entry, tabled, stuck⟩ => ⟨entry.1, entry.2, tabled, stuck⟩,
          fun ⟨fd, id, tabled, stuck⟩ => ⟨⟨fd, id⟩, tabled, stuck⟩⟩
      have free : managerMutex.held server = false := held
      rw [closeAllConnections, deadlocks_lockGuard_iff free,
        deadlocks_bind_of_never fun _ _ => not_deadlocks_modify _ _, deadlocks_closeEach_iff]
      rw [Obstructed, held, ← entries]
      simp only [Bool.false_eq_true, false_or]
      exact Iff.rfl

end WebServer

namespace Process

variable {process : Process} {order : List (Σ _ : Int, Nat)}

theorem deadlocks_onServer_iff {α : Type} {op : WebServer.Op α} :
    Deadlocks (onServer op) process ↔ Deadlocks op process.server :=
  deadlocked_mapState_iff

theorem not_deadlocks_stopLoop (process : Process) : ¬Deadlocks stopLoop process :=
  not_deadlocks_modify _ _

/-- `Stop` from `CloseAllConnections` on. -/
theorem deadlocks_closeAndStop_iff
    (isOrder : FiniteMap.IsOrder process.server.connections order) :
    Deadlocks (do onServer (WebServer.closeAllConnections order); stopLoop) process ↔
      process.server.Obstructed := by
  rw [deadlocks_bind_of_never fun _ => not_deadlocks_stopLoop, deadlocks_onServer_iff,
    WebServer.deadlocks_closeAllConnections_iff isOrder]

/-- The mutexes of the manager and of the connections are all that the handler can block on. -/
theorem deadlocks_signalHandler_iff
    (isOrder : FiniteMap.IsOrder process.server.connections order) :
    Deadlocks (signalHandler order) process ↔
      process.running = true ∧ process.server.Obstructed := by
  rw [signalHandler, handleSignal, deadlocks_bind_of_never fun _ => not_deadlocks_stopLoop, stop,
    deadlocks_get_bind_iff]
  cases running : process.running with
  | false => simp
  | true =>
      simp only [Bool.not_true, Bool.false_eq_true, if_false, deadlocks_modify_bind_iff, true_and]
      split
      next =>
          let removed := process.server.perform (.removeFd process.listenFd)
          let closed := removed.perform (.closeSocket process.listenFd)
          let unlistening : Process :=
            { process with server := closed, running := false, listenFd := -1 }
          have closes : Deadlocks _ unlistening ↔ _ := deadlocks_closeAndStop_iff isOrder
          exact closes
      next =>
          have closes : Deadlocks _ { process with running := false } ↔ _ :=
            deadlocks_closeAndStop_iff isOrder
          exact closes

/-- The signal handler does not block, whatever the order in which it visits the connections. -/
def Survives (process : Process) : Prop :=
  ∀ order, FiniteMap.IsOrder process.server.connections order →
    ¬Deadlocks (signalHandler order) process

theorem survives_iff :
    process.Survives ↔ process.running = false ∨ ¬process.server.Obstructed := by
  constructor
  · intro survives
    rcases Quotient.exists_rep process.server.connections.entries with ⟨order, isOrder⟩
    have ends := survives order isOrder
    rw [deadlocks_signalHandler_iff isOrder, not_and_or, Bool.not_eq_true] at ends
    exact ends
  · intro unobstructed order isOrder
    rw [deadlocks_signalHandler_iff isOrder, not_and_or, Bool.not_eq_true]
    exact unobstructed

end Process

/-! ## What a signal interrupts -/

/-- What the loop thread is doing. -/
inductive Activity where
  /-- It is in code of the event loop that has to do with neither a connection nor the manager:
  it waits, or handles timers and tasks.  The mutexes that it may hold there are not locked by the
  signal handler, or are recursive. -/
  | eventLoop
  | ioEvent (fd : Int) (events : UInt32) (arrival : Arrival) (calls : Connection.SystemCalls)
  | addConnection (fd : Int) (id : Nat)
  | removeConnection (fd : Int)
  | getConnection (fd : Int)
  | getStatistics
  | cleanupTimeoutConnections (now : Nat) (order : List (Σ _ : Int, Nat))
  | closeAllConnections (order : List (Σ _ : Int, Nat))

namespace Activity

/-- The states that the thread passes through after the one in which it starts. -/
def states (config : Config) (server : WebServer) : Activity → List WebServer
  | .eventLoop => []
  | .ioEvent fd events arrival calls =>
      (WebServer.handleIoEventSteps config fd events arrival calls).states server
  | .addConnection fd id => (WebServer.addConnectionSteps config fd id).states server
  | .removeConnection fd => (WebServer.removeConnectionSteps fd).states server
  | .getConnection fd => (WebServer.getConnectionSteps fd).states server
  | .getStatistics => WebServer.getStatisticsSteps.states server
  | .cleanupTimeoutConnections now order =>
      (WebServer.cleanupTimeoutConnectionsSteps config now order).states server
  | .closeAllConnections order => (WebServer.closeAllConnectionsSteps order).states server

/-- What `accept4` answers is possible. -/
def Possible (server : WebServer) : Activity → Prop
  | .ioEvent _ _ arrival _ => server.Possible arrival.accept
  | _ => True

/-- The activity comes to lock the mutex of the manager, or that of an open connection in its
table. -/
def Locks (server : WebServer) : Activity → Prop
  | .eventLoop => False
  | .ioEvent fd events arrival calls =>
      match server.descriptors.callbacks.lookup fd with
      | some .newConnection => WebServer.Completes arrival
      | some (.client id) =>
          (∃ key, server.connections.lookup key = some id) ∧
            ∃ conn, server.clients[id]? = some conn ∧ conn.LocksOpen events calls
      | none => False
  | .addConnection _ _ | .removeConnection _ | .getConnection _ | .getStatistics
  | .cleanupTimeoutConnections _ _ | .closeAllConnections _ => True

end Activity

/-- The signal handler ends wherever it interrupts the activity. -/
def Process.SurvivesDuring (config : Config) (activity : Activity) (process : Process) : Prop :=
  ∀ point ∈ process.server :: activity.states config process.server,
    { process with server := point }.Survives

namespace WebServer

variable {config : Config} {server : WebServer} {id : Nat} {conn : Connection} {fd : Int}

theorem Invariant.not_obstructed (invariant : server.Invariant) : ¬server.Obstructed := by
  rintro (held | ⟨fd, id, -, conn, client, stuck⟩)
  · cases invariant.free.symm.trans held
  · exact stuck (Connection.closable_of_free (invariant.consistent.ready id conn client).unlocked)

/-- A call that locks the mutex of the manager. -/
theorem not_along_managerMutex {α : Type} {body : Op α} {steps : Steps body}
    (free : server.managerMutexHeld = false) :
    ¬Along (¬Obstructed ·) (steps.lockGuard managerMutex) server := by
  intro along
  have locked := along.locked (show managerMutex.held server = false from free)
  exact locked (.inl rfl)

/-- An operation of a connection obstructs the signal handler while the connection is in the table
and cannot be closed. -/
theorem obstructed_settle_iff (invariant : server.Invariant)
    (client : server.clients[id]? = some conn) (point : Connection) :
    (server.settle id conn point).Obstructed ↔
      (∃ key, server.connections.lookup key = some id) ∧ ¬point.Closable := by
  have clients : (server.settle id conn point).clients = (server.replace id point).clients :=
    settle_clients server id conn point
  simp only [Obstructed, Stuck, clients, settle_connections, settle_managerMutexHeld,
    invariant.free, Bool.false_eq_true, false_or]
  constructor
  · rintro ⟨key, other, tabled, found, isClient, stuck⟩
    rcases (getElem?_replace client).mp isClient with ⟨rfl, rfl⟩ | ⟨-, isClient⟩
    · exact ⟨⟨key, tabled⟩, stuck⟩
    · have unlocked := (invariant.consistent.ready other found isClient).unlocked
      exact absurd (Connection.closable_of_free unlocked) stuck
  · rintro ⟨⟨key, tabled⟩, stuck⟩
    exact ⟨key, id, tabled, point, (getElem?_replace client).mpr (.inl ⟨rfl, rfl⟩), stuck⟩

theorem along_client_obstructed_iff (invariant : server.Invariant)
    (registered : server.descriptors.callbacks.lookup fd = some (.client id)) (events : UInt32)
    (calls : Connection.SystemCalls) :
    Along (¬Obstructed ·) (onClientSteps id (Connection.callbackSteps events calls)) server ↔
      ¬((∃ key, server.connections.lookup key = some id) ∧
        ∃ conn, server.clients[id]? = some conn ∧ conn.LocksOpen events calls) := by
  rcases invariant.consistent.registered fd id registered with ⟨conn, client, opened, -⟩
  have ready := invariant.consistent.ready id conn client
  have here : (∃ other, server.clients[id]? = some other ∧ other.LocksOpen events calls) ↔
      conn.LocksOpen events calls := by
    simp [client]
  rw [along_onClient_iff client, here, not_and, ← Connection.along_closable_iff ready opened]
  simp only [obstructed_settle_iff invariant client, not_and, not_not, Along]
  exact ⟨fun along tabled point member => along point member tabled,
    fun along point member tabled => along tabled point member⟩

/-- `HandleNewConnection` comes to `AddConnection`. -/
theorem obstructed_of_completes (invariant : server.Invariant) {fd : Int} (valid : 0 ≤ fd)
    (now : Nat) :
    ¬Along (¬Obstructed ·)
      (handleNewConnectionSteps config ⟨.accepted fd, none, .done, now⟩) server := by
  intro along
  have accepts : accept4 (.accepted fd) server = .returned fd (server.took fd) := rfl
  have accepted := ((along_bind_of_returned accepts).mp along).2.of_ite_neg (Int.not_lt.mpr valid)
  have makes : makeConnection fd now none (server.took fd) =
      .returned server.clients.length ((server.took fd).made (Connection.new fd now)) := rfl
  have made := ((along_bind_of_returned makes).mp accepted).2
  have setsUp := onClient_made (server.took fd) (setHandler_new fd now)
  have setUp := ((along_bind_of_returned setsUp).mp made).2
  let registering : WebServer :=
    { (server.took fd).made (setUpClient fd now) with
      descriptors := server.descriptors.addFd fd (epollRead ||| epollEt)
        (.client server.clients.length) }
  have watches : addFd fd (epollRead ||| epollEt) (.client server.clients.length) .done
      ((server.took fd).made (setUpClient fd now)) = .returned ⟨⟩ registering := rfl
  have watched := ((along_bind_of_returned (unwinding_of_returned watches)).mp setUp).2
  have free : registering.managerMutexHeld = false := invariant.free
  exact not_along_managerMutex free watched.of_bind

theorem along_newConnection_obstructed_iff (invariant : server.Invariant) {arrival : Arrival}
    (possible : server.Possible arrival.accept) :
    Along (¬Obstructed ·) (handleNewConnectionSteps config arrival) server ↔
      ¬Completes arrival := by
  constructor
  · rintro along ⟨⟨fd, accepted⟩, setUp, watched⟩
    rcases arrival with ⟨accept, setupFailure, epollAdd, now⟩
    cases accepted
    cases setUp
    cases watched
    exact obstructed_of_completes invariant possible.2.1 now along
  · intro notCompletes point member
    have arriving := along_arriving invariant.free possible point member
    rcases arriving.clients with ⟨made, clients, unlockedMade⟩
    rintro (held | ⟨fd, id, -, conn, client, stuck⟩)
    · rw [arriving.free notCompletes, invariant.free] at held
      cases held
    · have member := List.mem_of_getElem? client
      rw [clients, List.mem_append] at member
      rcases member with before | isMade
      · rcases List.getElem?_of_mem before with ⟨other, isClient⟩
        have unlocked := (invariant.consistent.ready other conn isClient).unlocked
        exact stuck (Connection.closable_of_free unlocked)
      · exact stuck (Connection.closable_of_free (unlockedMade conn isMade))

/-! ## All activities -/

theorem along_states_iff (config : Config) (invariant : server.Invariant) {activity : Activity}
    (possible : activity.Possible server) :
    (∀ point ∈ activity.states config server, ¬point.Obstructed) ↔ ¬activity.Locks server := by
  cases activity with
  | eventLoop => simp [Activity.states, Activity.Locks]
  | ioEvent fd events arrival calls =>
      cases registered : server.descriptors.callbacks.lookup fd with
      | none =>
          refine iff_of_true (along_unregistered registered) ?_
          simp [Activity.Locks, registered]
      | some callback =>
          cases callback with
          | newConnection =>
              simp only [Activity.Locks, registered]
              rw [← along_newConnection_obstructed_iff invariant possible]
              exact along_newConnection_iff registered
          | client other =>
              simp only [Activity.Locks, registered]
              rw [← along_client_obstructed_iff invariant registered]
              exact along_callback_iff registered
  | addConnection fd id | removeConnection fd | getConnection fd | getStatistics
  | cleanupTimeoutConnections now order | closeAllConnections order =>
      exact iff_of_false (not_along_managerMutex invariant.free) (not_not.mpr trivial)

/-- **A signal stops the server** wherever it interrupts the loop thread, exactly if the server has
been stopped or the thread is doing nothing that locks the mutex of the manager, or that of an
open connection in its table. -/
theorem survivesDuring_iff {listenFd : Int} {actions : List Action} {process : Process}
    (ran : Transition.run (step config) (started listenFd) actions = some process.server)
    {activity : Activity} (possible : activity.Possible process.server) :
    process.SurvivesDuring config activity ↔
      process.running = false ∨ ¬activity.Locks process.server := by
  have invariant := invariant_of_run ran
  rw [← along_states_iff config invariant possible]
  simp only [Process.SurvivesDuring, Process.survives_iff, List.forall_mem_cons,
    invariant.not_obstructed, not_false_eq_true, or_true, true_and]
  cases process.running with
  | false => simp
  | true => simp

/-- A client waits to be accepted. -/
def arrived : Process where
  server := { started 3 with waiting := 1 }
  running := true
  listenFd := 3
  loopRunning := true
  eventFd := 0

theorem run_arrived : Transition.run (step {}) (started 3) [.arrive] = some arrived.server := rfl

/-- The system calls of a callback that has none. -/
def noCalls : Connection.SystemCalls := ⟨.endOfFile, .done, .accepted 0, .done, 0⟩

theorem survivesDuring_iff_failedAccept :
    arrived.SurvivesDuring {} (.ioEvent 3 epollRead ⟨.failed, none, .done, 1⟩ noCalls) ↔
      arrived.running = false ∨
        ¬(Activity.ioEvent 3 epollRead ⟨.failed, none, .done, 1⟩ noCalls).Locks arrived.server :=
  survivesDuring_iff run_arrived trivial

/-- A signal while the client is entered into the table. -/
theorem not_survivesDuring_accept :
    Transition.run (step {}) (started 3) [.arrive] = some arrived.server ∧
      arrived.running = true ∧ arrived.server.Possible (.accepted 7) ∧
      ¬arrived.SurvivesDuring {} (.ioEvent 3 epollRead ⟨.accepted 7, none, .done, 1⟩ noCalls) := by
  have registered : arrived.server.descriptors.callbacks.lookup 3 = some .newConnection :=
    Finmap.lookup_insert _
  refine ⟨run_arrived, rfl, by decide, fun survives => ?_⟩
  have unobstructed : Along (¬Obstructed ·)
      (handleIoEventSteps {} 3 epollRead ⟨.accepted 7, none, .done, 1⟩ noCalls)
      arrived.server := by
    intro point member
    have ends := survives point (List.mem_cons_of_mem _ member)
    rw [Process.survives_iff] at ends
    exact ends.resolve_left (show ¬true = false by decide)
  exact obstructed_of_completes (invariant_of_run run_arrived) (by decide) 1
    ((along_newConnection_iff registered).mp unobstructed)

end WebServer

end PPServer.Server
