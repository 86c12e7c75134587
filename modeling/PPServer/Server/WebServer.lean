import PPServer.Library.FiniteMap
import PPServer.Library.Transition
import PPServer.Net.Lifetime

/-!
# `WebServer`

The server after `Start`, run by its event loop: the listening socket, the connections, the
callbacks of the event loop and the table of the connection manager.  One step is one event, one
call to the connection manager, or the arrival of a client in the listen queue.

Connections are named by numbers in the order of their making, and kept after their end, since a
descriptor is used again once it is closed.  What a connection does to the event loop and to the
kernel is read off its `effects`.  A callback that closes its connection is destroyed while it
runs; it is taken to run on with the connection it has captured.

The callbacks of `WebServer` are never set.  Debug output, the statistics and the addresses are
left out.
-/

namespace PPServer.Server

open Locking Net EventLoop

/-- `ConnectionManager::Config`. -/
structure Config where
  maxConnections : Nat := 10000
  timeoutSeconds : Int := 30

/-- The callbacks that the server registers. -/
inductive Callback where
  /-- The lambda of `Start`. -/
  | newConnection
  /-- The lambda of `HandleNewConnection` with the connection it has captured. -/
  | client (id : Nat)
  deriving DecidableEq

structure WebServer where
  descriptors : Descriptors Callback := {}
  clients : List Connection := []
  /-- `connections_`. -/
  connections : Finmap fun _ : Int => Nat := ∅
  managerMutexHeld : Bool := false
  /-- The sockets that are open in the kernel. -/
  openFds : Finset Int := ∅
  /-- The length of the listen queue. -/
  waiting : Nat := 0

/-! ## System calls -/

/-- The outcomes of `accept4`. -/
inductive Accept where
  | accepted (fd : Int)
  /-- `ECONNABORTED`: the first connection in the queue is gone. -/
  | aborted
  /-- `EINTR`. -/
  | interrupted
  /-- `EAGAIN`. -/
  | wouldBlock
  /-- An error that has nothing to do with the queue, such as `EMFILE`. -/
  | failed
  deriving DecidableEq

/-- The system calls in the constructor of `Connection` that are checked. -/
inductive SetupCall where
  | getpeername
  | setNonBlocking
  | setNoDelay
  | setKeepAlive
  deriving DecidableEq

/-- The message of the exception when the call fails. -/
def SetupCall.message : SetupCall → Bytes
  | .getpeername => bytes "Failed to get peer address"
  | .setNonBlocking => bytes "Failed to set non-blocking mode"
  | .setNoDelay => bytes "Failed to set TCP_NODELAY"
  | .setKeepAlive => bytes "Failed to set SO_KEEPALIVE"

/-- The outcomes of the system calls of `HandleNewConnection`. -/
structure Arrival where
  accept : Accept
  /-- The call that fails in the constructor, with the text of `errno`. -/
  setupFailure : Option (SetupCall × Bytes) := none
  epollAdd : EpollAdd := .done
  now : Nat

namespace WebServer

/-- A function that acts on the server. -/
abbrev Op (α : Type) := Call Exception WebServer α

/-- `ConnectionManager::mutex_`. -/
def managerMutex : Mutex WebServer where
  held := (·.managerMutexHeld)
  setHeld isHeld server := { server with managerMutexHeld := isHeld }
  held_setHeld _ _ := rfl

/-! ## Operations of a connection -/

/-- What an effect of a connection does to the event loop and to the kernel. -/
def perform (server : WebServer) : Effect → WebServer
  | .updateFd fd read write =>
      { server with
        descriptors := server.descriptors.updateFd fd
          ((if read then epollRead else 0) ||| (if write then epollWrite else 0)) }
  | .removeFd fd => { server with descriptors := server.descriptors.removeFd fd }
  | .closeSocket fd =>
      { server with
        descriptors := server.descriptors.closed fd
        openFds := server.openFds.erase fd }
  | _ => server

/-- The server after an operation has made `after` of a connection. -/
def settle (server : WebServer) (id : Nat) (conn after : Connection) : WebServer :=
  (after.effects.drop conn.effects.length).foldl perform
    { server with clients := server.clients.set id after }

def onClient (id : Nat) (op : Connection.Op PUnit) : Op PUnit := fun server =>
  match server.clients[id]? with
  | some conn => (op conn).mapState (server.settle id conn)
  | none => .returned ⟨⟩ server

/-! ## `ConnectionManager` -/

def addConnection (config : Config) (fd : Int) (id : Nat) : Op Bool :=
  lockGuard managerMutex do
    let server ← get
    if config.maxConnections ≤ server.connections.keys.card then return false
    modify fun server => { server with connections := server.connections.insert fd id }
    return true

/-- The connection has been idle for too long. -/
def TimedOut (config : Config) (now : Nat) (conn : Connection) : Prop :=
  config.timeoutSeconds < (now : Int) - conn.lastActivityTime

instance (config : Config) (now : Nat) (conn : Connection) : Decidable (TimedOut config now conn) :=
  inferInstanceAs (Decidable (_ < _))

/-- The body of the loop of `CleanupTimeoutConnections`. -/
def cleanupEntry (config : Config) (now : Nat) (entry : Σ _ : Int, Nat) : Op PUnit := do
  let server ← get
  match server.clients[entry.2]? with
  | some conn =>
      if TimedOut config now conn then
        onClient entry.2 Connection.close
        modify fun server => { server with connections := server.connections.erase entry.1 }
  | none => return

def cleanupTimeoutConnections (config : Config) (now : Nat) (order : List (Σ _ : Int, Nat)) :
    Op PUnit :=
  lockGuard managerMutex (order.forM (cleanupEntry config now))

def closeAllConnections (order : List (Σ _ : Int, Nat)) : Op PUnit :=
  lockGuard managerMutex do
    order.forM fun entry => onClient entry.2 Connection.close
    modify fun server => { server with connections := ∅ }

/-! ## New connections -/

/-- `accept4`, which answers -1 where it fails. -/
def accept4 : Accept → Op Int
  | .accepted fd => do
      modify fun server =>
        { server with
          waiting := server.waiting - 1
          openFds := insert fd server.openFds }
      return fd
  | .aborted => do
      modify fun server => { server with waiting := server.waiting - 1 }
      return -1
  | .interrupted | .wouldBlock | .failed => return -1

/-- `std::make_shared<Connection>`. -/
def makeConnection (fd : Int) (now : Nat) : Option (SetupCall × Bytes) → Op Nat
  | some (call, text) => Call.throwing (.runtimeError (call.message ++ bytes ": " ++ text))
  | none => do
      let server ← get
      modify fun server => { server with clients := server.clients ++ [Connection.new fd now] }
      return server.clients.length

/-- `EventLoop::AddFd`, which throws if `epoll_ctl` fails. -/
def addFd (fd : Int) (events : UInt32) (callback : Callback) : EpollAdd → Op PUnit
  | .done => modify fun server =>
      { server with descriptors := server.descriptors.addFd fd events callback }
  | .failed text => Call.throwing (.runtimeError (bytes "Failed to add fd to epoll: " ++ text))

/-- `HandleNewConnection`.  Nothing but the callback shares the connection before it is added to
the table, so it is destroyed if `AddFd` throws. -/
def handleNewConnection (config : Config) (arrival : Arrival) : Op PUnit := do
  let clientFd ← accept4 arrival.accept
  if clientFd < 0 then return
  let id ← makeConnection clientFd arrival.now arrival.setupFailure
  onClient id Connection.setHandler
  unwinding (onClient id Connection.destroy)
    (addFd clientFd (epollRead ||| epollEt) (.client id) arrival.epollAdd)
  let _ ← addConnection config clientFd id
  onClient id (Connection.start arrival.now)

/-! ## Steps -/

/-- `HandleIoEvent`: the callback that is registered, with the outcomes of its system calls. -/
def handleIoEvent (config : Config) (fd : Int) (events : UInt32) (arrival : Arrival)
    (calls : Connection.SystemCalls) : Op PUnit := do
  let server ← get
  match server.descriptors.callbacks.lookup fd with
  | some .newConnection => attempt (handleNewConnection config arrival)
  | some (.client id) => attempt (onClient id (Connection.callback events calls))
  | none => return

/-- What the kernel can answer to `accept4`. -/
def Possible (server : WebServer) : Accept → Prop
  | .accepted fd => 0 < server.waiting ∧ 0 ≤ fd ∧ fd ∉ server.openFds
  | .aborted => 0 < server.waiting
  | .wouldBlock => server.waiting = 0
  | .interrupted | .failed => True

instance (server : WebServer) (accept : Accept) : Decidable (server.Possible accept) := by
  cases accept <;> simp only [Possible] <;> infer_instance

inductive Action where
  /-- A client enters the listen queue. -/
  | arrive
  | ioEvent (fd : Int) (events : UInt32) (arrival : Arrival) (calls : Connection.SystemCalls)
  | cleanupTimeoutConnections (now : Nat) (order : List (Σ _ : Int, Nat))
  | closeAllConnections (order : List (Σ _ : Int, Nat))

/-- One step, `none` if it is not possible or does not come to an end. -/
def step (config : Config) (server : WebServer) : Action → Option WebServer
  | .arrive => some { server with waiting := server.waiting + 1 }
  | .ioEvent fd events arrival calls =>
      if server.Possible arrival.accept then
        (handleIoEvent config fd events arrival calls server).ending
      else none
  | .cleanupTimeoutConnections now order =>
      if FiniteMap.IsOrder server.connections order then
        (WebServer.cleanupTimeoutConnections config now order server).ending
      else none
  | .closeAllConnections order =>
      if FiniteMap.IsOrder server.connections order then
        (WebServer.closeAllConnections order server).ending
      else none

/-- The server that `Start` leaves behind with this listening socket. -/
def started (listenFd : Int) : WebServer where
  descriptors := ({} : Descriptors Callback).addFd listenFd epollRead .newConnection
  openFds := {listenFd}

end WebServer

end PPServer.Server
