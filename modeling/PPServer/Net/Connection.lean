import PPServer.Library.Locking
import PPServer.Text.Bytes

/-!
# `Connection`

One client connection: its two buffers, the mutex that guards them, and the operations
that the event loop and the handler call on it.  The outcomes of system calls are
arguments.  What a connection does to the rest of the world is recorded in `effects`,
in the order in which it happens.

A callback is code from outside the repository, which installs none: its call is
recorded, and it is taken not to call back into the connection (`Callbacks.Inert`).
Debug output and the members that no operation here reads (the addresses, the creation
time, the timeout, the parser) are left out.
-/

namespace PPServer.Net

open Locking

inductive ConnectionState where
  | disconnected
  | connecting
  | connected
  | reading
  | writing
  | closing
  deriving DecidableEq, Repr

/-- What a connection does to the world around it. -/
inductive Effect where
  /-- `epoll_ctl(EPOLL_CTL_MOD)` has set the events that are watched. -/
  | updateFd (fd : Int) (read write : Bool)
  | removeFd (fd : Int)
  /-- `shutdown` and `close`. -/
  | closeSocket (fd : Int)
  /-- Bytes that `write` has accepted. -/
  | sent (data : Bytes)
  | onConnection
  | onDisconnection
  /-- The line that `NotifyError` writes to `std::cerr`. -/
  | error (fd : Int) (message : Bytes)
  | readCallback
  | writeCallback
  | errorCallback (message : Bytes)
  deriving DecidableEq, Repr

/-- The exceptions that the operations of a connection can throw. -/
inductive Exception where
  | runtimeError (message : Bytes)
  deriving DecidableEq, Repr

structure Connection where
  socketFd : Int
  state : ConnectionState := .connecting
  hasHandler : Bool := false
  readBuffer : Bytes := []
  writeBuffer : Bytes := []
  hasReadCallback : Bool := false
  hasWriteCallback : Bool := false
  hasErrorCallback : Bool := false
  lastActivityTime : Nat
  maxBufferSize : Nat := 1048576
  bufferMutexHeld : Bool := false
  effects : List Effect := []
  deriving DecidableEq

/-! ## System calls -/

/-- The outcomes of `read(socket_fd_, buffer, 4096)`. -/
inductive SocketRead where
  | received (data : Bytes) (nonempty : data ≠ []) (fits : data.length ≤ 4096)
  | endOfFile
  /-- `errno` with its text; `wouldBlock` for `EAGAIN` and `EWOULDBLOCK`. -/
  | failed (wouldBlock : Bool) (text : Bytes)

/-- The outcomes of `write(socket_fd_, …)`. -/
inductive SocketWrite where
  | accepted (count : Nat)
  | failed (wouldBlock : Bool) (text : Bytes)
  deriving DecidableEq, Repr

/-- The outcomes of `epoll_ctl(EPOLL_CTL_MOD)`. -/
inductive EpollMod where
  | done
  | failed (text : Bytes)
  deriving DecidableEq, Repr

namespace Connection

/-- A member function of `Connection`. -/
abbrev Op (α : Type) := Call Exception Connection α

def bufferMutex : Mutex Connection where
  held := (·.bufferMutexHeld)
  setHeld isHeld conn := { conn with bufferMutexHeld := isHeld }
  held_setHeld _ _ := rfl

def record (effect : Effect) : Op PUnit :=
  modify fun conn => { conn with effects := conn.effects ++ [effect] }

def setState (state : ConnectionState) : Op PUnit := modify fun conn => { conn with state }

/-- `EventLoop::UpdateFd`, which throws if `epoll_ctl` fails. -/
def updateFd (fd : Int) (read write : Bool) (epoll : EpollMod) : Op PUnit :=
  match epoll with
  | .done => record (.updateFd fd read write)
  | .failed text =>
      Call.throwing (.runtimeError (bytes "Failed to update fd in epoll: " ++ text))

/-- The constructor, where it does not throw. -/
def new (socketFd : Int) (now : Nat) : Connection := { socketFd, lastActivityTime := now }

/-! ## Private helpers -/

def updateActivityTime (now : Nat) : Op PUnit :=
  modify fun conn => { conn with lastActivityTime := now }

def notifyError (message : Bytes) : Op PUnit := do
  let conn ← get
  record (.error conn.socketFd message)
  if conn.hasErrorCallback then record (.errorCallback message)

def cleanupResources : Op PUnit :=
  lockGuard bufferMutex do
    modify fun conn => { conn with readBuffer := [] }
    modify fun conn => { conn with writeBuffer := [] }

/-! ## Operations -/

def setHandler : Op PUnit := modify fun conn => { conn with hasHandler := true }

def setReadCallback : Op PUnit := modify fun conn => { conn with hasReadCallback := true }

def setWriteCallback : Op PUnit := modify fun conn => { conn with hasWriteCallback := true }

def setErrorCallback : Op PUnit := modify fun conn => { conn with hasErrorCallback := true }

def setMaxBufferSize (size : Nat) : Op PUnit :=
  modify fun conn => { conn with maxBufferSize := size }

def start (now : Nat) : Op PUnit := do
  setState .connected
  updateActivityTime now
  let conn ← get
  if conn.hasHandler then record .onConnection

def close : Op PUnit := do
  let conn ← get
  if conn.state = .disconnected ∨ conn.state = .closing then return
  setState .closing
  record (.removeFd conn.socketFd)
  if 0 ≤ conn.socketFd then
    record (.closeSocket conn.socketFd)
    modify fun conn => { conn with socketFd := -1 }
  if conn.hasHandler then record .onDisconnection
  cleanupResources
  setState .disconnected

/-- `~Connection`.  No shared pointer to the connection is left, so `Close` throws where it would
make one for the handler, and the destructor catches that. -/
def destroy : Op PUnit := do
  let conn ← get
  if conn.state = .disconnected ∨ conn.state = .closing then return
  setState .closing
  record (.removeFd conn.socketFd)
  if 0 ≤ conn.socketFd then
    record (.closeSocket conn.socketFd)
    modify fun conn => { conn with socketFd := -1 }
  if conn.hasHandler then return
  cleanupResources
  setState .disconnected

def readData (read : SocketRead) (now : Nat) : Op Int := do
  let conn ← get
  if conn.state ≠ .connected ∧ conn.state ≠ .reading then return -1
  match read with
  | .received data _ _ =>
      updateActivityTime now
      lockGuard bufferMutex do
        modify fun conn => { conn with readBuffer := conn.readBuffer ++ data }
        let conn ← get
        if conn.maxBufferSize < conn.readBuffer.length then
          notifyError (bytes "Read buffer overflow")
          close
          return -1
        setState .reading
        return data.length
  | .endOfFile =>
      close
      return 0
  | .failed wouldBlock text =>
      if !wouldBlock then
        notifyError (bytes "Read error: " ++ text)
        close
      return -1

def writeData (data : Bytes) (epoll : EpollMod) : Op Int :=
  lockGuard bufferMutex do
    let before ← get
    modify fun conn => { conn with writeBuffer := conn.writeBuffer ++ data }
    let conn ← get
    if conn.maxBufferSize < conn.writeBuffer.length then
      notifyError (bytes "Write buffer overflow")
      close
      return -1
    if conn.writeBuffer ≠ [] then
      updateFd conn.socketFd true true epoll
      setState .writing
    return (conn.writeBuffer.length - before.writeBuffer.length : Nat)

def getReadBuffer : Op Bytes :=
  lockGuard bufferMutex do
    let conn ← get
    return conn.readBuffer

def clearReadBuffer : Op PUnit :=
  lockGuard bufferMutex do
    modify fun conn => { conn with readBuffer := [] }

def getReadBufferSize : Op Nat :=
  lockGuard bufferMutex do
    let conn ← get
    return conn.readBuffer.length

def getWriteBufferSize : Op Nat :=
  lockGuard bufferMutex do
    let conn ← get
    return conn.writeBuffer.length

def defaultHandleRead (read : SocketRead) (now : Nat) : Op PUnit := do
  let bytesRead ← readData read now
  if 0 < bytesRead then
    let conn ← get
    if conn.hasReadCallback then record .readCallback

def defaultHandleWrite (write : SocketWrite) (epoll : EpollMod) : Op PUnit :=
  lockGuard bufferMutex do
    let conn ← get
    if conn.writeBuffer ≠ [] then
      match write with
      | .accepted count =>
          if 0 < count then
            record (.sent (conn.writeBuffer.take count))
            modify fun conn => { conn with writeBuffer := conn.writeBuffer.drop count }
            let conn ← get
            if conn.writeBuffer = [] then
              updateFd conn.socketFd true false epoll
              setState .connected
              if conn.hasWriteCallback then record .writeCallback
      | .failed wouldBlock text =>
          if !wouldBlock then
            notifyError (bytes "Write error: " ++ text)
            close

def defaultHandleError : Op PUnit := do
  notifyError (bytes "Epoll event error")
  close

end Connection

/-! ## `Handler` -/

namespace Handler

open Connection

def content : Bytes := bytes "<h1>Hello PP</h1>"

/-- The only response the server gives. -/
def response : Bytes :=
  bytes "HTTP/1.1 200 OK\r\n" ++
    bytes "Content-Type: text/html; charset=utf-8\r\n" ++
    bytes "Content-Length: " ++ bytes (Nat.repr content.length) ++ bytes "\r\n" ++
    bytes "Connection: close\r\n" ++
    bytes "Access-Control-Allow-Origin: *\r\n" ++
    bytes "\r\n" ++
    content

def handleRead (read : SocketRead) (now : Nat) (epoll : EpollMod) : Op PUnit := do
  let bytesRead ← readData read now
  if bytesRead < 0 then
    close
    return
  if bytesRead = 0 then
    close
    return
  let requestData ← getReadBuffer
  if bytes "\r\n\r\n" <:+: requestData then
    let _ ← writeData response epoll
    clearReadBuffer

def handleWrite (write : SocketWrite) (epoll : EpollMod) : Op PUnit :=
  defaultHandleWrite write epoll

def handleError : Op PUnit := defaultHandleError

end Handler

namespace Connection

/-! ## Events -/

def handleReadable (read : SocketRead) (now : Nat) (epoll : EpollMod) : Op PUnit := do
  let conn ← get
  if conn.hasHandler then Handler.handleRead read now epoll
  else defaultHandleRead read now

def handleWritable (write : SocketWrite) (epoll : EpollMod) : Op PUnit := do
  let conn ← get
  if conn.hasHandler then Handler.handleWrite write epoll
  else defaultHandleWrite write epoll

def handleError : Op PUnit := do
  let conn ← get
  if conn.hasHandler then Handler.handleError
  else defaultHandleError

/-! ## Runs -/

/-- The public operations that act on the buffers or on the state. -/
inductive Operation where
  | setHandler
  | setReadCallback
  | setWriteCallback
  | setErrorCallback
  | setMaxBufferSize (size : Nat)
  | start (now : Nat)
  | close
  | readData (read : SocketRead) (now : Nat)
  | writeData (data : Bytes) (epoll : EpollMod)
  | getReadBuffer
  | clearReadBuffer
  | getReadBufferSize
  | getWriteBufferSize
  | defaultHandleRead (read : SocketRead) (now : Nat)
  | defaultHandleWrite (write : SocketWrite) (epoll : EpollMod)
  | defaultHandleError
  | handleReadable (read : SocketRead) (now : Nat) (epoll : EpollMod)
  | handleWritable (write : SocketWrite) (epoll : EpollMod)
  | handleError

def discard {α : Type} (call : Op α) : Op PUnit := do
  let _ ← call
  return

def Operation.run : Operation → Op PUnit
  | .setHandler => Connection.setHandler
  | .setReadCallback => Connection.setReadCallback
  | .setWriteCallback => Connection.setWriteCallback
  | .setErrorCallback => Connection.setErrorCallback
  | .setMaxBufferSize size => Connection.setMaxBufferSize size
  | .start now => Connection.start now
  | .close => Connection.close
  | .readData read now => discard (Connection.readData read now)
  | .writeData data epoll => discard (Connection.writeData data epoll)
  | .getReadBuffer => discard Connection.getReadBuffer
  | .clearReadBuffer => Connection.clearReadBuffer
  | .getReadBufferSize => discard Connection.getReadBufferSize
  | .getWriteBufferSize => discard Connection.getWriteBufferSize
  | .defaultHandleRead read now => Connection.defaultHandleRead read now
  | .defaultHandleWrite write epoll => Connection.defaultHandleWrite write epoll
  | .defaultHandleError => Connection.defaultHandleError
  | .handleReadable read now epoll => Connection.handleReadable read now epoll
  | .handleWritable write epoll => Connection.handleWritable write epoll
  | .handleError => Connection.handleError

/-- The states of a connection between two operations, all of which have ended. -/
inductive Reachable : Connection → Prop where
  | new (socketFd : Int) (now : Nat) : 0 ≤ socketFd → Reachable (new socketFd now)
  | step {conn after : Connection} (operation : Operation) :
      Reachable conn → (operation.run conn).Final after → Reachable after

end Connection

end PPServer.Net
