import PPServer.Library.Stepwise
import PPServer.Net.Lifetime

/-!
# The operations of a connection step by step

What the event loop runs on a connection, with every state that it passes through.
-/

namespace PPServer.Net.Connection

open Locking

/-! ## The steps -/

def recordSteps (effect : Effect) : Steps (record effect) := .modify _

def setStateSteps (state : ConnectionState) : Steps (setState state) := .modify _

def updateFdSteps (fd : Int) (read write : Bool) :
    (epoll : EpollMod) → Steps (updateFd fd read write epoll)
  | .done => recordSteps _
  | .failed _ => .throwing _

def updateActivityTimeSteps (now : Nat) : Steps (updateActivityTime now) := .modify _

def notifyErrorSteps (message : Bytes) : Steps (notifyError message) :=
  .getBind fun _ => .bind (recordSteps _) fun _ => .ite (recordSteps _) (.pure _)

def cleanupResourcesSteps : Steps cleanupResources :=
  .lockGuard bufferMutex (.bind (.modify _) fun _ => .modify _)

def setHandlerSteps : Steps setHandler := .modify _

def startSteps (now : Nat) : Steps (start now) :=
  .bind (setStateSteps _) fun _ => .bind (updateActivityTimeSteps now) fun _ =>
    .getBind fun _ => .ite (recordSteps _) (.pure _)

/-- What is left of `Close` once the socket is closed. -/
def disconnectSteps (conn : Connection) : Steps (do
    if conn.hasHandler then record .onDisconnection
    cleanupResources
    setState .disconnected) :=
  .ite
    (.bind (recordSteps _) fun _ => .bind cleanupResourcesSteps fun _ => setStateSteps _)
    (.bind cleanupResourcesSteps fun _ => setStateSteps _)

def closeSteps : Steps close :=
  .getBind fun conn => .ite (.pure _) <|
    .bind (setStateSteps _) fun _ => .bind (recordSteps _) fun _ =>
      .ite
        (.bind (recordSteps _) fun _ => .bind (.modify _) fun _ => disconnectSteps conn)
        (disconnectSteps conn)

/-- What is left of `~Connection` once the socket is closed. -/
def dropSteps (conn : Connection) : Steps (do
    if conn.hasHandler then return
    cleanupResources
    setState .disconnected) :=
  .ite (.pure _) (.bind cleanupResourcesSteps fun _ => setStateSteps _)

def destroySteps : Steps destroy :=
  .getBind fun conn => .ite (.pure _) <|
    .bind (setStateSteps _) fun _ => .bind (recordSteps _) fun _ =>
      .ite
        (.bind (recordSteps _) fun _ => .bind (.modify _) fun _ => dropSteps conn)
        (dropSteps conn)

def readDataSteps : (read : SocketRead) → (now : Nat) → Steps (readData read now)
  | .received _ _ _, now =>
      .getBind fun _ => .ite (.pure _) <|
        .bind (updateActivityTimeSteps now) fun _ => .lockGuard bufferMutex <|
          .bind (.modify _) fun _ => .getBind fun _ =>
            .ite
              (.bind (notifyErrorSteps _) fun _ => .bind closeSteps fun _ => .pure _)
              (.bind (setStateSteps _) fun _ => .pure _)
  | .endOfFile, _ =>
      .getBind fun _ => .ite (.pure _) <| .bind closeSteps fun _ => .pure _
  | .failed _ _, _ =>
      .getBind fun _ => .ite (.pure _) <|
        .ite
          (.bind (notifyErrorSteps _) fun _ => .bind closeSteps fun _ => .pure _)
          (.pure _)

def writeDataSteps (data : Bytes) (epoll : EpollMod) : Steps (writeData data epoll) :=
  .lockGuard bufferMutex <|
    .getBind fun _ => .bind (.modify _) fun _ => .getBind fun _ =>
      .ite
        (.bind (notifyErrorSteps _) fun _ => .bind closeSteps fun _ => .pure _)
        (.ite
          (.bind (updateFdSteps _ _ _ epoll) fun _ => .bind (setStateSteps _) fun _ => .pure _)
          (.pure _))

def getReadBufferSteps : Steps getReadBuffer :=
  .lockGuard bufferMutex <| .getBind fun _ => .pure _

def clearReadBufferSteps : Steps clearReadBuffer := .lockGuard bufferMutex <| .modify _

def defaultHandleReadSteps (read : SocketRead) (now : Nat) :
    Steps (defaultHandleRead read now) :=
  .bind (readDataSteps read now) fun _ =>
    .ite (.getBind fun _ => .ite (recordSteps _) (.pure _)) (.pure _)

def defaultHandleWriteSteps : (write : SocketWrite) → (epoll : EpollMod) →
    Steps (defaultHandleWrite write epoll)
  | .accepted _, epoll =>
      .lockGuard bufferMutex <| .getBind fun _ =>
        .ite
          (.ite
            (.bind (recordSteps _) fun _ => .bind (.modify _) fun _ => .getBind fun _ =>
              .ite
                (.bind (updateFdSteps _ _ _ epoll) fun _ => .bind (setStateSteps _) fun _ =>
                  .ite (recordSteps _) (.pure _))
                (.pure _))
            (.pure _))
          (.pure _)
  | .failed _ _, _ =>
      .lockGuard bufferMutex <| .getBind fun _ =>
        .ite (.ite (.bind (notifyErrorSteps _) fun _ => closeSteps) (.pure _)) (.pure _)

def defaultHandleErrorSteps : Steps defaultHandleError :=
  .bind (notifyErrorSteps _) fun _ => closeSteps

def handleReadSteps (read : SocketRead) (now : Nat) (epoll : EpollMod) :
    Steps (Handler.handleRead read now epoll) :=
  .bind (readDataSteps read now) fun _ =>
    .ite (.bind closeSteps fun _ => .pure _) <|
      .ite (.bind closeSteps fun _ => .pure _) <|
        .bind getReadBufferSteps fun _ =>
          .ite
            (.bind (writeDataSteps _ epoll) fun _ => clearReadBufferSteps)
            (.pure _)

def handleReadableSteps (read : SocketRead) (now : Nat) (epoll : EpollMod) :
    Steps (handleReadable read now epoll) :=
  .getBind fun _ => .ite (handleReadSteps read now epoll) (defaultHandleReadSteps read now)

def handleWritableSteps (write : SocketWrite) (epoll : EpollMod) :
    Steps (handleWritable write epoll) :=
  .getBind fun _ =>
    .ite (defaultHandleWriteSteps write epoll) (defaultHandleWriteSteps write epoll)

def handleErrorSteps : Steps handleError :=
  .getBind fun _ => .ite defaultHandleErrorSteps defaultHandleErrorSteps

def onAnySteps {handler : Op PUnit} (events flags : UInt32) (steps : Steps handler) :
    Steps (onAny events flags handler) :=
  .ite steps (.pure _)

def callbackSteps (events : UInt32) (calls : SystemCalls) : Steps (callback events calls) :=
  .bind (onAnySteps _ _ (handleReadableSteps _ _ _)) fun _ =>
    .bind (onAnySteps _ _ (handleWritableSteps _ _)) fun _ =>
      onAnySteps _ _ handleErrorSteps

end PPServer.Net.Connection
