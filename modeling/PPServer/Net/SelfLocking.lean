import PPServer.Net.Connection

/-!
# Locking `buffer_mutex_` twice

`ReadData`, `WriteData` and `DefaultHandleWrite` report an error and close the
connection while they hold `buffer_mutex_`, and `Close` locks it again in
`CleanupResources`.  The mutex is not recursive, so the call never returns.  Between
operations the mutex is free, so these are the only ways to lock it twice, unless a callback that is
called with the mutex held locks it.
-/

namespace PPServer.Net.Connection

open Locking

variable {conn after : Connection}

/-- `Close` has not run yet, or `Start` has been called after it. -/
def IsOpen (conn : Connection) : Prop :=
  conn.state ≠ .disconnected ∧ conn.state ≠ .closing

instance (conn : Connection) : Decidable conn.IsOpen := inferInstanceAs (Decidable (_ ∧ _))

/-! ## Which operations block -/

@[simp] theorem deadlocks_record_bind_iff {effect : Effect} {α : Type} {next : PUnit → Op α} :
    Deadlocks (record effect >>= next) conn ↔
      Deadlocks (next ⟨⟩) { conn with effects := conn.effects ++ [effect] } := Iff.rfl

@[simp] theorem deadlocks_setState_bind_iff {state : ConnectionState} {α : Type}
    {next : PUnit → Op α} :
    Deadlocks (setState state >>= next) conn ↔ Deadlocks (next ⟨⟩) { conn with state } := Iff.rfl

@[simp] theorem not_deadlocks_record (effect : Effect) (conn : Connection) :
    ¬Deadlocks (record effect) conn := not_deadlocks_modify _ _

@[simp] theorem not_deadlocks_setState (state : ConnectionState) (conn : Connection) :
    ¬Deadlocks (setState state) conn := not_deadlocks_modify _ _

/-- Cleaning up locks the mutex. -/
theorem deadlocks_cleanupResources_iff :
    Deadlocks cleanupResources conn ↔ conn.bufferMutexHeld = true := by
  cases held : conn.bufferMutexHeld with
  | true => exact iff_of_true ⟨conn, lockGuard_of_held held⟩ rfl
  | false =>
      rw [cleanupResources, deadlocks_lockGuard_iff held]
      simp

/-- `Close` on an open connection locks the mutex. -/
theorem deadlocks_close_iff :
    Deadlocks close conn ↔ conn.IsOpen ∧ conn.bufferMutexHeld = true := by
  have last (conn : Connection) :
      Deadlocks (do cleanupResources; setState .disconnected) conn ↔
        conn.bufferMutexHeld = true := by
    rw [deadlocks_bind_of_never fun _ => not_deadlocks_setState _, deadlocks_cleanupResources_iff]
  simp [close, last, IsOpen, not_or]
  grind

/-- `NotifyError` changes nothing but what it reports. -/
theorem notifyError_apply (message : Bytes) (conn : Connection) :
    notifyError message conn =
      .returned ⟨⟩
        { conn with
          effects := conn.effects ++ .error conn.socketFd message ::
            if conn.hasErrorCallback then [.errorCallback message] else [] } := by
  cases callback : conn.hasErrorCallback <;> simp [notifyError, record, callback]

@[simp] theorem deadlocks_notifyError_bind_iff {message : Bytes} {α : Type} {next : PUnit → Op α} :
    Deadlocks (notifyError message >>= next) conn ↔
      Deadlocks (next ⟨⟩)
        { conn with
          effects := conn.effects ++ .error conn.socketFd message ::
            if conn.hasErrorCallback then [.errorCallback message] else [] } :=
  deadlocks_bind_of_returned (notifyError_apply message conn)

@[simp] theorem not_deadlocks_updateFd (fd : Int) (read write : Bool) (epoll : EpollMod)
    (conn : Connection) : ¬Deadlocks (updateFd fd read write epoll) conn := by
  cases epoll with
  | done => exact not_deadlocks_record _ _
  | failed text => exact not_deadlocks_throwing _ _

/-- `ReadData` blocks exactly when what it has read overflows the buffer. -/
theorem deadlocks_readData_iff (free : conn.bufferMutexHeld = false) (read : SocketRead)
    (now : Nat) :
    Deadlocks (readData read now) conn ↔
      (conn.state = .connected ∨ conn.state = .reading) ∧
        ∃ data nonempty fits, read = .received data nonempty fits ∧
          conn.maxBufferSize < conn.readBuffer.length + data.length := by
  by_cases readable : conn.state = .connected ∨ conn.state = .reading
  case neg =>
    have skipped : conn.state ≠ .connected ∧ conn.state ≠ .reading := not_or.mp readable
    simp [readData, skipped]
  case pos =>
    have goesOn : ¬(conn.state ≠ .connected ∧ conn.state ≠ .reading) := by tauto
    have opened : conn.state ≠ .disconnected ∧ conn.state ≠ .closing := by
      rcases readable with state | state <;> simp [state]
    simp only [readData, deadlocks_get_bind_iff, if_neg goesOn]
    cases read with
    | received data nonempty fits =>
        have free' : bufferMutex.held { conn with lastActivityTime := now } = false := free
        simp only [updateActivityTime, deadlocks_modify_bind_iff, deadlocks_lockGuard_iff free']
        simp [deadlocks_close_iff, IsOpen, bufferMutex, opened, readable, nonempty, fits]
    | endOfFile => simp [deadlocks_close_iff, free]
    | failed wouldBlock text => cases wouldBlock <;> simp [deadlocks_close_iff, free]

/-- `WriteData` blocks exactly when the data overflows the buffer of an open
connection. -/
theorem deadlocks_writeData_iff (free : conn.bufferMutexHeld = false) (data : Bytes)
    (epoll : EpollMod) :
    Deadlocks (writeData data epoll) conn ↔
      conn.IsOpen ∧ conn.maxBufferSize < conn.writeBuffer.length + data.length := by
  have watches (socketFd : Int) (count : Int) (conn : Connection) :
      ¬Deadlocks (do
        updateFd socketFd true true epoll
        (fun _ => count) <$> setState .writing) conn :=
    not_deadlocks_bind (not_deadlocks_updateFd _ _ _ _ _) (by simp)
  rw [writeData, deadlocks_lockGuard_iff free]
  by_cases overflow : conn.maxBufferSize < conn.writeBuffer.length + data.length
  · simp [deadlocks_close_iff, IsOpen, bufferMutex, overflow]
  · simp [bufferMutex, overflow, watches]

/-- `DefaultHandleWrite` blocks exactly when there is something to write and writing
fails for good on an open connection. -/
theorem deadlocks_defaultHandleWrite_iff (free : conn.bufferMutexHeld = false)
    (write : SocketWrite) (epoll : EpollMod) :
    Deadlocks (defaultHandleWrite write epoll) conn ↔
      conn.IsOpen ∧ conn.writeBuffer ≠ [] ∧ ∃ text, write = .failed false text := by
  rw [defaultHandleWrite, deadlocks_lockGuard_iff free]
  cases write with
  | accepted count =>
      have drained (socketFd : Int) (conn : Connection) (called : Bool) :
          ¬Deadlocks (do
            updateFd socketFd true false epoll
            setState .connected
            if called then record .writeCallback) conn :=
        not_deadlocks_bind (not_deadlocks_updateFd _ _ _ _ _) (by simp)
      simp [bufferMutex, drained]
  | failed wouldBlock text =>
      cases wouldBlock <;> simp [deadlocks_close_iff, IsOpen, bufferMutex, and_comm]

/-! ## What every operation keeps -/

/-- The property has to do with the descriptor, which may be given up, and with the mutex only. -/
structure Robust (property : Connection → Prop) : Prop where
  congr : ∀ {conn after : Connection}, after.socketFd = conn.socketFd →
    after.bufferMutexHeld = conn.bufferMutexHeld → property conn → property after
  closed : ∀ {conn : Connection}, property conn → property { conn with socketFd := -1 }
  lockGuard : ∀ {α : Type} {body : Op α}, Keeps property body →
    Keeps property (lockGuard bufferMutex body)

theorem keeps_discard {α : Type} {property : Connection → Prop} {call : Op α}
    (keeps : Keeps property call) : Keeps property (discard call) :=
  .bind keeps fun _ => .pure _

namespace Robust

variable {property : Connection → Prop} (robust : Robust property)

include robust

theorem keeps_modify {change : Connection → Connection}
    (socketFd : ∀ conn, (change conn).socketFd = conn.socketFd)
    (held : ∀ conn, (change conn).bufferMutexHeld = conn.bufferMutexHeld) :
    Keeps property (modify change : Op PUnit) :=
  .modify fun conn holds => robust.congr (socketFd conn) (held conn) holds

theorem keeps_record (effect : Effect) : Keeps property (record effect) :=
  robust.keeps_modify (fun _ => rfl) fun _ => rfl

theorem keeps_setState (state : ConnectionState) : Keeps property (setState state) :=
  robust.keeps_modify (fun _ => rfl) fun _ => rfl

theorem keeps_updateFd (fd : Int) (read write : Bool) (epoll : EpollMod) :
    Keeps property (updateFd fd read write epoll) := by
  cases epoll with
  | done => exact robust.keeps_record _
  | failed text => exact .throwing _

theorem keeps_notifyError (message : Bytes) : Keeps property (notifyError message) :=
  .get_bind fun _ => .bind (robust.keeps_record _) fun _ => .ite (robust.keeps_record _) (.pure _)

theorem keeps_cleanupResources : Keeps property cleanupResources :=
  robust.lockGuard <| .bind (robust.keeps_modify (fun _ => rfl) fun _ => rfl) fun _ =>
    robust.keeps_modify (fun _ => rfl) fun _ => rfl

theorem keeps_start (now : Nat) : Keeps property (start now) :=
  .bind (robust.keeps_setState _) fun _ =>
    .bind (robust.keeps_modify (fun _ => rfl) fun _ => rfl) fun _ =>
      .get_bind fun _ => .ite (robust.keeps_record _) (.pure _)

theorem keeps_close : Keeps property close := by
  refine .get_bind fun conn => .ite (.pure _) ?_
  refine .bind (robust.keeps_setState _) fun _ => .bind (robust.keeps_record _) fun _ => ?_
  have last : Keeps property (do cleanupResources; setState .disconnected) :=
    .bind robust.keeps_cleanupResources fun _ => robust.keeps_setState _
  have disconnect : Keeps property (do
      if conn.hasHandler then record .onDisconnection
      cleanupResources
      setState .disconnected) :=
    .ite (.bind (robust.keeps_record _) fun _ => last) last
  exact .ite
    (.bind (robust.keeps_record _) fun _ =>
      .bind (.modify fun _ holds => robust.closed holds) fun _ => disconnect)
    disconnect

theorem keeps_readData (read : SocketRead) (now : Nat) : Keeps property (readData read now) := by
  refine .get_bind fun conn => .ite (.pure _) ?_
  cases read with
  | received data nonempty fits =>
      refine .bind (robust.keeps_modify (fun _ => rfl) fun _ => rfl) fun _ => robust.lockGuard ?_
      refine .bind (robust.keeps_modify (fun _ => rfl) fun _ => rfl) fun _ => .get_bind fun _ => ?_
      refine .ite ?_ (.bind (robust.keeps_setState _) fun _ => .pure _)
      exact .bind (robust.keeps_notifyError _) fun _ => .bind robust.keeps_close fun _ => .pure _
  | endOfFile => exact .bind robust.keeps_close fun _ => .pure _
  | failed wouldBlock text =>
      exact .ite
        (.bind (robust.keeps_notifyError _) fun _ => .bind robust.keeps_close fun _ => .pure _)
        (.pure _)

theorem keeps_writeData (data : Bytes) (epoll : EpollMod) :
    Keeps property (writeData data epoll) := by
  refine robust.lockGuard <| .get_bind fun _ => ?_
  refine .bind (robust.keeps_modify (fun _ => rfl) fun _ => rfl) fun _ => .get_bind fun _ => ?_
  refine .ite ?_ (.ite ?_ (.pure _))
  · exact .bind (robust.keeps_notifyError _) fun _ => .bind robust.keeps_close fun _ => .pure _
  · exact .bind (robust.keeps_updateFd _ _ _ _) fun _ =>
      .bind (robust.keeps_setState _) fun _ => .pure _

theorem keeps_defaultHandleRead (read : SocketRead) (now : Nat) :
    Keeps property (defaultHandleRead read now) :=
  .bind (robust.keeps_readData read now) fun _ =>
    .ite (.get_bind fun _ => .ite (robust.keeps_record _) (.pure _)) (.pure _)

theorem keeps_defaultHandleWrite (write : SocketWrite) (epoll : EpollMod) :
    Keeps property (defaultHandleWrite write epoll) := by
  refine robust.lockGuard <| .get_bind fun conn => .ite ?_ (.pure _)
  cases write with
  | accepted count =>
      refine .ite ?_ (.pure _)
      refine .bind (robust.keeps_record _) fun _ => ?_
      refine .bind (robust.keeps_modify (fun _ => rfl) fun _ => rfl) fun _ => .get_bind fun _ => ?_
      refine .ite ?_ (.pure _)
      exact .bind (robust.keeps_updateFd _ _ _ _) fun _ =>
        .bind (robust.keeps_setState _) fun _ => .ite (robust.keeps_record _) (.pure _)
  | failed wouldBlock text =>
      exact .ite (.bind (robust.keeps_notifyError _) fun _ => robust.keeps_close) (.pure _)

theorem keeps_defaultHandleError : Keeps property defaultHandleError :=
  .bind (robust.keeps_notifyError _) fun _ => robust.keeps_close

theorem keeps_getReadBuffer : Keeps property getReadBuffer :=
  robust.lockGuard <| .get_bind fun _ => .pure _

theorem keeps_clearReadBuffer : Keeps property clearReadBuffer :=
  robust.lockGuard <| robust.keeps_modify (fun _ => rfl) fun _ => rfl

theorem keeps_handleRead (read : SocketRead) (now : Nat) (epoll : EpollMod) :
    Keeps property (Handler.handleRead read now epoll) := by
  refine .bind (robust.keeps_readData read now) fun bytesRead => ?_
  refine .ite (.bind robust.keeps_close fun _ => .pure _) ?_
  refine .ite (.bind robust.keeps_close fun _ => .pure _) ?_
  refine .bind robust.keeps_getReadBuffer fun _ => .ite ?_ (.pure _)
  exact .bind (robust.keeps_writeData _ _) fun _ => robust.keeps_clearReadBuffer

theorem keeps_run (operation : Operation) : Keeps property operation.run := by
  cases operation with
  | setHandler | setReadCallback | setWriteCallback | setErrorCallback | setMaxBufferSize =>
      exact robust.keeps_modify (fun _ => rfl) fun _ => rfl
  | start now => exact robust.keeps_start now
  | close => exact robust.keeps_close
  | readData read now => exact keeps_discard (robust.keeps_readData read now)
  | writeData data epoll => exact keeps_discard (robust.keeps_writeData data epoll)
  | getReadBuffer => exact keeps_discard robust.keeps_getReadBuffer
  | clearReadBuffer => exact robust.keeps_clearReadBuffer
  | getReadBufferSize | getWriteBufferSize =>
      exact keeps_discard (robust.lockGuard <| .get_bind fun _ => .pure _)
  | defaultHandleRead read now => exact robust.keeps_defaultHandleRead read now
  | defaultHandleWrite write epoll => exact robust.keeps_defaultHandleWrite write epoll
  | defaultHandleError => exact robust.keeps_defaultHandleError
  | handleReadable read now epoll =>
      exact .get_bind fun _ =>
        .ite (robust.keeps_handleRead read now epoll) (robust.keeps_defaultHandleRead read now)
  | handleWritable write epoll =>
      exact .get_bind fun _ =>
        .ite (robust.keeps_defaultHandleWrite write epoll)
          (robust.keeps_defaultHandleWrite write epoll)
  | handleError =>
      exact .get_bind fun _ =>
        .ite robust.keeps_defaultHandleError robust.keeps_defaultHandleError

theorem of_reachable (start : ∀ socketFd now, 0 ≤ socketFd → property (new socketFd now))
    (reachable : Reachable conn) : property conn := by
  induction reachable with
  | new socketFd now valid => exact start socketFd now valid
  | step operation _ final ih => exact robust.keeps_run operation _ _ ih final

end Robust

/-! ## Between operations the mutex is free -/

/-- The mutex is not held. -/
def Unlocked (conn : Connection) : Prop := conn.bufferMutexHeld = false

theorem robust_unlocked : Robust Unlocked where
  congr _ held free := held.trans free
  closed free := free
  lockGuard _ := .free_lockGuard bufferMutex _

/-- In every run the mutex is free between operations. -/
theorem Reachable.unlocked (reachable : Reachable conn) : conn.Unlocked :=
  robust_unlocked.of_reachable (fun _ _ _ => rfl) reachable

/-! ## Callbacks -/

/-- The code of the callbacks that are called with the mutex held. -/
structure Callbacks where
  write : Op PUnit
  error : Bytes → Op PUnit

namespace Callbacks

variable (callbacks : Callbacks)

/-- The callbacks do not call back into the connection. -/
structure Inert : Prop where
  write : ∀ conn, callbacks.write conn = .returned ⟨⟩ conn
  error : ∀ message conn, callbacks.error message conn = .returned ⟨⟩ conn

/-! The operations that call them, with the calls made and not only recorded. -/

def notifyError (message : Bytes) : Op PUnit := do
  let conn ← get
  record (.error conn.socketFd message)
  if conn.hasErrorCallback then
    record (.errorCallback message)
    callbacks.error message

def readData (read : SocketRead) (now : Nat) : Op Int := do
  let conn ← get
  if conn.state ≠ .connected ∧ conn.state ≠ .reading then return -1
  match read with
  | .received data _ _ =>
      updateActivityTime now
      lockGuard bufferMutex do
        modify fun conn => { conn with readBuffer := conn.readBuffer ++ data }
        let conn ← get
        if conn.maxBufferSize < conn.readBuffer.length then
          callbacks.notifyError (bytes "Read buffer overflow")
          close
          return -1
        setState .reading
        return data.length
  | .endOfFile =>
      close
      return 0
  | .failed wouldBlock text =>
      if !wouldBlock then
        callbacks.notifyError (bytes "Read error: " ++ text)
        close
      return -1

def writeData (data : Bytes) (epoll : EpollMod) : Op Int :=
  lockGuard bufferMutex do
    let before ← get
    modify fun conn => { conn with writeBuffer := conn.writeBuffer ++ data }
    let conn ← get
    if conn.maxBufferSize < conn.writeBuffer.length then
      callbacks.notifyError (bytes "Write buffer overflow")
      close
      return -1
    if conn.writeBuffer ≠ [] then
      updateFd conn.socketFd true true epoll
      setState .writing
    return (conn.writeBuffer.length - before.writeBuffer.length : Nat)

def defaultHandleWrite (write : SocketWrite) (epoll : EpollMod) : Op PUnit :=
  lockGuard bufferMutex do
    let conn ← get
    if conn.writeBuffer ≠ [] then
      match write with
      | .accepted count =>
          if 0 < count then
            record (.sent (conn.writeBuffer.take count))
            modify fun conn => { conn with writeBuffer := conn.writeBuffer.drop count }
            let conn ← get
            if conn.writeBuffer = [] then
              updateFd conn.socketFd true false epoll
              setState .connected
              if conn.hasWriteCallback then
                record .writeCallback
                callbacks.write
      | .failed wouldBlock text =>
          if !wouldBlock then
            callbacks.notifyError (bytes "Write error: " ++ text)
            close

variable {callbacks} (inert : callbacks.Inert)

include inert

namespace Inert

theorem write_eq : callbacks.write = pure ⟨⟩ := funext inert.write

theorem notifyError_eq : callbacks.notifyError = Connection.notifyError := by
  have quiet (message : Bytes) : callbacks.error message = pure ⟨⟩ := funext (inert.error message)
  funext message
  simp only [Callbacks.notifyError, quiet]
  rfl

theorem readData_eq : callbacks.readData = Connection.readData := by
  funext read now
  simp only [Callbacks.readData, inert.notifyError_eq]
  rfl

theorem writeData_eq : callbacks.writeData = Connection.writeData := by
  funext data epoll
  simp only [Callbacks.writeData, inert.notifyError_eq]
  rfl

theorem defaultHandleWrite_eq :
    callbacks.defaultHandleWrite = Connection.defaultHandleWrite := by
  funext write epoll
  simp only [Callbacks.defaultHandleWrite, inert.notifyError_eq, inert.write_eq]
  rfl

end Inert

end Callbacks

/-- **Self-deadlock.**  In every state a run can reach, and with callbacks that do not call back,
these three operations lock `buffer_mutex_` while they hold it exactly when a buffer of an open
connection overflows, or a write fails for good with data to write. -/
theorem deadlocks_iff (reachable : Reachable conn) {callbacks : Callbacks}
    (inert : callbacks.Inert) :
    (∀ read now, Deadlocks (callbacks.readData read now) conn ↔
      (conn.state = .connected ∨ conn.state = .reading) ∧
        ∃ data nonempty fits, read = .received data nonempty fits ∧
          conn.maxBufferSize < conn.readBuffer.length + data.length) ∧
    (∀ data epoll, Deadlocks (callbacks.writeData data epoll) conn ↔
      conn.IsOpen ∧ conn.maxBufferSize < conn.writeBuffer.length + data.length) ∧
    ∀ write epoll, Deadlocks (callbacks.defaultHandleWrite write epoll) conn ↔
      conn.IsOpen ∧ conn.writeBuffer ≠ [] ∧ ∃ text, write = .failed false text := by
  rw [inert.readData_eq, inert.writeData_eq, inert.defaultHandleWrite_eq]
  exact ⟨deadlocks_readData_iff reachable.unlocked, deadlocks_writeData_iff reachable.unlocked,
    deadlocks_defaultHandleWrite_iff reachable.unlocked⟩

/-- A connection with a byte to write and callbacks that do nothing: it blocks where `write` fails
for good, and does not where it would block. -/
theorem deadlocks_iff_writing :
    ∃ conn callbacks, Reachable conn ∧ conn.writeBuffer = bytes "a" ∧
      Deadlocks (Callbacks.defaultHandleWrite callbacks (.failed false []) .done) conn ∧
      ¬Deadlocks (Callbacks.defaultHandleWrite callbacks (.failed true []) .done) conn := by
  have written : ∃ conn, Reachable conn ∧ conn.writeBuffer = bytes "a" ∧ conn.IsOpen :=
    ⟨_, .step (.writeData (bytes "a") .done) (.step (.start 1) (.new 5 0 (by decide)) rfl) rfl,
      rfl, by decide⟩
  rcases written with ⟨conn, reachable, buffer, opened⟩
  let callbacks : Callbacks := ⟨pure ⟨⟩, fun _ => pure ⟨⟩⟩
  have inert : callbacks.Inert := ⟨fun _ => rfl, fun _ _ => rfl⟩
  have blocks := (deadlocks_iff reachable inert).2.2
  refine ⟨conn, callbacks, reachable, buffer, (blocks _ _).mpr ⟨opened, ?_, [], rfl⟩, ?_⟩
  · rw [buffer]
    decide
  · rw [blocks]
    rintro ⟨-, -, text, ⟨⟩⟩

/-- A connection with a byte to write whose socket has been reset. -/
theorem deadlocks_on_reset :
    ∃ conn, Reachable conn ∧
      Deadlocks
        (defaultHandleWrite (.failed false (bytes "Connection reset by peer")) .done) conn :=
  ⟨_, .step (.writeData (bytes "a") .done) (.step (.start 1) (.new 5 0 (by decide)) rfl) rfl,
    _, rfl⟩

end PPServer.Net.Connection
