import PPServer.Net.Stepwise

/-!
# When a callback removes its own descriptor

`Close` takes the descriptor of the connection from the event loop, also where it then blocks on
`buffer_mutex_`.  So the callback of a connection removes the descriptor under which the event
loop has found it exactly if it closes the connection or blocks.
-/

namespace PPServer.Net.Connection

open Locking

variable {conn middle after : Connection} {read : SocketRead} {write : SocketWrite} {now : Nat}
variable {epoll : EpollMod} {data : Bytes} {events : UInt32} {calls : SystemCalls}

/-! ## Effects are only added -/

def Grows (before after : Connection) : Prop := before.effects <+: after.effects

instance : IsPreorder Connection Grows where
  refl _ := List.prefix_rfl
  trans _ _ _ := List.IsPrefix.trans

theorem record_grows (effect : Effect) : Within Grows (recordSteps effect) :=
  .modify fun _ => List.prefix_append _ _

theorem setState_grows (state : ConnectionState) : Within Grows (setStateSteps state) :=
  .modify fun _ => List.prefix_rfl

theorem updateFd_grows (fd : Int) (read write : Bool) (epoll : EpollMod) :
    Within Grows (updateFdSteps fd read write epoll) := by
  cases epoll with
  | done => exact record_grows _
  | failed text => exact .throwing _

theorem notifyError_grows (message : Bytes) : Within Grows (notifyErrorSteps message) :=
  .getBind fun _ => .bind (record_grows _) fun _ => .ite (record_grows _) (.pure _)

/-- Locking the mutex has no effect. -/
theorem lockGuard_grows {α : Type} {body : Op α} {steps : Steps body}
    (grows : Within Grows steps) : Within Grows (steps.lockGuard bufferMutex) :=
  .lockGuard grows fun _ _ => List.prefix_rfl

theorem cleanupResources_grows : Within Grows cleanupResourcesSteps :=
  lockGuard_grows (.bind (.modify fun _ => List.prefix_rfl) fun _ =>
    .modify fun _ => List.prefix_rfl)

theorem disconnect_grows (conn : Connection) : Within Grows (disconnectSteps conn) := by
  have last : Within Grows (cleanupResourcesSteps.bind fun _ => setStateSteps .disconnected) :=
    .bind cleanupResources_grows fun _ => setState_grows _
  exact .ite (.bind (record_grows _) fun _ => last) last

theorem close_grows : Within Grows closeSteps :=
  .getBind fun conn => .ite (.pure _) <|
    .bind (setState_grows _) fun _ => .bind (record_grows _) fun _ =>
      .ite
        (.bind (record_grows _) fun _ => .bind (.modify fun _ => List.prefix_rfl) fun _ =>
          disconnect_grows conn)
        (disconnect_grows conn)

/-- An error is reported, and the connection closed. -/
theorem notifyAndClose_grows (message : Bytes) {α : Type} (value : α) :
    Within Grows ((notifyErrorSteps message).bind fun _ => closeSteps.bind fun _ =>
      .pure value) :=
  .bind (notifyError_grows _) fun _ => .bind close_grows fun _ => .pure _

theorem readData_grows (read : SocketRead) (now : Nat) :
    Within Grows (readDataSteps read now) := by
  cases read with
  | received data nonempty fits =>
      exact .getBind fun _ => .ite (.pure _) <|
        .bind (.modify fun _ => List.prefix_rfl) fun _ => lockGuard_grows <|
          .bind (.modify fun _ => List.prefix_rfl) fun _ => .getBind fun _ =>
            .ite (notifyAndClose_grows _ _) (.bind (setState_grows _) fun _ => .pure _)
  | endOfFile =>
      exact .getBind fun _ => .ite (.pure _) (.bind close_grows fun _ => .pure _)
  | failed wouldBlock text =>
      exact .getBind fun _ => .ite (.pure _) (.ite (notifyAndClose_grows _ _) (.pure _))

theorem writeData_grows (data : Bytes) (epoll : EpollMod) :
    Within Grows (writeDataSteps data epoll) :=
  lockGuard_grows <| .getBind fun _ => .bind (.modify fun _ => List.prefix_rfl) fun _ =>
    .getBind fun _ =>
      .ite (notifyAndClose_grows _ _)
        (.ite
          (.bind (updateFd_grows _ _ _ epoll) fun _ => .bind (setState_grows _) fun _ =>
            .pure _)
          (.pure _))

theorem defaultHandleRead_grows (read : SocketRead) (now : Nat) :
    Within Grows (defaultHandleReadSteps read now) :=
  .bind (readData_grows read now) fun _ =>
    .ite (.getBind fun _ => .ite (record_grows _) (.pure _)) (.pure _)

theorem defaultHandleWrite_grows (write : SocketWrite) (epoll : EpollMod) :
    Within Grows (defaultHandleWriteSteps write epoll) := by
  cases write with
  | accepted count =>
      exact lockGuard_grows <| .getBind fun _ =>
        .ite
          (.ite
            (.bind (record_grows _) fun _ => .bind (.modify fun _ => List.prefix_rfl) fun _ =>
              .getBind fun _ =>
                .ite
                  (.bind (updateFd_grows _ _ _ epoll) fun _ => .bind (setState_grows _) fun _ =>
                    .ite (record_grows _) (.pure _))
                  (.pure _))
            (.pure _))
          (.pure _)
  | failed wouldBlock text =>
      exact lockGuard_grows <| .getBind fun _ =>
        .ite (.ite (.bind (notifyError_grows _) fun _ => close_grows) (.pure _)) (.pure _)

theorem defaultHandleError_grows : Within Grows defaultHandleErrorSteps :=
  .bind (notifyError_grows _) fun _ => close_grows

theorem handleRead_grows (read : SocketRead) (now : Nat) (epoll : EpollMod) :
    Within Grows (handleReadSteps read now epoll) :=
  .bind (readData_grows read now) fun _ =>
    .ite (.bind close_grows fun _ => .pure _) <|
      .ite (.bind close_grows fun _ => .pure _) <|
        .bind (lockGuard_grows (.getBind fun _ => .pure _)) fun _ =>
          .ite
            (.bind (writeData_grows _ epoll) fun _ =>
              lockGuard_grows (.modify fun _ => List.prefix_rfl))
            (.pure _)

theorem handleReadable_grows (read : SocketRead) (now : Nat) (epoll : EpollMod) :
    Within Grows (handleReadableSteps read now epoll) :=
  .getBind fun _ => .ite (handleRead_grows read now epoll) (defaultHandleRead_grows read now)

theorem handleWritable_grows (write : SocketWrite) (epoll : EpollMod) :
    Within Grows (handleWritableSteps write epoll) :=
  .getBind fun _ =>
    .ite (defaultHandleWrite_grows write epoll) (defaultHandleWrite_grows write epoll)

theorem handleError_grows : Within Grows handleErrorSteps :=
  .getBind fun _ => .ite defaultHandleError_grows defaultHandleError_grows

theorem callback_grows (events : UInt32) (calls : SystemCalls) :
    Within Grows (callbackSteps events calls) :=
  .bind (.ite (handleReadable_grows _ _ _) (.pure _)) fun _ =>
    .bind (.ite (handleWritable_grows _ _) (.pure _)) fun _ =>
      .ite handleError_grows (.pure _)

/-! ## Removing the descriptor -/

/-- The descriptor has been taken from the event loop since. -/
def Removes (conn after : Connection) : Prop :=
  ∃ added, after.effects = conn.effects ++ added ∧ .removeFd conn.socketFd ∈ added

theorem Removes.later (removes : conn.Removes middle) (grows : Grows middle after) :
    conn.Removes after := by
  rcases removes with ⟨added, effects, removed⟩
  rcases grows with ⟨more, effects'⟩
  exact ⟨added ++ more, by rw [← effects', effects, List.append_assoc],
    List.mem_append_left _ removed⟩

theorem Removes.earlier (removes : middle.Removes after) (grows : Grows conn middle)
    (same : middle.socketFd = conn.socketFd) : conn.Removes after := by
  rcases removes with ⟨added, effects, removed⟩
  rcases grows with ⟨more, effects'⟩
  exact ⟨more ++ added, by rw [effects, ← effects', List.append_assoc],
    List.mem_append_right _ (same ▸ removed)⟩

theorem Closes.removes (closes : conn.Closes after) : conn.Removes after := by
  rcases closes.effects with ⟨before, behind, effects, -, -⟩
  exact ⟨_, effects, by simp⟩

theorem Stays.not_removes (stays : conn.Stays after) : ¬conn.Removes after := by
  rintro ⟨added, effects, removed⟩
  rcases stays.effects with ⟨quiet, effects', isQuiet⟩
  obtain rfl : added = quiet := List.append_cancel_left (effects.symm.trans effects')
  exact isQuiet _ removed trivial

/-- `Close` removes the descriptor before it blocks. -/
theorem removes_of_close_deadlocked (blocks : close conn = .deadlocked after) :
    conn.Removes after := by
  rcases deadlocks_close_iff.mp ⟨after, blocks⟩ with ⟨opened, held⟩
  have stuck (conn : Connection) (held : conn.bufferMutexHeld = true) :
      (do cleanupResources; setState .disconnected : Op PUnit) conn = .deadlocked conn :=
    Call.bind_of_deadlocked (lockGuard_of_held held) _
  cases handler : conn.hasHandler <;> by_cases valid : 0 ≤ conn.socketFd <;>
    · simp [close, opened.1, opened.2, handler, valid, stuck, held] at blocks
      simp [Removes, ← blocks]

/-- So do calls in which nothing else can block. -/
theorem removes_of_bind_deadlocked {α β : Type} {first : Op α} {next : α → Op β}
    (removes : ∀ after, first conn = .deadlocked after → conn.Removes after)
    (never : ∀ value middle, ¬Deadlocks (next value) middle)
    (blocks : (first >>= next) conn = .deadlocked after) : conn.Removes after := by
  rw [Call.bind_apply] at blocks
  cases outcome : first conn with
  | returned value middle =>
      rw [outcome] at blocks
      exact absurd ⟨after, blocks⟩ (never value middle)
  | threw error middle =>
      rw [outcome] at blocks
      cases blocks
  | deadlocked middle =>
      rw [outcome] at blocks
      cases blocks
      exact removes _ outcome

theorem removes_of_notifyError_bind_deadlocked {message : Bytes} {α : Type} {call : Op α}
    (removes : ∀ conn after, call conn = .deadlocked after → conn.Removes after)
    (blocks : (notifyError message >>= fun _ => call) conn = .deadlocked after) :
    conn.Removes after := by
  rw [Call.bind_of_returned (notifyError_returns message conn)] at blocks
  have grows : Grows conn (conn.notified message) := List.prefix_append _ _
  exact (removes _ _ blocks).earlier grows rfl

/-- The report of an error that closes the connection. -/
theorem removes_of_notifyAndClose_deadlocked {message : Bytes} {α : Type} {value : α}
    (blocks : (do notifyError message; close; return value : Op α) conn = .deadlocked after) :
    conn.Removes after :=
  removes_of_notifyError_bind_deadlocked
    (fun _ _ => removes_of_bind_deadlocked (fun _ => removes_of_close_deadlocked) fun _ _ =>
      not_deadlocks_pure _ _)
    blocks

theorem removes_of_readData_deadlocked (free : conn.bufferMutexHeld = false)
    (blocks : readData read now conn = .deadlocked after) : conn.Removes after := by
  rcases (deadlocks_readData_iff free read now).mp ⟨after, blocks⟩ with
    ⟨reads, data, nonempty, fits, rfl, overflow⟩
  have free' : bufferMutex.held { conn with lastActivityTime := now } = false := free
  have overflow' : conn.maxBufferSize < (conn.readBuffer ++ data).length := by
    rwa [List.length_append]
  simp only [readData, Call.get_bind_apply, if_neg (Reads.goesOn reads), updateActivityTime,
    Call.modify_bind_apply, lockGuard_eq_deadlocked_iff free'] at blocks
  split at blocks
  next => exact (removes_of_notifyAndClose_deadlocked blocks).earlier List.prefix_rfl rfl
  next room => exact absurd overflow' room

theorem removes_of_writeData_deadlocked (free : conn.bufferMutexHeld = false)
    (blocks : writeData data epoll conn = .deadlocked after) : conn.Removes after := by
  rcases (deadlocks_writeData_iff free data epoll).mp ⟨after, blocks⟩ with ⟨-, overflow⟩
  have free' : bufferMutex.held conn = false := free
  have overflow' : conn.maxBufferSize < (conn.writeBuffer ++ data).length := by
    rwa [List.length_append]
  simp only [writeData, lockGuard_eq_deadlocked_iff free', Call.get_bind_apply,
    Call.modify_bind_apply] at blocks
  split at blocks
  next => exact (removes_of_notifyAndClose_deadlocked blocks).earlier List.prefix_rfl rfl
  next room => exact absurd overflow' room

theorem removes_of_defaultHandleWrite_deadlocked (free : conn.bufferMutexHeld = false)
    (blocks : defaultHandleWrite write epoll conn = .deadlocked after) : conn.Removes after := by
  rcases (deadlocks_defaultHandleWrite_iff free write epoll).mp ⟨after, blocks⟩ with
    ⟨-, unwritten, text, rfl⟩
  have free' : bufferMutex.held conn = false := free
  simp only [defaultHandleWrite, lockGuard_eq_deadlocked_iff free', Call.get_bind_apply]
    at blocks
  split at blocks
  next =>
      rw [Bool.not_false, if_pos rfl] at blocks
      have removes := removes_of_notifyError_bind_deadlocked
        (fun _ _ => removes_of_close_deadlocked) blocks
      exact removes.earlier List.prefix_rfl rfl
  next written => exact absurd unwritten written

/-! ## Callbacks that block -/

/-- The read handler blocks: a buffer overflows. -/
def ReadBlocks (conn : Connection) : SocketRead → Prop
  | .received data _ _ =>
      conn.Reads ∧ (conn.TakesIn data → conn.Completes data ∧ ¬conn.TakesResponse)
  | _ => False

/-- The write handler blocks: writing fails for good. -/
def WriteBlocks (writeBuffer : Bytes) : SocketWrite → Prop
  | .failed false _ => writeBuffer ≠ []
  | _ => False

theorem deadlocks_handleReadable_iff (ready : conn.Ready) (opened : conn.IsOpen)
    (read : SocketRead) (now : Nat) (epoll : EpollMod) :
    Deadlocks (handleReadable read now epoll) conn ↔ conn.ReadBlocks read := by
  have ends := handleReadable_outcome ready.hasHandler ready.unlocked read now epoll
  rw [Deadlocks]
  generalize handleReadable read now epoll conn = outcome at ends
  cases ends with
  | ignored notOpen => exact absurd opened notOpen
  | refused _ notReads =>
      refine iff_of_false (by simp) ?_
      cases read <;> simp [ReadBlocks, notReads]
  | endOfFile | wouldBlock | failed => simp [ReadBlocks]
  | overflow reads full => exact iff_of_true ⟨_, rfl⟩ ⟨reads, fun room => absurd room full⟩
  | incomplete _ room notComplete =>
      exact iff_of_false (by simp) fun blocks => notComplete (blocks.2 room).1
  | answered _ room _ takes | unwatched _ room _ takes =>
      exact iff_of_false (by simp) fun blocks => (blocks.2 room).2 takes
  | noRoom reads _ completes full =>
      exact iff_of_true ⟨_, rfl⟩ ⟨reads, fun _ => ⟨completes, full⟩⟩

theorem removes_of_handleReadable_deadlocked (ready : conn.Ready)
    (blocks : handleReadable read now epoll conn = .deadlocked after) : conn.Removes after := by
  have ends := handleReadable_outcome ready.hasHandler ready.unlocked read now epoll
  rw [handleReadable_of_handler ready.hasHandler] at ends blocks
  rw [blocks] at ends
  cases ends with
  | @overflow data nonempty fits _ _ reads full =>
      have reading : Deadlocks (readData (.received data nonempty fits) now) conn :=
        (deadlocks_readData_iff ready.unlocked _ _).mpr
          ⟨reads, data, nonempty, fits, rfl, Nat.lt_of_not_le full⟩
      rcases reading with ⟨last, reading⟩
      rw [Handler.handleRead, Call.bind_of_deadlocked reading] at blocks
      cases blocks
      exact removes_of_readData_deadlocked ready.unlocked reading
  | @noRoom data nonempty fits _ _ reads room completes full =>
      have positive : (0 : Int) < data.length :=
        Int.natCast_pos.mpr (List.length_pos_iff.mpr nonempty)
      have freeAfter : (conn.received data now).bufferMutexHeld = false := ready.unlocked
      have writing : Deadlocks (writeData Handler.response epoll) (conn.received data now) :=
        (deadlocks_writeData_iff freeAfter _ _).mpr
          ⟨isOpen_received conn data now, Nat.lt_of_not_le full⟩
      rcases writing with ⟨last, writing⟩
      rw [handleRead_of_data (readData_received reads ready.unlocked nonempty fits room) positive
        freeAfter, if_pos (show bytes "\r\n\r\n" <:+: (conn.received data now).readBuffer from
          completes), Call.bind_of_deadlocked writing] at blocks
      cases blocks
      exact (removes_of_writeData_deadlocked freeAfter writing).earlier List.prefix_rfl rfl

theorem deadlocks_handleWritable_iff (ready : conn.Ready) (opened : conn.IsOpen)
    (write : SocketWrite) (epoll : EpollMod) :
    Deadlocks (handleWritable write epoll) conn ↔ WriteBlocks conn.writeBuffer write := by
  rw [Deadlocks, handleWritable_of_handler ready.hasHandler, ← Deadlocks,
    deadlocks_defaultHandleWrite_iff ready.unlocked, and_iff_right opened]
  cases write with
  | accepted count => simp [WriteBlocks]
  | failed wouldBlock text => cases wouldBlock <;> simp [WriteBlocks]

theorem removes_of_handleWritable_deadlocked (ready : conn.Ready)
    (blocks : handleWritable write epoll conn = .deadlocked after) : conn.Removes after := by
  rw [handleWritable_of_handler ready.hasHandler] at blocks
  exact removes_of_defaultHandleWrite_deadlocked ready.unlocked blocks

theorem not_deadlocks_handleError (ready : conn.Ready) : ¬Deadlocks handleError conn := by
  rw [Deadlocks, handleError_of_handler ready.hasHandler, ← Deadlocks, deadlocks_close_iff]
  rintro ⟨-, held⟩
  exact absurd (ready.unlocked.symm.trans held) (by decide)

theorem deadlocks_onAny_iff {flags : UInt32} {handler : Op PUnit} :
    Deadlocks (onAny events flags handler) conn ↔
      EventLoop.Any events flags ∧ Deadlocks handler conn := by
  rw [onAny, deadlocks_ite_iff, or_iff_left fun other => not_deadlocks_pure _ _ other.2]

/-- After the write handler nothing blocks. -/
theorem deadlocks_writeAndError_iff (ready : conn.Ready) :
    Deadlocks (do
        onAny events EventLoop.epollWrite (handleWritable calls.write calls.writeEpoll)
        onAny events EventLoop.epollError handleError) conn ↔
      Deadlocks (onAny events EventLoop.epollWrite
        (handleWritable calls.write calls.writeEpoll)) conn := by
  have never (next : Connection) (readyNext : next.Ready) :
      ¬Deadlocks (onAny events EventLoop.epollError handleError) next :=
    fun blocks => not_deadlocks_handleError readyNext (deadlocks_onAny_iff.mp blocks).2
  rw [deadlocks_bind_iff, or_iff_left]
  rintro ⟨value, next, returns, blocks⟩
  by_cases opened : conn.IsOpen
  · have fate := (handleWritable_fate ready opened calls.write calls.writeEpoll).onAny ready
      events EventLoop.epollWrite
    rw [returns] at fate
    cases fate with
    | closes _ _ _ readyNext | stays _ _ _ readyNext => exact never next readyNext blocks
  · rcases (handleWritable_idle ready opened calls.write calls.writeEpoll).onAny ready events
      EventLoop.epollWrite with ⟨other, returns', -, readyNext⟩
    cases returns.symm.trans returns'
    exact never next readyNext blocks

/-- The callback blocks: the read handler does, or the write handler is come to and does. -/
def BlockedBy (conn : Connection) (events : UInt32) (calls : SystemCalls) : Prop :=
  EventLoop.Any events EventLoop.epollRead ∧ conn.ReadBlocks calls.read ∨
    EventLoop.Any events EventLoop.epollWrite ∧
      ¬(EventLoop.Any events EventLoop.epollRead ∧
        (conn.ReadCloses calls.read ∨ conn.ReadThrows calls.read calls.readEpoll)) ∧
      WriteBlocks (conn.toWrite events calls) calls.write

/-- The write handler blocks only on an open connection. -/
theorem deadlocks_onAny_handleWritable_iff (ready : conn.Ready) :
    Deadlocks (onAny events EventLoop.epollWrite
        (handleWritable calls.write calls.writeEpoll)) conn ↔
      conn.IsOpen ∧ EventLoop.Any events EventLoop.epollWrite ∧
        WriteBlocks conn.writeBuffer calls.write := by
  rw [deadlocks_onAny_iff]
  by_cases opened : conn.IsOpen
  · rw [deadlocks_handleWritable_iff ready opened, and_iff_right opened]
  · refine iff_of_false ?_ fun condition => opened condition.1
    rintro ⟨-, after, blocks⟩
    rcases handleWritable_idle ready opened calls.write calls.writeEpoll with ⟨other, returns, -⟩
    cases returns.symm.trans blocks

theorem deadlocks_callback_iff (ready : conn.Ready) (opened : conn.IsOpen) (events : UInt32)
    (calls : SystemCalls) :
    Deadlocks (callback events calls) conn ↔ conn.BlockedBy events calls := by
  have fate := (handleReadable_fate ready opened calls.read calls.now calls.readEpoll).onAny
    ready events EventLoop.epollRead
  have reading : Deadlocks (onAny events EventLoop.epollRead
      (handleReadable calls.read calls.now calls.readEpoll)) conn ↔
        EventLoop.Any events EventLoop.epollRead ∧ conn.ReadBlocks calls.read := by
    rw [deadlocks_onAny_iff, deadlocks_handleReadable_iff ready opened]
  rw [callback, deadlocks_bind_iff, reading, BlockedBy]
  refine or_congr_right' fun notReading => ?_
  rw [← reading] at notReading
  generalize outcome : onAny events EventLoop.epollRead
    (handleReadable calls.read calls.now calls.readEpoll) conn = ended at fate
  cases fate with
  | blocks => exact absurd ⟨_, outcome⟩ notReading
  | throws _ isThrows _ _ =>
      refine iff_of_false (by simp) ?_
      rintro ⟨-, notEnded, -⟩
      exact notEnded ⟨isThrows.1, .inr isThrows.2⟩
  | @closes middle isCloses _ closed readyMiddle =>
      refine iff_of_false ?_ ?_
      · rintro ⟨value, other, returns, blocks⟩
        cases returns
        rw [deadlocks_writeAndError_iff readyMiddle,
          deadlocks_onAny_handleWritable_iff readyMiddle] at blocks
        exact closed.not_isOpen blocks.1
      · rintro ⟨-, notEnded, -⟩
        exact notEnded ⟨isCloses.1, .inl isCloses.2⟩
  | @stays middle notCloses notThrows stays readyMiddle =>
      have openMiddle : middle.IsOpen := stays.isOpen_iff.mpr opened
      have written := writeBuffer_of_onAny_handleReadable ready openMiddle outcome
      have writing := (@deadlocks_writeAndError_iff middle events calls readyMiddle).trans
        (deadlocks_onAny_handleWritable_iff readyMiddle)
      rw [and_iff_right openMiddle, written] at writing
      have goesOn : ¬(EventLoop.Any events EventLoop.epollRead ∧
          (conn.ReadCloses calls.read ∨ conn.ReadThrows calls.read calls.readEpoll)) := by
        rintro ⟨any, closes | throws⟩
        · exact notCloses ⟨any, closes⟩
        · exact notThrows ⟨any, throws⟩
      rw [and_iff_right goesOn, ← writing]
      simp

/-- A handler that blocks has removed the descriptor. -/
theorem removes_of_onAny_deadlocked {flags : UInt32} {handler : Op PUnit}
    (removes : ∀ after, handler conn = .deadlocked after → conn.Removes after)
    (blocks : onAny events flags handler conn = .deadlocked after) : conn.Removes after := by
  rw [onAny] at blocks
  split at blocks
  next => exact removes after blocks
  next => cases blocks

/-- A callback that blocks has removed the descriptor. -/
theorem removes_of_callback_deadlocked (ready : conn.Ready) (opened : conn.IsOpen)
    (blocks : callback events calls conn = .deadlocked after) : conn.Removes after := by
  have fate := (handleReadable_fate ready opened calls.read calls.now calls.readEpoll).onAny
    ready events EventLoop.epollRead
  generalize outcome : onAny events EventLoop.epollRead
    (handleReadable calls.read calls.now calls.readEpoll) conn = ended at fate
  cases fate with
  | blocks =>
      rw [callback, Call.bind_of_deadlocked outcome] at blocks
      cases blocks
      exact removes_of_onAny_deadlocked
        (fun _ => removes_of_handleReadable_deadlocked ready) outcome
  | throws =>
      rw [callback, Call.bind_of_threw outcome] at blocks
      cases blocks
  | @closes middle _ _ closed readyMiddle =>
      rw [callback, Call.bind_of_returned outcome] at blocks
      have writing := (deadlocks_writeAndError_iff readyMiddle).mp ⟨after, blocks⟩
      rw [deadlocks_onAny_handleWritable_iff readyMiddle] at writing
      exact absurd writing.1 closed.not_isOpen
  | @stays middle _ _ stays readyMiddle =>
      rw [callback, Call.bind_of_returned outcome] at blocks
      rcases (deadlocks_writeAndError_iff readyMiddle).mp ⟨after, blocks⟩ with ⟨last, writing⟩
      rw [Call.bind_of_deadlocked writing] at blocks
      cases blocks
      rcases stays.effects with ⟨quiet, effects, -⟩
      exact (removes_of_onAny_deadlocked
        (fun _ => removes_of_handleWritable_deadlocked readyMiddle) writing).earlier
        ⟨quiet, effects.symm⟩ stays.socketFd

/-- **A callback leaves its descriptor registered** at every point exactly if it neither closes
the connection nor blocks. -/
theorem along_callback_iff (ready : conn.Ready) (opened : conn.IsOpen) (events : UInt32)
    (calls : SystemCalls) :
    Along (¬conn.Removes ·) (callbackSteps events calls) conn ↔
      ¬(conn.ClosedBy events calls ∨ conn.BlockedBy events calls) := by
  have fate := callback_fate ready opened events calls
  have later := (callback_grows events calls).to_end conn
  have start : ¬conn.Removes conn := (Stays.refl conn).not_removes
  have blocked := deadlocks_callback_iff ready opened events calls
  constructor
  · intro along ended
    have atEnd := along.at_end start
    rcases fate with ⟨throws, fate⟩
    generalize outcome : callback events calls conn = last at fate atEnd
    cases fate with
    | closes _ _ closed _ => exact atEnd closed.removes
    | stays notCloses _ _ _ | throws notCloses _ _ _ =>
        rcases blocked.mpr (ended.resolve_left notCloses) with ⟨other, blocks⟩
        cases outcome.symm.trans blocks
    | blocks => exact atEnd (removes_of_callback_deadlocked ready opened outcome)
  · intro goesOn point member removes
    have atEnd := removes.later (later point member)
    rcases fate with ⟨throws, fate⟩
    generalize outcome : callback events calls conn = last at fate atEnd
    cases fate with
    | closes isCloses _ _ _ => exact goesOn (.inl isCloses)
    | stays _ _ stays _ | throws _ _ stays _ => exact stays.not_removes atEnd
    | blocks => exact goesOn (.inr (blocked.mp ⟨_, outcome⟩))

end PPServer.Net.Connection
