import PPServer.EventLoop.Descriptors
import PPServer.Net.Outcomes

/-!
# What ends the life of a connection

The event loop runs the handlers of a connection one after another, and each of them leaves the
connection open, with its descriptor, or closes it.  Closing takes the descriptor from the event
loop and gives it back to the kernel, in this order; nothing else does either.
-/

namespace PPServer.Net

open Locking

/-- The effect takes a descriptor from the event loop, or from the process. -/
def Effect.IsRelease : Effect → Prop
  | .removeFd _ | .closeSocket _ => True
  | _ => False

instance (effect : Effect) : Decidable effect.IsRelease := by
  cases effect <;> simp only [Effect.IsRelease] <;> infer_instance

namespace Connection

variable {conn middle after : Connection} {now : Nat} {epoll : EpollMod} {data : Bytes}

/-! ## Open, or closed for good -/

/-- A connection that the event loop may call: `HandleNewConnection` has set it up. -/
structure Ready (conn : Connection) : Prop where
  hasHandler : conn.hasHandler = true
  unlocked : conn.Unlocked
  started : conn.state ≠ .connecting
  socketFd_nonneg : conn.IsOpen → 0 ≤ conn.socketFd
  nothingToWrite : ¬conn.IsOpen → conn.writeBuffer = []

/-- The connection is as open as before, and its descriptor is left alone. -/
structure Stays (conn after : Connection) : Prop where
  isOpen_iff : after.IsOpen ↔ conn.IsOpen
  socketFd : after.socketFd = conn.socketFd
  effects : ∃ quiet, after.effects = conn.effects ++ quiet ∧ ∀ effect ∈ quiet, ¬effect.IsRelease

/-- The connection is closed and its descriptor released, once. -/
structure Closes (conn after : Connection) : Prop where
  isOpen : conn.IsOpen
  not_isOpen : ¬after.IsOpen
  effects : ∃ before behind,
    after.effects = conn.effects ++
      (before ++ .removeFd conn.socketFd :: .closeSocket conn.socketFd :: behind) ∧
    (∀ effect ∈ before, ¬effect.IsRelease) ∧ ∀ effect ∈ behind, ¬effect.IsRelease

theorem Stays.refl (conn : Connection) : conn.Stays conn :=
  ⟨Iff.rfl, rfl, [], by simp, by simp⟩

theorem Stays.trans (first : conn.Stays middle) (second : middle.Stays after) :
    conn.Stays after := by
  rcases first.effects with ⟨quiet, effects, isQuiet⟩
  rcases second.effects with ⟨quiet', effects', isQuiet'⟩
  refine ⟨second.isOpen_iff.trans first.isOpen_iff, second.socketFd.trans first.socketFd,
    quiet ++ quiet', ?_, ?_⟩
  · rw [effects', effects, List.append_assoc]
  · exact List.forall_mem_append.mpr ⟨isQuiet, isQuiet'⟩

theorem Stays.closes (first : conn.Stays middle) (second : middle.Closes after) :
    conn.Closes after := by
  rcases first.effects with ⟨quiet, effects, isQuiet⟩
  rcases second.effects with ⟨before, behind, effects', isQuiet', isQuiet''⟩
  refine ⟨first.isOpen_iff.mp second.isOpen, second.not_isOpen, quiet ++ before, behind, ?_,
    List.forall_mem_append.mpr ⟨isQuiet, isQuiet'⟩, isQuiet''⟩
  rw [effects', effects, first.socketFd, List.append_assoc, List.append_assoc]

theorem Closes.stays (first : conn.Closes middle) (second : middle.Stays after) :
    conn.Closes after := by
  rcases first.effects with ⟨before, behind, effects, isQuiet, isQuiet'⟩
  rcases second.effects with ⟨quiet, effects', isQuiet''⟩
  refine ⟨first.isOpen, fun opened => first.not_isOpen (second.isOpen_iff.mp opened), before,
    behind ++ quiet, ?_, isQuiet, List.forall_mem_append.mpr ⟨isQuiet', isQuiet''⟩⟩
  rw [effects', effects]
  simp

/-! ## The connections that handlers leave behind -/

theorem ready_closed (ready : conn.Ready) : conn.closed.Ready where
  hasHandler := ready.hasHandler
  unlocked := ready.unlocked
  started := by simp [closed]
  socketFd_nonneg opened := absurd opened (not_isOpen_closed conn)
  nothingToWrite _ := rfl

theorem closes_closed (ready : conn.Ready) (opened : conn.IsOpen) : conn.Closes conn.closed where
  isOpen := opened
  not_isOpen := not_isOpen_closed conn
  effects := by
    refine ⟨[], [.onDisconnection], ?_, by simp, by simp [Effect.IsRelease]⟩
    simp [closed, ready.hasHandler, ready.socketFd_nonneg opened]

theorem ready_notified (ready : conn.Ready) (message : Bytes) : (conn.notified message).Ready :=
  ⟨ready.hasHandler, ready.unlocked, ready.started, ready.socketFd_nonneg,
    ready.nothingToWrite⟩

theorem stays_notified (conn : Connection) (message : Bytes) :
    conn.Stays (conn.notified message) := by
  refine ⟨Iff.rfl, rfl, _, rfl, ?_⟩
  split <;> simp [Effect.IsRelease]

/-- What a handler that finds the connection in use leaves it with. -/
theorem ready_of_isOpen (ready : conn.Ready) (opened : conn.IsOpen)
    (hasHandler : after.hasHandler = conn.hasHandler)
    (unlocked : after.bufferMutexHeld = conn.bufferMutexHeld)
    (socketFd : after.socketFd = conn.socketFd) (isOpen : after.IsOpen)
    (started : after.state ≠ .connecting) : after.Ready where
  hasHandler := hasHandler.trans ready.hasHandler
  unlocked := unlocked.trans ready.unlocked
  started := started
  socketFd_nonneg _ := socketFd ▸ ready.socketFd_nonneg opened
  nothingToWrite closed := absurd isOpen closed

theorem isOpen_received (conn : Connection) (data : Bytes) (now : Nat) :
    (conn.received data now).IsOpen := by
  simp [IsOpen, received]

theorem ready_received (ready : conn.Ready) (opened : conn.IsOpen) (data : Bytes) (now : Nat) :
    (conn.received data now).Ready :=
  ready_of_isOpen ready opened rfl rfl rfl (isOpen_received conn data now) (by simp [received])

theorem stays_received (opened : conn.IsOpen) (data : Bytes) (now : Nat) :
    conn.Stays (conn.received data now) :=
  ⟨iff_of_true (isOpen_received conn data now) opened, rfl, [], by simp [received], by simp⟩

theorem isOpen_answered (conn : Connection) (data : Bytes) (now : Nat) :
    (conn.answered data now).IsOpen := by
  simp [IsOpen, answered, wrote]

theorem ready_answered (ready : conn.Ready) (opened : conn.IsOpen) (data : Bytes) (now : Nat) :
    (conn.answered data now).Ready :=
  ready_of_isOpen ready opened rfl rfl rfl (isOpen_answered conn data now)
    (by simp [answered, wrote])

theorem stays_answered (opened : conn.IsOpen) (data : Bytes) (now : Nat) :
    conn.Stays (conn.answered data now) :=
  ⟨iff_of_true (isOpen_answered conn data now) opened, rfl, _, rfl, by simp [Effect.IsRelease]⟩

theorem isOpen_drained (conn : Connection) (count : Nat) : (conn.drained count).IsOpen := by
  simp [IsOpen, drained]

theorem ready_drained (ready : conn.Ready) (opened : conn.IsOpen) (count : Nat) :
    (conn.drained count).Ready :=
  ready_of_isOpen ready opened rfl rfl rfl (isOpen_drained conn count) (by simp [drained])

theorem stays_drained (opened : conn.IsOpen) (count : Nat) :
    conn.Stays (conn.drained count) := by
  refine ⟨iff_of_true (isOpen_drained conn count) opened, rfl, _, rfl, ?_⟩
  split <;> simp [Effect.IsRelease]

theorem ready_sent (ready : conn.Ready) (opened : conn.IsOpen) (count : Nat) :
    (conn.sent count).Ready :=
  ready_of_isOpen ready opened rfl rfl rfl opened ready.started

theorem stays_sent (conn : Connection) (count : Nat) : conn.Stays (conn.sent count) :=
  ⟨Iff.rfl, rfl, _, rfl, by simp [Effect.IsRelease]⟩

/-! ## The handlers -/

/-- The read handler closes the connection: it may not read, or no data are read. -/
def ReadCloses (conn : Connection) : SocketRead → Prop
  | .received _ _ _ => ¬conn.Reads
  | _ => True

/-- The response is queued, and the event loop cannot be told. -/
def ReadThrows (conn : Connection) : SocketRead → EpollMod → Prop
  | .received data _ _, .failed _ => conn.Reads ∧ conn.Completes data
  | _, _ => False

/-- What is to be written after the read handler. -/
def unwritten (conn : Connection) : SocketRead → Bytes
  | .received data _ _ =>
      if conn.Completes data then conn.writeBuffer ++ Handler.response else conn.writeBuffer
  | _ => conn.writeBuffer

/-- The last bytes are written, and the event loop cannot be told. -/
def WriteThrows (writeBuffer : Bytes) : SocketWrite → EpollMod → Prop
  | .accepted count, .failed _ => writeBuffer ≠ [] ∧ writeBuffer.length ≤ count
  | _, _ => False

instance (conn : Connection) (read : SocketRead) : Decidable (conn.ReadCloses read) := by
  cases read <;> simp only [ReadCloses] <;> infer_instance

instance (conn : Connection) (read : SocketRead) (epoll : EpollMod) :
    Decidable (conn.ReadThrows read epoll) := by
  cases read <;> cases epoll <;> simp only [ReadThrows] <;> infer_instance

instance (writeBuffer : Bytes) (write : SocketWrite) (epoll : EpollMod) :
    Decidable (WriteThrows writeBuffer write epoll) := by
  cases write <;> cases epoll <;> simp only [WriteThrows] <;> infer_instance

/-- How a handler ends on an open connection; `closes` and `throws` say when it does. -/
inductive Fate (conn : Connection) (closes throws : Prop) :
    Outcome Exception Connection PUnit → Prop where
  | closes {after : Connection} : closes → ¬throws → conn.Closes after → after.Ready →
      Fate conn closes throws (.returned ⟨⟩ after)
  | stays {after : Connection} : ¬closes → ¬throws → conn.Stays after → after.Ready →
      Fate conn closes throws (.returned ⟨⟩ after)
  | throws {error : Exception} {after : Connection} : ¬closes → throws → conn.Stays after →
      after.Ready → Fate conn closes throws (.threw error after)
  | blocks {after : Connection} : Fate conn closes throws (.deadlocked after)

theorem Fate.congr {closes closes' throws throws' : Prop}
    {outcome : Outcome Exception Connection PUnit} (fate : Fate conn closes throws outcome)
    (closesIff : closes ↔ closes') (throwsIff : throws ↔ throws') :
    Fate conn closes' throws' outcome := by
  rwa [← propext closesIff, ← propext throwsIff]

theorem handleReadable_fate (ready : conn.Ready) (opened : conn.IsOpen) (read : SocketRead)
    (now : Nat) (epoll : EpollMod) :
    Fate conn (conn.ReadCloses read) (conn.ReadThrows read epoll)
      (handleReadable read now epoll conn) := by
  have ends := handleReadable_outcome ready.hasHandler ready.unlocked read now epoll
  generalize handleReadable read now epoll conn = outcome at ends
  cases ends with
  | ignored notOpen => exact absurd opened notOpen
  | refused _ notReads =>
      refine .closes ?_ ?_ (closes_closed ready opened) (ready_closed ready)
      · cases read <;> simp [ReadCloses, notReads]
      · cases read <;> cases epoll <;> simp [ReadThrows, notReads]
  | endOfFile | wouldBlock =>
      exact .closes trivial not_false (closes_closed ready opened) (ready_closed ready)
  | @failed text _ _ =>
      have readyToClose := ready_notified ready (bytes "Read error: " ++ text)
      exact .closes trivial not_false
        ((stays_notified conn _).closes (closes_closed readyToClose opened))
        (ready_closed readyToClose)
  | overflow | noRoom => exact .blocks
  | incomplete reads _ notComplete =>
      refine .stays (not_not.mpr reads) ?_ (stays_received opened _ now)
        (ready_received ready opened _ now)
      cases epoll <;> simp [ReadThrows, notComplete]
  | answered reads _ _ _ =>
      exact .stays (not_not.mpr reads) not_false (stays_answered opened _ now)
        (ready_answered ready opened _ now)
  | @unwatched data _ _ _ reads _ completes _ =>
      have openAfter : ((conn.received data now).queued Handler.response).IsOpen :=
        isOpen_received conn data now
      exact .throws (not_not.mpr reads) ⟨reads, completes⟩
        ⟨iff_of_true openAfter opened, rfl, [], by simp [queued, received], by simp⟩
        (ready_of_isOpen ready opened rfl rfl rfl openAfter (by simp [queued, received]))

/-- What the read handler leaves to be written. -/
theorem writeBuffer_of_handleReadable (ready : conn.Ready) {read : SocketRead}
    (returns : handleReadable read now epoll conn = .returned ⟨⟩ after) (opened : after.IsOpen) :
    after.writeBuffer = conn.unwritten read := by
  have ends := handleReadable_outcome ready.hasHandler ready.unlocked read now epoll
  rw [returns] at ends
  cases ends with
  | ignored notOpen => exact absurd opened notOpen
  | refused | endOfFile | wouldBlock | failed => exact absurd opened (not_isOpen_closed _)
  | incomplete _ _ notComplete => exact (if_neg notComplete).symm
  | answered _ _ completes _ => exact (if_pos completes).symm

theorem handleWritable_of_handler (handler : conn.hasHandler = true) (write : SocketWrite)
    (epoll : EpollMod) :
    handleWritable write epoll conn = defaultHandleWrite write epoll conn := by
  rw [handleWritable, Call.get_bind_apply, if_pos handler, Handler.handleWrite]

theorem handleWritable_fate (ready : conn.Ready) (opened : conn.IsOpen) (write : SocketWrite)
    (epoll : EpollMod) :
    Fate conn False (WriteThrows conn.writeBuffer write epoll)
      (handleWritable write epoll conn) := by
  rw [handleWritable_of_handler ready.hasHandler]
  have ends := defaultHandleWrite_outcome ready.unlocked write epoll
  generalize defaultHandleWrite write epoll conn = outcome at ends
  cases ends with
  | nothing empty =>
      refine .stays not_false ?_ (.refl conn) ready
      cases write <;> cases epoll <;> simp [WriteThrows, empty]
  | none unwritten =>
      refine .stays not_false ?_ (.refl conn) ready
      cases epoll <;> simp [WriteThrows, unwritten]
  | part positive short =>
      refine .stays not_false ?_ (stays_sent conn _) (ready_sent ready opened _)
      cases epoll <;> simp [WriteThrows, short]
  | all unwritten last =>
      exact .stays not_false not_false (stays_drained opened _) (ready_drained ready opened _)
  | unwatched unwritten last =>
      exact .throws not_false ⟨unwritten, last⟩ (stays_sent conn _) (ready_sent ready opened _)
  | wouldBlock => exact .stays not_false not_false (.refl conn) ready
  | failed => exact .blocks
  | failedLate _ notOpen => exact absurd opened notOpen

theorem handleError_of_handler (handler : conn.hasHandler = true) :
    handleError conn = close (conn.notified (bytes "Epoll event error")) := by
  rw [handleError, Call.get_bind_apply, if_pos handler, Handler.handleError, defaultHandleError,
    Call.bind_of_returned (notifyError_returns _ conn)]

theorem handleError_fate (ready : conn.Ready) (opened : conn.IsOpen) :
    Fate conn True False (handleError conn) := by
  have readyToClose := ready_notified ready (bytes "Epoll event error")
  have openToClose : (conn.notified (bytes "Epoll event error")).IsOpen := opened
  rw [handleError_of_handler ready.hasHandler, close_of_open openToClose readyToClose.unlocked]
  exact .closes trivial not_false
    ((stays_notified conn _).closes (closes_closed readyToClose openToClose))
    (ready_closed readyToClose)

/-! ## The callback -/

/-- The outcomes of the system calls of a callback. -/
structure SystemCalls where
  read : SocketRead
  readEpoll : EpollMod
  write : SocketWrite
  writeEpoll : EpollMod
  now : Nat

/-- A handler that runs on some events only. -/
def onAny (events flags : UInt32) (handler : Op PUnit) : Op PUnit :=
  if EventLoop.Any events flags then handler else pure ⟨⟩

/-- The callback that `HandleNewConnection` registers. -/
def callback (events : UInt32) (calls : SystemCalls) : Op PUnit := do
  onAny events EventLoop.epollRead (handleReadable calls.read calls.now calls.readEpoll)
  onAny events EventLoop.epollWrite (handleWritable calls.write calls.writeEpoll)
  onAny events EventLoop.epollError handleError

variable {closes throws : Prop} {handler : Op PUnit}

theorem Fate.onAny (fate : Fate conn closes throws (handler conn)) (ready : conn.Ready)
    (events flags : UInt32) :
    Fate conn (EventLoop.Any events flags ∧ closes) (EventLoop.Any events flags ∧ throws)
      (onAny events flags handler conn) := by
  rw [Connection.onAny]
  split
  next runs => simpa only [runs, true_and] using fate
  next skips =>
      exact .stays (fun both => skips both.1) (fun both => skips both.1) (.refl conn) ready

/-- The call on a closed connection leaves it closed. -/
def Idle (conn : Connection) (outcome : Outcome Exception Connection PUnit) : Prop :=
  ∃ after, outcome = .returned ⟨⟩ after ∧ conn.Stays after ∧ after.Ready

theorem Idle.bind {first second : Op PUnit} (idle : conn.Idle (first conn))
    (idleNext : ∀ middle, conn.Stays middle → middle.Ready → middle.Idle (second middle)) :
    conn.Idle ((first >>= fun _ => second) conn) := by
  rcases idle with ⟨middle, returns, stays, ready⟩
  rcases idleNext middle stays ready with ⟨after, returns', stays', ready'⟩
  exact ⟨after, by rw [Call.bind_of_returned returns, returns'], stays.trans stays', ready'⟩

theorem Idle.onAny (idle : conn.Idle (handler conn)) (ready : conn.Ready)
    (events flags : UInt32) : conn.Idle (onAny events flags handler conn) := by
  rw [Connection.onAny]
  split
  next => exact idle
  next => exact ⟨conn, rfl, .refl conn, ready⟩

theorem handleWritable_idle (ready : conn.Ready) (closed : ¬conn.IsOpen) (write : SocketWrite)
    (epoll : EpollMod) : conn.Idle (handleWritable write epoll conn) := by
  rw [handleWritable_of_handler ready.hasHandler]
  have ends := defaultHandleWrite_outcome ready.unlocked write epoll
  have empty : conn.writeBuffer = [] := ready.nothingToWrite closed
  generalize defaultHandleWrite write epoll conn = outcome at ends
  cases ends with
  | nothing => exact ⟨conn, rfl, .refl conn, ready⟩
  | none unwritten | all unwritten | unwatched unwritten | wouldBlock unwritten
  | failed unwritten | failedLate unwritten => exact absurd empty unwritten
  | part _ short => simp [empty] at short

theorem handleError_idle (ready : conn.Ready) (closed : ¬conn.IsOpen) :
    conn.Idle (handleError conn) := by
  rw [handleError_of_handler ready.hasHandler, close_of_closed (show
    ¬(conn.notified (bytes "Epoll event error")).IsOpen from closed)]
  exact ⟨_, rfl, stays_notified conn _, ready_notified ready _⟩

/-- A handler that does nothing to a closed connection, after one that may close it. -/
theorem Fate.bind {first second : Op PUnit} {closesNext throwsNext : Prop}
    (fate : Fate conn closes throws (first conn))
    (fateNext : ∀ middle, first conn = .returned ⟨⟩ middle → middle.IsOpen → middle.Ready →
      Fate middle closesNext throwsNext (second middle))
    (idleNext : ∀ middle : Connection, ¬middle.IsOpen → middle.Ready →
      middle.Idle (second middle))
    (opened : conn.IsOpen) :
    Fate conn (closes ∨ ¬throws ∧ closesNext) (throws ∨ ¬closes ∧ throwsNext)
      ((first >>= fun _ => second) conn) := by
  generalize outcome : first conn = ended at fate
  cases fate with
  | @closes middle isCloses notThrows closed ready =>
      rcases idleNext middle closed.not_isOpen ready with ⟨after, returns, stays, readyAfter⟩
      rw [Call.bind_of_returned outcome, returns]
      refine .closes (.inl isCloses) ?_ (closed.stays stays) readyAfter
      exact not_or.mpr ⟨notThrows, fun both => both.1 isCloses⟩
  | @stays middle notCloses notThrows stays ready =>
      have openMiddle : middle.IsOpen := stays.isOpen_iff.mpr opened
      have fateNext := fateNext middle outcome openMiddle ready
      rw [Call.bind_of_returned outcome]
      generalize second middle = ended at fateNext
      cases fateNext with
      | closes isCloses notThrows' closed readyAfter =>
          refine .closes (.inr ⟨notThrows, isCloses⟩) ?_ (stays.closes closed) readyAfter
          exact not_or.mpr ⟨notThrows, fun both => notThrows' both.2⟩
      | stays notCloses' notThrows' stays' readyAfter =>
          refine .stays ?_ ?_ (stays.trans stays') readyAfter
          · exact not_or.mpr ⟨notCloses, fun both => notCloses' both.2⟩
          · exact not_or.mpr ⟨notThrows, fun both => notThrows' both.2⟩
      | throws notCloses' isThrows stays' readyAfter =>
          refine .throws ?_ (.inr ⟨notCloses, isThrows⟩) (stays.trans stays') readyAfter
          exact not_or.mpr ⟨notCloses, fun both => notCloses' both.2⟩
      | blocks => exact .blocks
  | throws notCloses isThrows stays ready =>
      rw [Call.bind_of_threw outcome]
      refine .throws ?_ (.inl isThrows) stays ready
      exact not_or.mpr ⟨notCloses, fun both => both.1 isThrows⟩
  | blocks =>
      rw [Call.bind_of_deadlocked outcome]
      exact .blocks

/-- What is to be written when the callback comes to the write handler. -/
def toWrite (conn : Connection) (events : UInt32) (calls : SystemCalls) : Bytes :=
  if EventLoop.Any events EventLoop.epollRead then conn.unwritten calls.read
  else conn.writeBuffer

/-- The callback closes the connection: the read handler does, or the error handler is come
to. -/
def ClosedBy (conn : Connection) (events : UInt32) (calls : SystemCalls) : Prop :=
  EventLoop.Any events EventLoop.epollRead ∧ conn.ReadCloses calls.read ∨
    EventLoop.Any events EventLoop.epollError ∧
      ¬(EventLoop.Any events EventLoop.epollRead ∧
        conn.ReadThrows calls.read calls.readEpoll) ∧
      ¬(EventLoop.Any events EventLoop.epollWrite ∧
        WriteThrows (conn.toWrite events calls) calls.write calls.writeEpoll)

instance (conn : Connection) (events : UInt32) (calls : SystemCalls) :
    Decidable (conn.ClosedBy events calls) := inferInstanceAs (Decidable (_ ∨ _))

/-- What the read handler leaves to be written, if it runs. -/
theorem writeBuffer_of_onAny_handleReadable (ready : conn.Ready) (opened : middle.IsOpen)
    {events : UInt32} {calls : SystemCalls}
    (returns : onAny events EventLoop.epollRead
      (handleReadable calls.read calls.now calls.readEpoll) conn = .returned ⟨⟩ middle) :
    middle.writeBuffer = conn.toWrite events calls := by
  rw [Connection.onAny] at returns
  rw [toWrite]
  split at returns
  next runs =>
      rw [if_pos runs]
      exact writeBuffer_of_handleReadable ready returns opened
  next skips =>
      rw [if_neg skips]
      cases returns
      rfl

/-- The callback after its read handler, on a connection that this has left open. -/
theorem writeAndError_fate (ready : conn.Ready) (opened : conn.IsOpen) (events : UInt32)
    (calls : SystemCalls) :
    Fate conn
      (EventLoop.Any events EventLoop.epollError ∧
        ¬(EventLoop.Any events EventLoop.epollWrite ∧
          WriteThrows conn.writeBuffer calls.write calls.writeEpoll))
      (EventLoop.Any events EventLoop.epollWrite ∧
        WriteThrows conn.writeBuffer calls.write calls.writeEpoll)
      ((do
        onAny events EventLoop.epollWrite (handleWritable calls.write calls.writeEpoll)
        onAny events EventLoop.epollError handleError : Op PUnit) conn) := by
  have writes := (handleWritable_fate ready opened calls.write calls.writeEpoll).onAny ready
    events EventLoop.epollWrite
  have fate := writes.bind
    (fun middle _ openMiddle readyMiddle =>
      (handleError_fate readyMiddle openMiddle).onAny readyMiddle events EventLoop.epollError)
    (fun middle closed readyMiddle =>
      (handleError_idle readyMiddle closed).onAny readyMiddle events EventLoop.epollError)
    opened
  refine fate.congr ?_ ?_
  · simp only [and_false, false_or, and_true]
    exact and_comm
  · simp only [and_false, or_false]

theorem callback_fate (ready : conn.Ready) (opened : conn.IsOpen) (events : UInt32)
    (calls : SystemCalls) :
    ∃ throws, Fate conn (conn.ClosedBy events calls) throws (callback events calls conn) := by
  have reads := (handleReadable_fate ready opened calls.read calls.now calls.readEpoll).onAny
    ready events EventLoop.epollRead
  have fate := reads.bind
    (fun middle returns openMiddle readyMiddle => by
      have writes := writeAndError_fate readyMiddle openMiddle events calls
      rwa [writeBuffer_of_onAny_handleReadable ready openMiddle returns] at writes)
    (fun middle closed readyMiddle =>
      ((handleWritable_idle readyMiddle closed calls.write calls.writeEpoll).onAny readyMiddle
        events EventLoop.epollWrite).bind fun next stays readyNext =>
          (handleError_idle readyNext fun openNext => closed (stays.isOpen_iff.mp openNext)).onAny
            readyNext events EventLoop.epollError)
    opened
  refine ⟨_, fate.congr ?_ Iff.rfl⟩
  rw [ClosedBy]
  tauto

/-- **A callback on an open connection** that comes to an end leaves it closed or open, and
`ClosedBy` says which. -/
theorem callback_settles (ready : conn.Ready) (opened : conn.IsOpen) {events : UInt32}
    {calls : SystemCalls} (final : (callback events calls conn).Final after) :
    after.Ready ∧
      (conn.ClosedBy events calls ∧ conn.Closes after ∨
        ¬conn.ClosedBy events calls ∧ conn.Stays after) := by
  rcases callback_fate ready opened events calls with ⟨throws, fate⟩
  generalize callback events calls conn = outcome at fate final
  cases fate with
  | closes isCloses _ closed readyAfter =>
      cases final
      exact ⟨readyAfter, .inl ⟨isCloses, closed⟩⟩
  | stays notCloses _ stays readyAfter =>
      cases final
      exact ⟨readyAfter, .inr ⟨notCloses, stays⟩⟩
  | throws notCloses _ stays readyAfter =>
      cases final
      exact ⟨readyAfter, .inr ⟨notCloses, stays⟩⟩
  | blocks => exact final.elim

end Connection

end PPServer.Net
