import PPServer.Net.SelfLocking

/-!
# What the operations of a connection come to

Each operation on a connection whose mutex is free, taken to its end: the connection it
leaves behind, and whether it returns, throws or blocks.  The operations of the handler are
described case by case in terms of those of the connection.
-/

namespace PPServer.Net.Connection

open Locking

variable {conn : Connection} {now : Nat} {epoll : EpollMod} {data : Bytes}

/-! ## The connections that operations leave behind -/

/-- What `Close` does to an open connection. -/
def closed (conn : Connection) : Connection :=
  { conn with
    state := .disconnected
    socketFd := if 0 ≤ conn.socketFd then -1 else conn.socketFd
    readBuffer := []
    writeBuffer := []
    effects := conn.effects ++ .removeFd conn.socketFd ::
      ((if 0 ≤ conn.socketFd then [.closeSocket conn.socketFd] else []) ++
        if conn.hasHandler then [.onDisconnection] else []) }

/-- What `NotifyError` does. -/
def notified (conn : Connection) (message : Bytes) : Connection :=
  { conn with
    effects := conn.effects ++ .error conn.socketFd message ::
      if conn.hasErrorCallback then [.errorCallback message] else [] }

/-- What `ReadData` does with data that fit. -/
def received (conn : Connection) (data : Bytes) (now : Nat) : Connection :=
  { conn with
    lastActivityTime := now
    readBuffer := conn.readBuffer ++ data
    state := .reading }

/-- What `WriteData` does before it updates the event loop. -/
def queued (conn : Connection) (data : Bytes) : Connection :=
  { conn with writeBuffer := conn.writeBuffer ++ data }

/-- What `WriteData` does if this succeeds. -/
def wrote (conn : Connection) (data : Bytes) : Connection :=
  { conn with
    writeBuffer := conn.writeBuffer ++ data
    effects := conn.effects ++ [.updateFd conn.socketFd true true]
    state := .writing }

@[simp] theorem record_bind_apply (effect : Effect) {α : Type} (next : PUnit → Op α)
    (conn : Connection) :
    (record effect >>= next) conn =
      next ⟨⟩ { conn with effects := conn.effects ++ [effect] } := rfl

@[simp] theorem setState_bind_apply (state : ConnectionState) {α : Type} (next : PUnit → Op α)
    (conn : Connection) : (setState state >>= next) conn = next ⟨⟩ { conn with state } := rfl

@[simp] theorem setState_apply (state : ConnectionState) (conn : Connection) :
    setState state conn = .returned ⟨⟩ { conn with state } := rfl

@[simp] theorem record_apply (effect : Effect) (conn : Connection) :
    record effect conn = .returned ⟨⟩ { conn with effects := conn.effects ++ [effect] } := rfl

@[simp] theorem throwing_bind_apply (error : Exception) {α β : Type} (next : α → Op β)
    (conn : Connection) : ((Call.throwing error : Op α) >>= next) conn = .threw error conn := rfl

theorem discard_of_returned {α : Type} {call : Op α} {value : α} {after : Connection}
    (returns : call conn = .returned value after) : discard call conn = .returned ⟨⟩ after :=
  Call.bind_of_returned returns _

theorem final_discard_iff {α : Type} {call : Op α} {after : Connection} :
    (discard call conn).Final after ↔ (call conn).Final after := by
  rw [discard, Call.bind_apply]
  cases call conn <;> rfl

theorem cleanupResources_of_free (free : conn.bufferMutexHeld = false) :
    cleanupResources conn = .returned ⟨⟩ { conn with readBuffer := [], writeBuffer := [] } := by
  rw [cleanupResources, lockGuard_of_free free]
  simp [Outcome.release, bufferMutex, free]

theorem close_of_open (opened : conn.IsOpen) (free : conn.bufferMutexHeld = false) :
    close conn = .returned ⟨⟩ conn.closed := by
  have last (conn : Connection) (free : conn.bufferMutexHeld = false) :
      (do cleanupResources; setState .disconnected : Op PUnit) conn =
        .returned ⟨⟩
          { conn with readBuffer := [], writeBuffer := [], state := .disconnected } := by
    rw [Call.bind_of_returned (cleanupResources_of_free free), setState_apply]
  cases handler : conn.hasHandler <;> by_cases valid : 0 ≤ conn.socketFd <;>
    simp [close, closed, opened.1, opened.2, handler, valid, last, free]

theorem close_of_closed (closed : ¬conn.IsOpen) : close conn = .returned ⟨⟩ conn := by
  have gone : conn.state = .disconnected ∨ conn.state = .closing := by
    rwa [IsOpen, not_and_or, not_not, not_not] at closed
  simp [close, gone]

theorem notifyError_returns (message : Bytes) (conn : Connection) :
    notifyError message conn = .returned ⟨⟩ (conn.notified message) :=
  notifyError_apply message conn

/-! ## `ReadData` -/

/-- `ReadData` goes on to read. -/
def Reads (conn : Connection) : Prop := conn.state = .connected ∨ conn.state = .reading

instance (conn : Connection) : Decidable conn.Reads := inferInstanceAs (Decidable (_ ∨ _))

theorem Reads.isOpen (reads : conn.Reads) : conn.IsOpen := by
  rcases reads with state | state <;> simp [IsOpen, state]

theorem Reads.goesOn (reads : conn.Reads) :
    ¬(conn.state ≠ .connected ∧ conn.state ≠ .reading) := by
  rwa [Reads, or_iff_not_and_not] at reads

theorem readData_of_not_reads (notReads : ¬conn.Reads) (read : SocketRead) (now : Nat) :
    readData read now conn = .returned (-1) conn := by
  have skipped : conn.state ≠ .connected ∧ conn.state ≠ .reading := not_or.mp notReads
  simp [readData, skipped]

theorem readData_received (reads : conn.Reads) (free : conn.bufferMutexHeld = false)
    (nonempty : data ≠ []) (fits : data.length ≤ 4096)
    (room : conn.readBuffer.length + data.length ≤ conn.maxBufferSize) :
    readData (.received data nonempty fits) now conn =
      .returned data.length (conn.received data now) := by
  have free' : bufferMutex.held { conn with lastActivityTime := now } = false := free
  have noOverflow : ¬conn.maxBufferSize < conn.readBuffer.length + data.length := by omega
  simp only [readData, Call.get_bind_apply, if_neg reads.goesOn, updateActivityTime,
    Call.modify_bind_apply]
  rw [lockGuard_of_free free']
  simp [-bind_pure_comp, Outcome.release, bufferMutex, received, noOverflow, free]

theorem readData_endOfFile (reads : conn.Reads) (free : conn.bufferMutexHeld = false) :
    readData .endOfFile now conn = .returned 0 conn.closed := by
  simp only [readData, Call.get_bind_apply, if_neg reads.goesOn]
  rw [Call.bind_of_returned (close_of_open reads.isOpen free)]
  rfl

theorem readData_wouldBlock (reads : conn.Reads) (text : Bytes) :
    readData (.failed true text) now conn = .returned (-1) conn := by
  simp only [readData, Call.get_bind_apply, if_neg reads.goesOn]
  rfl

theorem readData_failed (reads : conn.Reads) (free : conn.bufferMutexHeld = false)
    (text : Bytes) :
    readData (.failed false text) now conn =
      .returned (-1) (conn.notified (bytes "Read error: " ++ text)).closed := by
  have opened : (conn.notified (bytes "Read error: " ++ text)).IsOpen := reads.isOpen
  simp only [readData, Call.get_bind_apply, if_neg reads.goesOn]
  rw [Bool.not_false, if_pos rfl, Call.bind_of_returned (notifyError_returns _ _),
    Call.bind_of_returned (close_of_open opened free)]
  rfl

/-! ## `WriteData` -/

theorem writeData_done (free : conn.bufferMutexHeld = false) (nonempty : data ≠ [])
    (room : conn.writeBuffer.length + data.length ≤ conn.maxBufferSize) :
    writeData data .done conn =
      .returned data.length (conn.wrote data) := by
  have noOverflow : ¬conn.maxBufferSize < conn.writeBuffer.length + data.length := by omega
  rw [writeData, lockGuard_of_free free]
  simp [-bind_pure_comp, Outcome.release, bufferMutex, wrote, updateFd, noOverflow,
    nonempty, free]

theorem writeData_failed (free : conn.bufferMutexHeld = false) (nonempty : data ≠ [])
    (room : conn.writeBuffer.length + data.length ≤ conn.maxBufferSize) (text : Bytes) :
    writeData data (.failed text) conn =
      .threw (.runtimeError (bytes "Failed to update fd in epoll: " ++ text))
        (conn.queued data) := by
  have noOverflow : ¬conn.maxBufferSize < conn.writeBuffer.length + data.length := by omega
  rw [writeData, lockGuard_of_free free]
  have throws (socketFd : Int) (next : PUnit → Op Int) (conn : Connection) :
      (updateFd socketFd true true (.failed text) >>= next) conn =
        .threw (.runtimeError (bytes "Failed to update fd in epoll: " ++ text)) conn := rfl
  simp [-bind_pure_comp, Outcome.release, bufferMutex, queued, throws, noOverflow, nonempty,
    free]

/-- How `WriteData` ends. -/
inductive AppendOutcome (conn : Connection) (data : Bytes) :
    EpollMod → Outcome Exception Connection Int → Prop where
  | nothing {epoll : EpollMod} : data = [] → conn.writeBuffer = [] →
      AppendOutcome conn data epoll (.returned 0 conn)
  | wrote : conn.writeBuffer ++ data ≠ [] →
      AppendOutcome conn data .done (.returned data.length (conn.wrote data))
  | unwatched {text : Bytes} : conn.writeBuffer ++ data ≠ [] →
      AppendOutcome conn data (.failed text)
        (.threw (.runtimeError (bytes "Failed to update fd in epoll: " ++ text))
          (conn.queued data))
  | overflow {epoll : EpollMod} {after : Connection} : conn.IsOpen →
      AppendOutcome conn data epoll (.deadlocked after)
  | overflowLate {epoll : EpollMod} : ¬conn.IsOpen →
      AppendOutcome conn data epoll
        (.returned (-1) ((conn.queued data).notified (bytes "Write buffer overflow")))

theorem writeData_outcome (free : conn.bufferMutexHeld = false) (data : Bytes)
    (epoll : EpollMod) : AppendOutcome conn data epoll (writeData data epoll conn) := by
  by_cases room : conn.writeBuffer.length + data.length ≤ conn.maxBufferSize
  case neg =>
    by_cases opened : conn.IsOpen
    case pos =>
      rcases (deadlocks_writeData_iff free data epoll).mpr ⟨opened, Nat.lt_of_not_le room⟩ with
        ⟨after, blocks⟩
      exact blocks ▸ .overflow opened
    case neg =>
      let told := (bufferMutex.setHeld true (conn.queued data)).notified
        (bytes "Write buffer overflow")
      have runs : (do notifyError (bytes "Write buffer overflow"); close; return (-1) : Op Int)
          (bufferMutex.setHeld true (conn.queued data)) = .returned (-1) told := by
        rw [Call.bind_of_returned (notifyError_returns _ _),
          Call.bind_of_returned (close_of_closed (show ¬told.IsOpen from opened))]
        rfl
      have overflow : conn.maxBufferSize < (conn.writeBuffer ++ data).length := by
        simpa using room
      have kept : bufferMutex.setHeld false told =
          (conn.queued data).notified (bytes "Write buffer overflow") := by
        simp [told, bufferMutex, queued, notified, free]
      rw [writeData, lockGuard_of_free free]
      change AppendOutcome conn data epoll (Outcome.release bufferMutex
        ((if conn.maxBufferSize < (conn.writeBuffer ++ data).length then _ else _ : Op Int)
          (bufferMutex.setHeld true (conn.queued data))))
      rw [if_pos overflow, runs, Outcome.release, kept]
      exact .overflowLate opened
  case pos =>
    have noOverflow : ¬conn.maxBufferSize < conn.writeBuffer.length + data.length := by omega
    rw [writeData, lockGuard_of_free free]
    by_cases empty : conn.writeBuffer ++ data = []
    case pos =>
      rcases List.append_eq_nil_iff.mp empty with ⟨before, nothing⟩
      have ends : AppendOutcome conn data epoll (.returned 0 conn) := .nothing nothing before
      have same : { conn with writeBuffer := [] } = conn := by rw [← before]
      simpa [-bind_pure_comp, Outcome.release, bufferMutex, ← free, before, nothing, same]
        using ends
    case neg =>
      cases epoll with
      | done =>
          have ends : AppendOutcome conn data .done (.returned data.length (conn.wrote data)) :=
            .wrote empty
          simpa [-bind_pure_comp, -List.append_eq_nil_iff, Outcome.release, bufferMutex, wrote,
            updateFd, noOverflow, empty, free] using ends
      | failed text =>
          have ends : AppendOutcome conn data (.failed text) _ := .unwatched empty
          simpa [-bind_pure_comp, -List.append_eq_nil_iff, Outcome.release, bufferMutex, queued,
            updateFd, noOverflow, empty, free] using ends

/-! ## The buffers -/

theorem getReadBuffer_returns (free : conn.bufferMutexHeld = false) :
    getReadBuffer conn = .returned conn.readBuffer conn := by
  rw [getReadBuffer, lockGuard_of_free free]
  simp [Outcome.release, bufferMutex, ← free]

theorem clearReadBuffer_returns (free : conn.bufferMutexHeld = false) :
    clearReadBuffer conn = .returned ⟨⟩ { conn with readBuffer := [] } := by
  rw [clearReadBuffer, lockGuard_of_free free]
  simp [Outcome.release, bufferMutex, free]

/-! ## A readable event -/

/-- The data complete a request. -/
def Completes (conn : Connection) (data : Bytes) : Prop :=
  bytes "\r\n\r\n" <:+: conn.readBuffer ++ data

instance (conn : Connection) (data : Bytes) : Decidable (conn.Completes data) :=
  inferInstanceAs (Decidable (_ <:+: _))

/-- The read buffer has room for the data. -/
def TakesIn (conn : Connection) (data : Bytes) : Prop :=
  conn.readBuffer.length + data.length ≤ conn.maxBufferSize

/-- The write buffer has room for the response. -/
def TakesResponse (conn : Connection) : Prop :=
  conn.writeBuffer.length + Handler.response.length ≤ conn.maxBufferSize

instance (conn : Connection) (data : Bytes) : Decidable (conn.TakesIn data) :=
  inferInstanceAs (Decidable (_ ≤ _))

instance (conn : Connection) : Decidable conn.TakesResponse := inferInstanceAs (Decidable (_ ≤ _))

/-- What `HandleRead` does with data that complete a request. -/
def answered (conn : Connection) (data : Bytes) (now : Nat) : Connection :=
  { (conn.received data now).wrote Handler.response with readBuffer := [] }

/-- How `HandleRead` ends. -/
inductive ReadOutcome (conn : Connection) (now : Nat) :
    SocketRead → EpollMod → Outcome Exception Connection PUnit → Prop where
  | ignored {read : SocketRead} {epoll : EpollMod} : ¬conn.IsOpen →
      ReadOutcome conn now read epoll (.returned ⟨⟩ conn)
  | refused {read : SocketRead} {epoll : EpollMod} : conn.IsOpen → ¬conn.Reads →
      ReadOutcome conn now read epoll (.returned ⟨⟩ conn.closed)
  | endOfFile {epoll : EpollMod} : conn.Reads →
      ReadOutcome conn now .endOfFile epoll (.returned ⟨⟩ conn.closed)
  | wouldBlock {text : Bytes} {epoll : EpollMod} : conn.Reads →
      ReadOutcome conn now (.failed true text) epoll (.returned ⟨⟩ conn.closed)
  | failed {text : Bytes} {epoll : EpollMod} : conn.Reads →
      ReadOutcome conn now (.failed false text) epoll
        (.returned ⟨⟩ (conn.notified (bytes "Read error: " ++ text)).closed)
  | overflow {data : Bytes} {nonempty : data ≠ []} {fits : data.length ≤ 4096}
      {epoll : EpollMod} {after : Connection} : conn.Reads → ¬conn.TakesIn data →
      ReadOutcome conn now (.received data nonempty fits) epoll (.deadlocked after)
  | incomplete {data : Bytes} {nonempty : data ≠ []} {fits : data.length ≤ 4096}
      {epoll : EpollMod} : conn.Reads → conn.TakesIn data → ¬conn.Completes data →
      ReadOutcome conn now (.received data nonempty fits) epoll
        (.returned ⟨⟩ (conn.received data now))
  | answered {data : Bytes} {nonempty : data ≠ []} {fits : data.length ≤ 4096} :
      conn.Reads → conn.TakesIn data → conn.Completes data → conn.TakesResponse →
      ReadOutcome conn now (.received data nonempty fits) .done
        (.returned ⟨⟩ (conn.answered data now))
  | unwatched {data : Bytes} {nonempty : data ≠ []} {fits : data.length ≤ 4096}
      {text : Bytes} :
      conn.Reads → conn.TakesIn data → conn.Completes data → conn.TakesResponse →
      ReadOutcome conn now (.received data nonempty fits) (.failed text)
        (.threw (.runtimeError (bytes "Failed to update fd in epoll: " ++ text))
          ((conn.received data now).queued Handler.response))
  | noRoom {data : Bytes} {nonempty : data ≠ []} {fits : data.length ≤ 4096}
      {epoll : EpollMod} {after : Connection} :
      conn.Reads → conn.TakesIn data → conn.Completes data → ¬conn.TakesResponse →
      ReadOutcome conn now (.received data nonempty fits) epoll (.deadlocked after)

theorem response_ne_nil : Handler.response ≠ [] :=
  List.append_ne_nil_of_right_ne_nil _ (by decide)

theorem not_isOpen_closed (conn : Connection) : ¬conn.closed.IsOpen := fun opened => opened.1 rfl

/-- After a failed read the handler closes the connection. -/
theorem handleRead_of_failure {read : SocketRead} {after : Connection} {count : Int}
    (returns : readData read now conn = .returned count after) (notPositive : count ≤ 0) :
    Handler.handleRead read now epoll conn = close after := by
  rw [Handler.handleRead, Call.bind_of_returned returns]
  by_cases negative : count < 0
  · rw [if_pos negative]
    exact congrFun (bind_pure close) after
  · have zero : count = 0 := by omega
    rw [if_neg negative, if_pos zero]
    exact congrFun (bind_pure close) after

/-- After data the handler looks for the end of a request. -/
theorem handleRead_of_data {read : SocketRead} {after : Connection} {count : Int}
    (returns : readData read now conn = .returned count after) (positive : 0 < count)
    (free : after.bufferMutexHeld = false) :
    Handler.handleRead read now epoll conn =
      (if bytes "\r\n\r\n" <:+: after.readBuffer then do
        let _ ← writeData Handler.response epoll
        clearReadBuffer
      else pure ⟨⟩ : Op PUnit) after := by
  rw [Handler.handleRead, Call.bind_of_returned returns, if_neg (by omega), if_neg (by omega),
    Call.bind_of_returned (getReadBuffer_returns free)]

theorem writeResponse_outcome (free : conn.bufferMutexHeld = false) {nonempty : data ≠ []}
    {fits : data.length ≤ 4096} (reads : conn.Reads) (takesIn : conn.TakesIn data)
    (completes : conn.Completes data) :
    ReadOutcome conn now (.received data nonempty fits) epoll
      ((do
        let _ ← writeData Handler.response epoll
        clearReadBuffer : Op PUnit) (conn.received data now)) := by
  have freeAfter : (conn.received data now).bufferMutexHeld = false := free
  by_cases takesResponse : conn.TakesResponse
  case neg =>
    have opened : (conn.received data now).IsOpen := by simp [IsOpen, received]
    have blocks : Deadlocks (writeData Handler.response epoll) (conn.received data now) :=
      (deadlocks_writeData_iff freeAfter _ _).mpr ⟨opened, Nat.lt_of_not_le takesResponse⟩
    rcases blocks with ⟨after, blocks⟩
    rw [Call.bind_of_deadlocked blocks]
    exact .noRoom reads takesIn completes takesResponse
  case pos =>
    cases epoll with
    | done =>
        rw [Call.bind_of_returned (writeData_done freeAfter response_ne_nil takesResponse),
          clearReadBuffer_returns (show ((conn.received data now).wrote _).bufferMutexHeld = _
            from free)]
        exact .answered reads takesIn completes takesResponse
    | failed text =>
        rw [Call.bind_of_threw (writeData_failed freeAfter response_ne_nil takesResponse text)]
        exact .unwatched reads takesIn completes takesResponse

theorem handleRead_outcome (free : conn.bufferMutexHeld = false) (read : SocketRead) (now : Nat)
    (epoll : EpollMod) :
    ReadOutcome conn now read epoll (Handler.handleRead read now epoll conn) := by
  by_cases reads : conn.Reads
  case neg =>
    rw [handleRead_of_failure (readData_of_not_reads reads read now) (by decide)]
    by_cases opened : conn.IsOpen
    · rw [close_of_open opened free]
      exact .refused opened reads
    · rw [close_of_closed opened]
      exact .ignored opened
  case pos =>
    cases read with
    | endOfFile =>
        rw [handleRead_of_failure (readData_endOfFile reads free) (by decide),
          close_of_closed (not_isOpen_closed conn)]
        exact .endOfFile reads
    | failed wouldBlock text =>
        cases wouldBlock with
        | true =>
            rw [handleRead_of_failure (readData_wouldBlock reads text) (by decide),
              close_of_open reads.isOpen free]
            exact .wouldBlock reads
        | false =>
            rw [handleRead_of_failure (readData_failed reads free text) (by decide),
              close_of_closed (not_isOpen_closed _)]
            exact .failed reads
    | received data nonempty fits =>
        by_cases takesIn : conn.TakesIn data
        case neg =>
          have blocks : Deadlocks (readData (.received data nonempty fits) now) conn :=
            (deadlocks_readData_iff free _ _).mpr
              ⟨reads, data, nonempty, fits, rfl, Nat.lt_of_not_le takesIn⟩
          rcases blocks with ⟨after, blocks⟩
          rw [Handler.handleRead, Call.bind_of_deadlocked blocks]
          exact .overflow reads takesIn
        case pos =>
          have positive : (0 : Int) < data.length := by
            have := List.length_pos_iff.mpr nonempty
            omega
          have freeAfter : (conn.received data now).bufferMutexHeld = false := free
          rw [handleRead_of_data (readData_received reads free nonempty fits takesIn) positive
            freeAfter]
          by_cases completes : conn.Completes data
          case neg =>
            rw [if_neg (show ¬bytes "\r\n\r\n" <:+: (conn.received data now).readBuffer from
              completes)]
            exact .incomplete reads takesIn completes
          case pos =>
            rw [if_pos (show bytes "\r\n\r\n" <:+: (conn.received data now).readBuffer from
              completes)]
            exact writeResponse_outcome free reads takesIn completes

theorem handleReadable_of_handler (handler : conn.hasHandler = true) (read : SocketRead)
    (now : Nat) (epoll : EpollMod) :
    handleReadable read now epoll conn = Handler.handleRead read now epoll conn := by
  rw [handleReadable, Call.get_bind_apply, if_pos handler]

theorem handleReadable_outcome (handler : conn.hasHandler = true)
    (free : conn.bufferMutexHeld = false) (read : SocketRead) (now : Nat) (epoll : EpollMod) :
    ReadOutcome conn now read epoll (handleReadable read now epoll conn) := by
  rw [handleReadable_of_handler handler]
  exact handleRead_outcome free read now epoll

/-- A request that is complete and can be answered is answered. -/
theorem handleReadable_answers (handler : conn.hasHandler = true)
    (free : conn.bufferMutexHeld = false) (nonempty : data ≠ []) (fits : data.length ≤ 4096)
    (reads : conn.Reads) (takesIn : conn.TakesIn data) (completes : conn.Completes data)
    (takesResponse : conn.TakesResponse) :
    handleReadable (.received data nonempty fits) now .done conn =
      .returned ⟨⟩ (conn.answered data now) := by
  have ends := handleReadable_outcome handler free (.received data nonempty fits) now .done
  generalize handleReadable (.received data nonempty fits) now .done conn = outcome at ends
  cases ends with
  | ignored notOpen => exact absurd reads.isOpen notOpen
  | refused _ notReads => exact absurd reads notReads
  | overflow _ notTaken => exact absurd takesIn notTaken
  | incomplete _ _ notComplete => exact absurd completes notComplete
  | answered _ _ _ _ => rfl
  | noRoom _ _ _ notTaken => exact absurd takesResponse notTaken

/-! ## A writable event -/

/-- What `DefaultHandleWrite` does with bytes that the socket has taken. -/
def sent (conn : Connection) (count : Nat) : Connection :=
  { conn with
    effects := conn.effects ++ [.sent (conn.writeBuffer.take count)]
    writeBuffer := conn.writeBuffer.drop count }

/-- What `DefaultHandleWrite` does if these were the last. -/
def drained (conn : Connection) (count : Nat) : Connection :=
  { conn.sent count with
    effects := conn.effects ++ .sent (conn.writeBuffer.take count) ::
      .updateFd conn.socketFd true false ::
        if conn.hasWriteCallback then [.writeCallback] else []
    state := .connected }

/-- How `DefaultHandleWrite` ends. -/
inductive WriteOutcome (conn : Connection) :
    SocketWrite → EpollMod → Outcome Exception Connection PUnit → Prop where
  | nothing {write : SocketWrite} {epoll : EpollMod} : conn.writeBuffer = [] →
      WriteOutcome conn write epoll (.returned ⟨⟩ conn)
  | none {epoll : EpollMod} : conn.writeBuffer ≠ [] →
      WriteOutcome conn (.accepted 0) epoll (.returned ⟨⟩ conn)
  | part {count : Nat} {epoll : EpollMod} : 0 < count → count < conn.writeBuffer.length →
      WriteOutcome conn (.accepted count) epoll (.returned ⟨⟩ (conn.sent count))
  | all {count : Nat} : conn.writeBuffer ≠ [] → conn.writeBuffer.length ≤ count →
      WriteOutcome conn (.accepted count) .done (.returned ⟨⟩ (conn.drained count))
  | unwatched {count : Nat} {text : Bytes} : conn.writeBuffer ≠ [] →
      conn.writeBuffer.length ≤ count →
      WriteOutcome conn (.accepted count) (.failed text)
        (.threw (.runtimeError (bytes "Failed to update fd in epoll: " ++ text))
          (conn.sent count))
  | wouldBlock {text : Bytes} {epoll : EpollMod} : conn.writeBuffer ≠ [] →
      WriteOutcome conn (.failed true text) epoll (.returned ⟨⟩ conn)
  | failed {text : Bytes} {epoll : EpollMod} {after : Connection} : conn.writeBuffer ≠ [] →
      conn.IsOpen → WriteOutcome conn (.failed false text) epoll (.deadlocked after)
  | failedLate {text : Bytes} {epoll : EpollMod} : conn.writeBuffer ≠ [] → ¬conn.IsOpen →
      WriteOutcome conn (.failed false text) epoll
        (.returned ⟨⟩ (conn.notified (bytes "Write error: " ++ text)))

theorem defaultHandleWrite_accepted (free : conn.bufferMutexHeld = false)
    (unwritten : conn.writeBuffer ≠ []) (count : Nat) :
    WriteOutcome conn (.accepted count) epoll
      (defaultHandleWrite (.accepted count) epoll conn) := by
  rw [defaultHandleWrite, lockGuard_of_free free]
  by_cases positive : 0 < count
  case neg =>
    obtain rfl : count = 0 := by omega
    have ends : WriteOutcome conn (.accepted 0) epoll (.returned ⟨⟩ conn) := .none unwritten
    simpa [-bind_pure_comp, Outcome.release, bufferMutex, ← free, unwritten] using ends
  case pos =>
    by_cases last : conn.writeBuffer.length ≤ count
    case neg =>
      have rest : conn.writeBuffer.drop count ≠ [] := by
        rwa [ne_eq, List.drop_eq_nil_iff]
      have ends : WriteOutcome conn (.accepted count) epoll (.returned ⟨⟩ (conn.sent count)) :=
        .part positive (Nat.lt_of_not_le last)
      simpa [-bind_pure_comp, Outcome.release, bufferMutex, sent, free, unwritten, positive,
        last] using ends
    case pos =>
      have rest : conn.writeBuffer.drop count = [] := List.drop_eq_nil_iff.mpr last
      cases epoll with
      | done =>
          have ends : WriteOutcome conn (.accepted count) .done
              (.returned ⟨⟩ (conn.drained count)) := .all unwritten last
          cases callback : conn.hasWriteCallback <;>
            simpa [-bind_pure_comp, Outcome.release, bufferMutex, sent, drained, updateFd, free,
              unwritten, positive, last, rest, callback] using ends
      | failed text =>
          have ends : WriteOutcome conn (.accepted count) (.failed text) _ :=
            .unwatched unwritten last
          simpa [-bind_pure_comp, Outcome.release, bufferMutex, sent, updateFd, free,
            unwritten, positive, last, rest] using ends

theorem defaultHandleWrite_outcome (free : conn.bufferMutexHeld = false) (write : SocketWrite)
    (epoll : EpollMod) :
    WriteOutcome conn write epoll (defaultHandleWrite write epoll conn) := by
  have same : { conn with bufferMutexHeld := false } = conn := by rw [← free]
  by_cases unwritten : conn.writeBuffer = []
  case pos =>
    have skips : ¬(bufferMutex.setHeld true conn).writeBuffer ≠ [] := not_not.mpr unwritten
    rw [defaultHandleWrite, lockGuard_of_free free, Call.get_bind_apply, if_neg skips,
      Call.pure_apply, Outcome.release]
    exact same.symm ▸ .nothing unwritten
  case neg =>
    have skips : (bufferMutex.setHeld true conn).writeBuffer ≠ [] := unwritten
    cases write with
    | accepted count => exact defaultHandleWrite_accepted free unwritten count
    | failed wouldBlock text =>
        rw [defaultHandleWrite, lockGuard_of_free free, Call.get_bind_apply, if_pos skips]
        cases wouldBlock with
        | true => exact same.symm ▸ .wouldBlock unwritten
        | false =>
            let told := (bufferMutex.setHeld true conn).notified (bytes "Write error: " ++ text)
            have tells : notifyError (bytes "Write error: " ++ text)
                (bufferMutex.setHeld true conn) = .returned ⟨⟩ told := notifyError_returns _ _
            change WriteOutcome conn _ _ (Outcome.release bufferMutex
              ((notifyError (bytes "Write error: " ++ text) >>= fun _ => close)
                (bufferMutex.setHeld true conn)))
            rw [Call.bind_of_returned tells]
            by_cases opened : conn.IsOpen
            · have blocks : Deadlocks close told := deadlocks_close_iff.mpr ⟨opened, rfl⟩
              rcases blocks with ⟨after, blocks⟩
              rw [blocks]
              exact .failed unwritten opened
            · rw [close_of_closed (show ¬told.IsOpen from opened)]
              have kept : bufferMutex.setHeld false told =
                  conn.notified (bytes "Write error: " ++ text) :=
                congrArg (notified · (bytes "Write error: " ++ text)) same
              rw [Outcome.release, kept]
              exact .failedLate unwritten opened

end PPServer.Net.Connection
