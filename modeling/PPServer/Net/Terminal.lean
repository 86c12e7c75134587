import PPServer.Library.Transition
import PPServer.Net.Outcomes

/-!
# After `Close`

Most operations do nothing to a connection that has been closed: they test its state, or find its
buffers empty.  `Start` tests nothing, and neither does `WriteData`, whose test of the state is
commented out.
-/

namespace PPServer.Net.Connection

open Locking Transition

variable {conn closed next last : Connection} {operations : List Operation}

/-- What `Close` leaves behind. -/
structure Terminated (conn : Connection) : Prop where
  state : conn.state = .disconnected
  socketFd : conn.socketFd = -1
  readBuffer : conn.readBuffer = []
  writeBuffer : conn.writeBuffer = []

/-- The operation does not test whether the connection has been closed, and changes it. -/
def Operation.Reopens : Operation → Prop
  | .start _ => True
  | .writeData data _ => data ≠ []
  | _ => False

theorem Terminated.not_isOpen (terminated : conn.Terminated) : ¬conn.IsOpen := fun opened =>
  opened.1 terminated.state

theorem Terminated.not_reads (terminated : conn.Terminated) : ¬conn.Reads := by
  rw [Reads, terminated.state]
  simp

theorem Terminated.notified (terminated : conn.Terminated) (message : Bytes) :
    (conn.notified message).Terminated :=
  ⟨terminated.state, terminated.socketFd, terminated.readBuffer, terminated.writeBuffer⟩

/-- The descriptor is valid or has been given up. -/
def Valid (conn : Connection) : Prop := -1 ≤ conn.socketFd

theorem robust_valid : Robust Valid where
  congr socketFd _ valid := le_of_le_of_eq valid socketFd.symm
  closed _ := Int.le_refl (-1)
  lockGuard keeps := keeps.lockGuard fun _ _ valid => valid

/-- `Close` on an open connection comes to an end and leaves it terminated. -/
theorem close_terminates (reachable : Reachable conn) (opened : conn.IsOpen) :
    close conn = .returned ⟨⟩ conn.closed ∧ conn.closed.Terminated := by
  have valid : conn.Valid :=
    robust_valid.of_reachable (fun _ _ nonneg => Int.le_trans (by decide) nonneg) reachable
  refine ⟨close_of_open opened reachable.unlocked, rfl, ?_, rfl, rfl⟩
  simp only [Connection.closed]
  split
  next => rfl
  next negative => exact Int.le_antisymm (Int.lt_add_one_iff.mp (Int.not_le.mp negative)) valid

/-! ## The operations -/

theorem getReadBufferSize_returns (free : conn.bufferMutexHeld = false) :
    getReadBufferSize conn = .returned conn.readBuffer.length conn := by
  rw [getReadBufferSize, lockGuard_of_free free]
  simp [bufferMutex, Outcome.release, ← free]

theorem getWriteBufferSize_returns (free : conn.bufferMutexHeld = false) :
    getWriteBufferSize conn = .returned conn.writeBuffer.length conn := by
  rw [getWriteBufferSize, lockGuard_of_free free]
  simp [bufferMutex, Outcome.release, ← free]

/-- `Start` makes any connection look as if it were open. -/
theorem state_start {now : Nat} (final : (start now conn).Final next) :
    next.state = .connected := by
  have returns : ∃ effects, start now conn = .returned ⟨⟩
      { conn with state := .connected, lastActivityTime := now, effects } := by
    cases handler : conn.hasHandler with
    | true => exact ⟨_, by simp [start, updateActivityTime, handler]; rfl⟩
    | false => exact ⟨_, by simp [start, updateActivityTime, handler]; rfl⟩
  rcases returns with ⟨effects, returns⟩
  rw [returns] at final
  cases final
  rfl

variable (terminated : conn.Terminated) (free : conn.Unlocked)

include terminated

theorem close_of_terminated : close conn = .returned ⟨⟩ conn :=
  close_of_closed terminated.not_isOpen

theorem readData_of_terminated (read : SocketRead) (now : Nat) :
    readData read now conn = .returned (-1) conn :=
  readData_of_not_reads terminated.not_reads read now

theorem defaultHandleRead_of_terminated (read : SocketRead) (now : Nat) :
    defaultHandleRead read now conn = .returned ⟨⟩ conn := by
  rw [defaultHandleRead, Call.bind_of_returned (readData_of_terminated terminated read now)]
  rfl

theorem handleRead_of_terminated (read : SocketRead) (now : Nat) (epoll : EpollMod) :
    Handler.handleRead read now epoll conn = .returned ⟨⟩ conn := by
  rw [Handler.handleRead, Call.bind_of_returned (readData_of_terminated terminated read now),
    if_pos (by decide), Call.bind_of_returned (close_of_terminated terminated)]
  rfl

theorem defaultHandleError_of_terminated :
    defaultHandleError conn = .returned ⟨⟩ (conn.notified (bytes "Epoll event error")) := by
  rw [defaultHandleError, Call.bind_of_returned (notifyError_returns _ _)]
  exact close_of_terminated (terminated.notified _)

include free

theorem defaultHandleWrite_of_terminated (write : SocketWrite) (epoll : EpollMod) :
    defaultHandleWrite write epoll conn = .returned ⟨⟩ conn := by
  have empty := terminated.writeBuffer
  have ends := defaultHandleWrite_outcome free write epoll
  generalize defaultHandleWrite write epoll conn = outcome at ends ⊢
  cases ends with
  | nothing => rfl
  | part positive isPart => simp [empty] at isPart
  | none unwritten | all unwritten | unwatched unwritten | wouldBlock unwritten
  | failed unwritten | failedLate unwritten => exact absurd empty unwritten

/-- `WriteData` changes a terminated connection exactly if it is given any data. -/
theorem terminated_writeData_iff {data : Bytes} {epoll : EpollMod}
    (final : (writeData data epoll conn).Final next) : next.Terminated ↔ data = [] := by
  have empty := terminated.writeBuffer
  have ends := writeData_outcome free data epoll
  generalize writeData data epoll conn = outcome at ends final
  cases ends with
  | nothing nothing =>
      cases final
      exact iff_of_true terminated nothing
  | wrote nonempty | unwatched nonempty =>
      cases final
      rw [empty] at nonempty
      refine iff_of_false (fun still => ?_) nonempty
      exact absurd still.writeBuffer (by simpa [wrote, queued, empty] using nonempty)
  | overflow opened => exact absurd opened terminated.not_isOpen
  | overflowLate =>
      cases final
      constructor
      · intro still
        have unwritten : conn.writeBuffer ++ data = [] := still.writeBuffer
        exact (List.append_eq_nil_iff.mp unwritten).2
      · intro nothing
        have queued : (conn.queued data).Terminated :=
          ⟨terminated.state, terminated.socketFd, terminated.readBuffer, by
            simp [Connection.queued, empty, nothing]⟩
        exact queued.notified _

/-- An operation leaves a terminated connection terminated exactly if it does not reopen it. -/
theorem terminated_run_iff {operation : Operation} (final : (operation.run conn).Final next) :
    next.Terminated ↔ ¬operation.Reopens := by
  have returned {after : Connection} (returns : operation.run conn = .returned ⟨⟩ after)
      (still : after.Terminated) (keeps : ¬operation.Reopens) :
      next.Terminated ↔ ¬operation.Reopens := by
    rw [returns] at final
    cases final
    exact iff_of_true still keeps
  have unchanged (returns : operation.run conn = .returned ⟨⟩ conn) (keeps : ¬operation.Reopens) :
      next.Terminated ↔ ¬operation.Reopens := returned returns terminated keeps
  have state := terminated.state
  have socketFd := terminated.socketFd
  cases operation with
  | setHandler | setReadCallback | setWriteCallback | setErrorCallback | setMaxBufferSize =>
      exact returned rfl ⟨state, socketFd, terminated.readBuffer, terminated.writeBuffer⟩ id
  | start now =>
      refine iff_of_false (fun still => ?_) (not_not.mpr trivial)
      have opened := state_start final
      rw [still.state] at opened
      cases opened
  | close => exact unchanged (close_of_terminated terminated) id
  | readData read now =>
      exact unchanged (discard_of_returned (readData_of_terminated terminated read now)) id
  | writeData data epoll =>
      rw [terminated_writeData_iff terminated free (final_discard_iff.mp final)]
      exact not_not.symm
  | getReadBuffer => exact unchanged (discard_of_returned (getReadBuffer_returns free)) id
  | clearReadBuffer =>
      exact returned (clearReadBuffer_returns free)
        ⟨state, socketFd, rfl, terminated.writeBuffer⟩ id
  | getReadBufferSize => exact unchanged (discard_of_returned (getReadBufferSize_returns free)) id
  | getWriteBufferSize =>
      exact unchanged (discard_of_returned (getWriteBufferSize_returns free)) id
  | defaultHandleRead read now =>
      exact unchanged (defaultHandleRead_of_terminated terminated read now) id
  | defaultHandleWrite write epoll =>
      exact unchanged (defaultHandleWrite_of_terminated terminated free write epoll) id
  | defaultHandleError =>
      exact returned (defaultHandleError_of_terminated terminated) (terminated.notified _) id
  | handleReadable read now epoll =>
      have returns : handleReadable read now epoll conn = .returned ⟨⟩ conn := by
        rw [handleReadable, Call.get_bind_apply]
        split
        · exact handleRead_of_terminated terminated read now epoll
        · exact defaultHandleRead_of_terminated terminated read now
      exact unchanged returns id
  | handleWritable write epoll =>
      have returns : handleWritable write epoll conn = .returned ⟨⟩ conn := by
        rw [handleWritable, Call.get_bind_apply]
        split
        · exact defaultHandleWrite_of_terminated terminated free write epoll
        · exact defaultHandleWrite_of_terminated terminated free write epoll
      exact unchanged returns id
  | handleError =>
      have returns : handleError conn =
          .returned ⟨⟩ (conn.notified (bytes "Epoll event error")) := by
        rw [handleError, Call.get_bind_apply]
        split
        · exact defaultHandleError_of_terminated terminated
        · exact defaultHandleError_of_terminated terminated
      exact returned returns (terminated.notified _) id

omit terminated free

/-! ## Runs -/

/-- One operation, `none` if it does not come to an end. -/
def operationStep (conn : Connection) (operation : Operation) : Option Connection :=
  (operation.run conn).ending

/-- **Closed is final** exactly as long as neither `Start` nor `WriteData` with any data is called.
After `Close`, and whatever `epoll_ctl` answers, the connection stays terminated in every state of
a run exactly if the run consists of other operations. -/
theorem closed_is_final_iff (reachable : Reachable conn) (opened : conn.IsOpen)
    (closes : close conn = .returned ⟨⟩ closed)
    (ran : run operationStep closed operations = some last) :
    (∀ visited, Visits operationStep closed operations visited → visited.Terminated) ↔
      ∀ operation ∈ operations, ¬operation.Reopens := by
  have terminated : closed.Terminated := by
    rcases close_terminates reachable opened with ⟨returns, terminated⟩
    cases closes.symm.trans returns
    exact terminated
  have free : closed.Unlocked :=
    robust_unlocked.keeps_close conn closed reachable.unlocked (by rw [closes]; rfl)
  have unlocked : ∀ visited, Visits operationStep closed operations visited → visited.Unlocked :=
    forall_visits_of_takes free
      (fun current operation next taken holds (_ : True) =>
        robust_unlocked.keeps_run operation current next holds
          (Outcome.ending_eq_some_iff.mp taken))
      fun _ _ _ _ => trivial
  have both : (∀ visited, Visits operationStep closed operations visited →
      visited.Terminated ∧ visited.Unlocked) ↔ ∀ current operation next,
        Takes operationStep closed operations current operation next → ¬operation.Reopens := by
    apply forall_visits_iff ⟨terminated, free⟩
    intro current operation next taken holds
    have final := Outcome.ending_eq_some_iff.mp taken
    have free := robust_unlocked.keeps_run operation current next holds.2 final
    exact (and_iff_left free).trans (terminated_run_iff holds.1 holds.2 final)
  constructor
  · intro still operation member
    rcases exists_takes_of_mem ran member with ⟨current, next, takes⟩
    exact both.mp (fun visited visits => ⟨still visited visits, unlocked visited visits⟩)
      current operation next takes
  · intro keeps visited visits
    exact (both.mpr (fun _ operation _ takes => keeps operation takes.mem) visited visits).1

/-- Every event reaches the connection, and nothing is written. -/
def lateEvents : List Operation :=
  [.handleReadable .endOfFile 1 .done, .handleWritable (.accepted 1) .done, .handleError,
    .writeData [] (.failed (bytes "Bad file descriptor"))]

theorem closed_is_final_iff_lateEvents :
    (∀ visited, Visits operationStep (new 5 0).closed lateEvents visited →
      visited.Terminated) ↔ ∀ operation ∈ lateEvents, ¬operation.Reopens := by
  have closes : Connection.close (new 5 0) = .returned ⟨⟩ (new 5 0).closed := rfl
  have ran : run operationStep (new 5 0).closed lateEvents = some _ := rfl
  exact closed_is_final_iff (.new 5 0 (by decide)) (by decide) closes ran

/-- A closed connection that is started again is in the state CONNECTED, and what is written to one
stays in its buffer when `epoll_ctl` fails. -/
theorem not_final_of_start_or_write :
    Connection.close (new 5 0) = .returned ⟨⟩ (new 5 0).closed ∧
    (¬∀ visited, Visits operationStep (new 5 0).closed [.start 1] visited →
      visited.Terminated) ∧
    ¬∀ visited, Visits operationStep (new 5 0).closed
      [.writeData (bytes "a") (.failed (bytes "Bad file descriptor"))] visited →
        visited.Terminated := by
  refine ⟨rfl, ?_, ?_⟩
  · intro still
    exact absurd (still _ (visits_last rfl)).state (by decide)
  · intro still
    exact absurd (still _ (visits_last rfl)).writeBuffer (by decide)

end PPServer.Net.Connection
