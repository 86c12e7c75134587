import PPServer.Net.Stepwise

/-!
# When a connection can be closed from within its own callback

A signal handler closes the connections while the thread that it interrupts may be in an operation
of one of them.  `Close` blocks there if this operation holds `buffer_mutex_` and the connection is
still open; it returns at once if the operation is closing the connection itself.
-/

namespace PPServer.Net.Connection

open Locking

variable {conn after : Connection} {read : SocketRead} {write : SocketWrite} {now : Nat}
variable {epoll : EpollMod} {events : UInt32} {calls : SystemCalls}

/-- `Close` does not block. -/
def Closable (conn : Connection) : Prop := ¬Deadlocks close conn

theorem closable_iff : conn.Closable ↔ conn.IsOpen → conn.bufferMutexHeld = false := by
  rw [Closable, deadlocks_close_iff]
  simp

theorem closable_of_free (free : conn.bufferMutexHeld = false) : conn.Closable :=
  closable_iff.mpr fun _ => free

theorem closable_of_not_isOpen (closed : ¬conn.IsOpen) : conn.Closable :=
  closable_iff.mpr fun opened => absurd opened closed

theorem not_closable (opened : conn.IsOpen) (held : conn.bufferMutexHeld = true) :
    ¬conn.Closable :=
  not_not.mpr (deadlocks_close_iff.mpr ⟨opened, held⟩)

/-- A scope that locks the mutex of an open connection. -/
theorem not_closable_lockGuard {α : Type} {body : Op α} {steps : Steps body}
    (free : conn.bufferMutexHeld = false) (opened : conn.IsOpen) :
    ¬Along Closable (steps.lockGuard bufferMutex) conn := by
  intro along
  have locked : (bufferMutex.setHeld true conn).Closable :=
    along.locked (show bufferMutex.held conn = false from free)
  have opened' : (bufferMutex.setHeld true conn).IsOpen := opened
  exact not_closable opened' rfl locked

/-! ## Operations that leave the connection closable -/

/-- The step does not open the connection. -/
def StaysClosed (before after : Connection) : Prop := ¬before.IsOpen → ¬after.IsOpen

theorem disconnect_staysClosed (conn : Connection) :
    Within StaysClosed (disconnectSteps conn) := by
  have last : Within StaysClosed
      (cleanupResourcesSteps.bind fun _ => setStateSteps .disconnected) :=
    .bind
      (.lockGuard (.bind (.modify fun _ closed => closed) fun _ => .modify fun _ closed => closed)
        fun _ _ closed => closed)
      fun _ => .modify fun _ _ opened => opened.1 rfl
  exact .ite (.bind (.modify fun _ closed => closed) fun _ => last) last

/-- What `Close` does once it has set the state. -/
theorem closable_close (conn : Connection) : Along Closable closeSteps conn := by
  have closing : ¬{ conn with state := .closing }.IsOpen := fun opened => opened.2 rfl
  refine .getBind (.ite (fun _ => .pure _ _) fun _ => ?_)
  refine .modify_bind (closable_of_not_isOpen closing) (.mono ?_ fun _ => closable_of_not_isOpen)
  refine Within.along (.bind (.modify fun _ closed => closed) fun _ => ?_) closing
  exact .ite
    (.bind (.modify fun _ closed => closed) fun _ => .bind (.modify fun _ closed => closed)
      fun _ => disconnect_staysClosed conn)
    (disconnect_staysClosed conn)

theorem closable_notifyError (free : conn.bufferMutexHeld = false) (message : Bytes) :
    Along Closable (notifyErrorSteps message) conn := by
  have unlocked : Within (fun before after => before.Unlocked → after.Unlocked)
      (notifyErrorSteps message) :=
    .getBind fun _ => .bind (.modify fun _ free => free) fun _ =>
      .ite (.modify fun _ free => free) (.pure _)
  exact (unlocked.along free).mono fun _ => closable_of_free

/-- An error is reported, and the connection closed. -/
theorem closable_notifyAndClose (free : conn.bufferMutexHeld = false) (message : Bytes) :
    Along Closable ((notifyErrorSteps message).bind fun _ => closeSteps) conn :=
  .bind (closable_notifyError free message) fun _ after _ => closable_close after

theorem closable_handleError (free : conn.bufferMutexHeld = false) :
    Along Closable handleErrorSteps conn :=
  .getBind (.ite (fun _ => closable_notifyAndClose free _) fun _ =>
    closable_notifyAndClose free _)

/-! ## The read handler -/

/-- `ReadData` takes nothing in where the handler then closes the connection. -/
theorem readData_of_closes (ready : conn.Ready) (closes : conn.ReadCloses read) (now : Nat) :
    ∃ count after, readData read now conn = .returned count after ∧ count ≤ 0 := by
  by_cases reads : conn.Reads
  case neg => exact ⟨-1, conn, readData_of_not_reads reads read now, by decide⟩
  case pos =>
    cases read with
    | received data nonempty fits => exact absurd reads closes
    | endOfFile => exact ⟨0, _, readData_endOfFile reads ready.unlocked, by decide⟩
    | failed wouldBlock text =>
        cases wouldBlock with
        | true => exact ⟨-1, _, readData_wouldBlock reads text, by decide⟩
        | false => exact ⟨-1, _, readData_failed reads ready.unlocked text, by decide⟩

theorem closable_readData (free : conn.bufferMutexHeld = false) (closes : conn.ReadCloses read)
    (now : Nat) : Along Closable (readDataSteps read now) conn := by
  cases read with
  | received data nonempty fits =>
      refine .getBind (.ite (fun _ => .pure _ _) fun goesOn => absurd ?_ closes)
      exact or_iff_not_and_not.mpr goesOn
  | endOfFile =>
      exact .getBind (.ite (fun _ => .pure _ _) fun _ =>
        .bind (closable_close conn) fun _ _ _ => .pure _ _)
  | failed wouldBlock text =>
      refine .getBind (.ite (fun _ => .pure _ _) fun _ => .ite (fun _ => ?_) fun _ => .pure _ _)
      exact .bind (closable_notifyError free _) fun _ after _ =>
        .bind (closable_close after) fun _ _ _ => .pure _ _

theorem closable_handleReadable (ready : conn.Ready) (closes : conn.ReadCloses read)
    (now : Nat) (epoll : EpollMod) :
    Along Closable (handleReadableSteps read now epoll) conn := by
  refine .getBind (.ite (fun _ => ?_) fun none => absurd ready.hasHandler none)
  refine .bind (closable_readData ready.unlocked closes now) fun count after returns => ?_
  rcases readData_of_closes ready closes now with ⟨other, next, returns', notPositive⟩
  cases returns.symm.trans returns'
  refine .ite (fun _ => .bind (closable_close after) fun _ _ _ => .pure _ _) fun notNegative => ?_
  refine .ite (fun _ => .bind (closable_close after) fun _ _ _ => .pure _ _) fun notZero => ?_
  exact absurd (Int.le_antisymm notPositive (Int.not_lt.mp notNegative)) notZero

/-- Data are taken in with the mutex held. -/
theorem not_closable_handleReadable (ready : conn.Ready) (opened : conn.IsOpen)
    (takes : ¬conn.ReadCloses read) (now : Nat) (epoll : EpollMod) :
    ¬Along Closable (handleReadableSteps read now epoll) conn := by
  intro along
  cases read with
  | endOfFile | failed => exact takes trivial
  | received data nonempty fits =>
      have reads : conn.Reads := not_not.mp takes
      have handles : Along Closable (handleReadSteps (.received data nonempty fits) now epoll)
          conn := Along.of_ite_pos ready.hasHandler along
      have taking : Along Closable (readDataSteps (.received data nonempty fits) now) conn :=
        handles.of_bind
      have locks := Along.of_modify_bind (Along.of_ite_neg reads.goesOn taking)
      have free : { conn with lastActivityTime := now }.bufferMutexHeld = false := ready.unlocked
      have opened' : { conn with lastActivityTime := now }.IsOpen := opened
      exact not_closable_lockGuard free opened' locks

/-! ## The write handler -/

theorem closable_handleWritable (ready : conn.Ready) (closed : ¬conn.IsOpen) (write : SocketWrite)
    (epoll : EpollMod) : Along Closable (handleWritableSteps write epoll) conn := by
  have empty : conn.writeBuffer = [] := ready.nothingToWrite closed
  have locked : (bufferMutex.setHeld true conn).Closable := closable_of_not_isOpen closed
  have skips : Along Closable (defaultHandleWriteSteps write epoll) conn := by
    cases write with
    | accepted count =>
        refine .lockGuard locked (.getBind (.ite (fun unwritten => absurd empty unwritten)
          fun _ => .pure _ _)) fun after _ => closable_of_free rfl
    | failed wouldBlock text =>
        refine .lockGuard locked (.getBind (.ite (fun unwritten => absurd empty unwritten)
          fun _ => .pure _ _)) fun after _ => closable_of_free rfl
  exact .getBind (.ite (fun _ => skips) fun _ => skips)

/-- The write handler looks at the buffer with the mutex held. -/
theorem not_closable_handleWritable (ready : conn.Ready) (opened : conn.IsOpen)
    (write : SocketWrite) (epoll : EpollMod) :
    ¬Along Closable (handleWritableSteps write epoll) conn := by
  intro along
  have writes : Along Closable (defaultHandleWriteSteps write epoll) conn :=
    Along.of_ite_pos ready.hasHandler along
  cases write with
  | accepted count | failed wouldBlock text =>
      exact not_closable_lockGuard ready.unlocked opened writes

/-! ## The callback -/

/-- The callback comes to lock `buffer_mutex_` on the open connection: it takes data in, or it
comes to the write handler. -/
def LocksOpen (conn : Connection) (events : UInt32) (calls : SystemCalls) : Prop :=
  if EventLoop.Any events EventLoop.epollRead then ¬conn.ReadCloses calls.read
  else EventLoop.Any events EventLoop.epollWrite

/-- The callback after its read handler, on a connection that this has closed. -/
theorem closable_writeAndError (ready : conn.Ready) (closed : ¬conn.IsOpen) :
    Along Closable
      ((onAnySteps events EventLoop.epollWrite
          (handleWritableSteps calls.write calls.writeEpoll)).bind fun _ =>
        onAnySteps events EventLoop.epollError handleErrorSteps) conn := by
  refine .bind (.ite (fun _ => closable_handleWritable ready closed _ _) fun _ => .pure _ _)
    fun value after returns => ?_
  have idle := (handleWritable_idle ready closed calls.write calls.writeEpoll).onAny ready events
    EventLoop.epollWrite
  rcases idle with ⟨other, returns', -, readyAfter⟩
  cases returns.symm.trans returns'
  exact .ite (fun _ => closable_handleError readyAfter.unlocked) fun _ => .pure _ _

theorem along_closable_iff (ready : conn.Ready) (opened : conn.IsOpen) (events : UInt32)
    (calls : SystemCalls) :
    Along Closable (callbackSteps events calls) conn ↔ ¬conn.LocksOpen events calls := by
  rw [LocksOpen]
  split
  case isTrue reads =>
    rw [not_not]
    constructor
    · intro along
      by_contra takes
      exact not_closable_handleReadable ready opened takes _ _
        (Along.of_ite_pos reads along.of_bind)
    · intro closes
      refine .bind (.ite (fun _ => closable_handleReadable ready closes _ _) fun _ => .pure _ _)
        fun value after returns => ?_
      have fate := (handleReadable_fate ready opened calls.read calls.now calls.readEpoll).onAny
        ready events EventLoop.epollRead
      rw [returns] at fate
      cases fate with
      | closes _ _ closed readyAfter => exact closable_writeAndError readyAfter closed.not_isOpen
      | stays stays _ _ _ => exact absurd ⟨reads, closes⟩ stays
  case isFalse notReads =>
    have skips : onAny events EventLoop.epollRead
        (handleReadable calls.read calls.now calls.readEpoll) conn = .returned ⟨⟩ conn := by
      rw [onAny, if_neg notReads]
      rfl
    constructor
    · intro along writes
      have rest := ((along_bind_of_returned skips).mp along).2
      exact not_closable_handleWritable ready opened _ _ (Along.of_ite_pos writes rest.of_bind)
    · intro notWrites
      refine .bind (.ite (fun reads => absurd reads notReads) fun _ => .pure _ _)
        fun value after returns => ?_
      cases skips.symm.trans returns
      refine .bind (.ite (fun writes => absurd writes notWrites) fun _ => .pure _ _)
        fun value after returns => ?_
      rw [onAny, if_neg notWrites] at returns
      cases returns
      exact .ite (fun _ => closable_handleError ready.unlocked) fun _ => .pure _ _

end PPServer.Net.Connection
