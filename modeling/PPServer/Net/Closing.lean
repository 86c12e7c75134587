import PPServer.Net.Stepwise

/-!
# Closing happens once

`Close` takes the descriptor from the event loop, closes it and tells the handler, in this order.
It is called from many places, also from within itself; whatever calls it, a connection that the
server has set up goes through these three at most once, on the descriptor it was made with.
-/

namespace PPServer.Net

open Locking

/-- The effect is one of those of `Close`. -/
def Effect.IsClosing : Effect → Prop
  | .removeFd _ | .closeSocket _ | .onDisconnection => True
  | _ => False

instance : DecidablePred Effect.IsClosing
  | .removeFd _ | .closeSocket _ | .onDisconnection => isTrue trivial
  | .updateFd .. | .sent _ | .onConnection | .error .. | .readCallback | .writeCallback
  | .errorCallback _ => isFalse not_false

namespace Connection

variable {conn middle after : Connection} {fd : Int} {epoll : EpollMod}

/-! ## The log of `Close` -/

/-- What `Close` has done so far. -/
def closings (conn : Connection) : List Effect :=
  conn.effects.filter fun effect => effect.IsClosing

/-- What it does in all. -/
def closingEffects (fd : Int) : List Effect := [.removeFd fd, .closeSocket fd, .onDisconnection]

/-- A connection that was made with `fd`, at any point of its life. -/
structure Orderly (fd : Int) (conn : Connection) : Prop where
  hasHandler : conn.hasHandler = true
  unclosed : conn.IsOpen → conn.closings = [] ∧ conn.socketFd = fd
  begun : conn.closings <+: closingEffects fd
  done : conn.state = .disconnected → conn.closings = closingEffects fd ∧ conn.socketFd = -1

/-- The part of the connection that `Close` is about is the same. -/
structure Leaves (conn after : Connection) : Prop where
  hasHandler : after.hasHandler = conn.hasHandler
  state : after.state = conn.state
  socketFd : after.socketFd = conn.socketFd
  closings : after.closings = conn.closings

instance : IsPreorder Connection Leaves where
  refl _ := ⟨rfl, rfl, rfl, rfl⟩
  trans _ _ _ first second :=
    ⟨second.hasHandler.trans first.hasHandler, second.state.trans first.state,
      second.socketFd.trans first.socketFd, second.closings.trans first.closings⟩

theorem Leaves.isOpen_iff (leaves : conn.Leaves after) : after.IsOpen ↔ conn.IsOpen := by
  rw [IsOpen, IsOpen, leaves.state]

theorem Orderly.leaves (orderly : conn.Orderly fd) (leaves : conn.Leaves after) :
    after.Orderly fd := by
  constructor
  case hasHandler => exact leaves.hasHandler.trans orderly.hasHandler
  case unclosed =>
    intro opened
    rw [leaves.closings, leaves.socketFd]
    exact orderly.unclosed (leaves.isOpen_iff.mp opened)
  case begun =>
    rw [leaves.closings]
    exact orderly.begun
  case done =>
    rw [leaves.state, leaves.closings, leaves.socketFd]
    exact orderly.done

/-- An open connection in another state of the open ones. -/
theorem Orderly.setState (orderly : conn.Orderly fd) (state : ConnectionState)
    (opened : conn.IsOpen) (notClosed : state ≠ .disconnected) :
    ({ conn with state } : Connection).Orderly fd where
  hasHandler := orderly.hasHandler
  unclosed _ := orderly.unclosed opened
  begun := orderly.begun
  done closed := absurd closed notClosed

/-! ## Steps that leave it alone -/

theorem record_leaves {effect : Effect} (other : ¬effect.IsClosing) :
    Within Leaves (recordSteps effect) :=
  .modify fun conn => ⟨rfl, rfl, rfl, by simp [closings, other]⟩

theorem updateFd_leaves (fd : Int) (read write : Bool) (epoll : EpollMod) :
    Within Leaves (updateFdSteps fd read write epoll) := by
  cases epoll with
  | done => exact record_leaves not_false
  | failed text => exact .throwing _

theorem notifyError_leaves (message : Bytes) : Within Leaves (notifyErrorSteps message) :=
  .getBind fun _ => .bind (record_leaves not_false) fun _ =>
    .ite (record_leaves not_false) (.pure _)

theorem lockGuard_leaves {α : Type} {body : Op α} {steps : Steps body}
    (leaves : Within Leaves steps) : Within Leaves (steps.lockGuard bufferMutex) :=
  .lockGuard leaves fun _ _ => ⟨rfl, rfl, rfl, rfl⟩

theorem cleanupResources_leaves : Within Leaves cleanupResourcesSteps :=
  lockGuard_leaves (.bind (.modify fun _ => ⟨rfl, rfl, rfl, rfl⟩) fun _ =>
    .modify fun _ => ⟨rfl, rfl, rfl, rfl⟩)

theorem getReadBuffer_leaves : Within Leaves getReadBufferSteps :=
  lockGuard_leaves (.getBind fun _ => .pure _)

theorem clearReadBuffer_leaves : Within Leaves clearReadBufferSteps :=
  lockGuard_leaves (.modify fun _ => ⟨rfl, rfl, rfl, rfl⟩)

variable {α β : Type} {first : Op α} {next : α → Op β} {steps : Steps first}

theorem Orderly.along (orderly : conn.Orderly fd) (leaves : Within Leaves steps) :
    Along (Orderly fd) steps conn :=
  (leaves.from_start conn).mono fun _ => orderly.leaves

/-- The connection after a call that leaves it alone. -/
theorem leaves_of_returned {value : α} (leaves : Within Leaves steps)
    (returns : first conn = .returned value after) : conn.Leaves after :=
  (leaves.from_start conn).of_returned (refl conn) returns

/-- A call that leaves the connection alone, before another. -/
theorem Orderly.bind {stepsNext : ∀ value, Steps (next value)} (orderly : conn.Orderly fd)
    (leaves : Within Leaves steps)
    (alongNext : ∀ value after, conn.Leaves after → Along (Orderly fd) (stepsNext value) after) :
    Along (Orderly fd) (steps.bind stepsNext) conn :=
  .bind (orderly.along leaves) fun value after returns =>
    alongNext value after (leaves_of_returned leaves returns)

/-! ## `Close` -/

/-- A connection that is being closed, and what has been done of it. -/
structure ClosingWith (log : List Effect) (conn : Connection) : Prop where
  hasHandler : conn.hasHandler = true
  state : conn.state = .closing
  closings : conn.closings = log

variable {log : List Effect}

theorem ClosingWith.orderly (closing : conn.ClosingWith log) (begun : log <+: closingEffects fd) :
    conn.Orderly fd where
  hasHandler := closing.hasHandler
  unclosed opened := absurd closing.state opened.2
  begun := closing.closings ▸ begun
  done closed := by rw [closing.state] at closed; cases closed

theorem ClosingWith.record (closing : conn.ClosingWith log) (effect : Effect)
    (isClosing : effect.IsClosing) :
    ({ conn with effects := conn.effects ++ [effect] } : Connection).ClosingWith
      (log ++ [effect]) where
  hasHandler := closing.hasHandler
  state := closing.state
  closings := by rw [← closing.closings]; simp [Connection.closings, isClosing]

theorem ClosingWith.unset (closing : conn.ClosingWith log) :
    ({ conn with socketFd := -1 } : Connection).ClosingWith log :=
  ⟨closing.hasHandler, closing.state, closing.closings⟩

/-- The end of `Close`. -/
theorem orderly_disconnect (closing : conn.ClosingWith (closingEffects fd))
    (socketFd : conn.socketFd = -1) :
    Along (Orderly fd) (cleanupResourcesSteps.bind fun _ => setStateSteps .disconnected) conn := by
  refine (closing.orderly List.prefix_rfl).bind cleanupResources_leaves fun _ after leaves => ?_
  have closings : after.closings = closingEffects fd := leaves.closings.trans closing.closings
  exact .modify
    { hasHandler := leaves.hasHandler.trans closing.hasHandler
      unclosed := fun opened => absurd rfl opened.1
      begun := closings ▸ List.prefix_rfl
      done := fun _ => ⟨closings, leaves.socketFd.trans socketFd⟩ }

/-- `Close` up to where it tells the handler, before what is left of it. -/
theorem orderly_release {rest : Op PUnit} {restSteps : Steps rest} (orderly : conn.Orderly fd)
    (valid : 0 ≤ fd) (opened : conn.IsOpen)
    (along : ∀ after : Connection, after.ClosingWith [.removeFd fd, .closeSocket fd] →
      after.socketFd = -1 → Along (Orderly fd) restSteps after) :
    Along (Orderly fd)
      ((setStateSteps .closing).bind fun _ => (recordSteps (.removeFd conn.socketFd)).bind fun _ =>
        (.ite
          ((recordSteps (.closeSocket conn.socketFd)).bind fun _ =>
            (Steps.modify fun conn => { conn with socketFd := -1 }).bind fun _ => restSteps)
          restSteps : Steps (if 0 ≤ conn.socketFd then _ else rest))) conn := by
  rcases orderly.unclosed opened with ⟨none, rfl⟩
  have closing : ({ conn with state := .closing } : Connection).ClosingWith [] :=
    ⟨orderly.hasHandler, rfl, none⟩
  have removed := closing.record (.removeFd conn.socketFd) trivial
  have closed := removed.record (.closeSocket conn.socketFd) trivial
  have begun : [.removeFd conn.socketFd, .closeSocket conn.socketFd] <+:
      closingEffects conn.socketFd := List.prefix_append _ [Effect.onDisconnection]
  refine .modify_bind (closing.orderly List.nil_prefix) (.modify_bind (removed.orderly ?_)
    (.ite (fun _ => .modify_bind (closed.orderly begun) ?_) fun invalid => absurd valid invalid))
  · exact List.prefix_append _ [Effect.closeSocket conn.socketFd, Effect.onDisconnection]
  · exact .modify_bind (closed.unset.orderly begun) (along _ closed.unset rfl)

theorem orderly_close (orderly : conn.Orderly fd) (valid : 0 ≤ fd) :
    Along (Orderly fd) closeSteps conn := by
  refine .getBind (.ite (fun _ => .pure _ _) fun goesOn => ?_)
  refine orderly_release orderly valid (not_or.mp goesOn) fun after closing socketFd => ?_
  refine .ite (fun _ => ?_) fun none => absurd orderly.hasHandler none
  have told : ({ after with effects := after.effects ++ [.onDisconnection] } :
      Connection).ClosingWith (closingEffects fd) := closing.record .onDisconnection trivial
  exact .modify_bind (told.orderly List.prefix_rfl) (orderly_disconnect told socketFd)

theorem orderly_destroy (orderly : conn.Orderly fd) (valid : 0 ≤ fd) :
    Along (Orderly fd) destroySteps conn := by
  refine .getBind (.ite (fun _ => .pure _ _) fun goesOn => ?_)
  refine orderly_release orderly valid (not_or.mp goesOn) fun after closing socketFd => ?_
  exact .ite (fun _ => .pure _ _) fun none => absurd orderly.hasHandler none

/-- An error is reported, and the connection closed. -/
theorem orderly_notifyAndClose (orderly : conn.Orderly fd) (valid : 0 ≤ fd) (message : Bytes) :
    Along (Orderly fd) ((notifyErrorSteps message).bind fun _ => closeSteps) conn :=
  orderly.bind (notifyError_leaves message) fun _ _ leaves =>
    orderly_close (orderly.leaves leaves) valid

/-! ## The handlers -/

theorem orderly_readData (orderly : conn.Orderly fd) (valid : 0 ≤ fd) (read : SocketRead)
    (now : Nat) : Along (Orderly fd) (readDataSteps read now) conn := by
  have closes {after : Connection} (orderly : after.Orderly fd) {α : Type} (value : α) :
      Along (Orderly fd) (closeSteps.bind fun _ => Steps.pure value) after :=
    .bind (orderly_close orderly valid) fun _ _ _ => .pure _ _
  cases read with
  | received data nonempty fits =>
      refine .getBind (.ite (fun _ => .pure _ _) fun goesOn => ?_)
      have opened : conn.IsOpen := Reads.isOpen (or_iff_not_and_not.mpr goesOn)
      have active : ({ conn with lastActivityTime := now } : Connection).Orderly fd :=
        orderly.leaves ⟨rfl, rfl, rfl, rfl⟩
      refine .modify_bind active (.scope (fun _ _ orderly => orderly.leaves ⟨rfl, rfl, rfl, rfl⟩)
        active ?_)
      let taken : Connection :=
        { conn with
          lastActivityTime := now
          bufferMutexHeld := true
          readBuffer := conn.readBuffer ++ data }
      have isTaken : taken.Orderly fd := orderly.leaves ⟨rfl, rfl, rfl, rfl⟩
      refine .modify_bind isTaken (.getBind (.ite (fun _ => ?_) fun _ => ?_))
      · exact isTaken.bind (notifyError_leaves _) fun _ _ leaves => closes (isTaken.leaves leaves) _
      · exact .modify_bind (isTaken.setState .reading opened (by decide)) (.pure _ _)
  | endOfFile => exact .getBind (.ite (fun _ => .pure _ _) fun _ => closes orderly _)
  | failed wouldBlock text =>
      refine .getBind (.ite (fun _ => .pure _ _) fun _ => .ite (fun _ => ?_) fun _ => .pure _ _)
      exact orderly.bind (notifyError_leaves _) fun _ _ leaves => closes (orderly.leaves leaves) _

theorem orderly_writeData (orderly : conn.Orderly fd) (valid : 0 ≤ fd) (opened : conn.IsOpen)
    (data : Bytes) (epoll : EpollMod) : Along (Orderly fd) (writeDataSteps data epoll) conn := by
  let taken : Connection :=
    { conn with
      bufferMutexHeld := true
      writeBuffer := conn.writeBuffer ++ data }
  have isTaken : taken.Orderly fd := orderly.leaves ⟨rfl, rfl, rfl, rfl⟩
  refine .scope (fun _ _ orderly => orderly.leaves ⟨rfl, rfl, rfl, rfl⟩) orderly
    (.getBind (.modify_bind isTaken (.getBind (.ite (fun _ => ?_) fun _ => ?_))))
  · exact isTaken.bind (notifyError_leaves _) fun _ _ leaves =>
      .bind (orderly_close (isTaken.leaves leaves) valid) fun _ _ _ => .pure _ _
  · refine .ite (fun _ => isTaken.bind (updateFd_leaves _ _ _ _) fun _ after leaves => ?_)
      fun _ => .pure _ _
    have openAfter : after.IsOpen := leaves.isOpen_iff.mpr opened
    exact .modify_bind ((isTaken.leaves leaves).setState .writing openAfter (by decide)) (.pure _ _)

theorem orderly_defaultHandleWrite (orderly : conn.Orderly fd) (valid : 0 ≤ fd)
    (unwritten : conn.writeBuffer ≠ [] → conn.IsOpen) (write : SocketWrite) (epoll : EpollMod) :
    Along (Orderly fd) (defaultHandleWriteSteps write epoll) conn := by
  have locked : (bufferMutex.setHeld true conn).Orderly fd := orderly.leaves ⟨rfl, rfl, rfl, rfl⟩
  cases write with
  | failed wouldBlock text =>
      refine .scope (fun _ _ orderly => orderly.leaves ⟨rfl, rfl, rfl, rfl⟩) orderly
        (.getBind (.ite (fun _ => .ite (fun _ => ?_) fun _ => .pure _ _) fun _ => .pure _ _))
      exact orderly_notifyAndClose locked valid _
  | accepted count =>
      refine .scope (fun _ _ orderly => orderly.leaves ⟨rfl, rfl, rfl, rfl⟩) orderly
        (.getBind (.ite (fun nonempty => .ite (fun _ => ?_) fun _ => .pure _ _) fun _ => .pure _ _))
      have opened : conn.IsOpen := unwritten nonempty
      refine locked.bind (record_leaves not_false) fun _ sent leaves => ?_
      let remaining : Connection := { sent with writeBuffer := sent.writeBuffer.drop count }
      have isRemaining : remaining.Orderly fd :=
        (locked.leaves leaves).leaves ⟨rfl, rfl, rfl, rfl⟩
      refine .modify_bind isRemaining (.getBind (.ite (fun _ => ?_) fun _ => .pure _ _))
      refine isRemaining.bind (updateFd_leaves _ _ _ _) fun _ watched leaves' => ?_
      have openAfter : watched.IsOpen := leaves'.isOpen_iff.mpr (leaves.isOpen_iff.mpr opened)
      have isConnected := (isRemaining.leaves leaves').setState .connected openAfter (by decide)
      exact .modify_bind isConnected (.ite (fun _ => isConnected.along (record_leaves not_false))
        fun _ => .pure _ _)

/-- `ReadData` gives data to a connection that is open. -/
theorem isOpen_of_readData {read : SocketRead} {now : Nat} {count : Int}
    (free : conn.bufferMutexHeld = false) (returns : readData read now conn = .returned count after)
    (positive : 0 < count) : after.IsOpen := by
  by_cases reads : conn.Reads
  case neg =>
    rw [readData_of_not_reads reads] at returns
    cases returns
    exact absurd positive (by decide)
  case pos =>
    cases read with
    | endOfFile =>
        rw [readData_endOfFile reads free] at returns
        cases returns
        exact absurd positive (by decide)
    | failed wouldBlock text =>
        cases wouldBlock with
        | true =>
            rw [readData_wouldBlock reads] at returns
            cases returns
            exact absurd positive (by decide)
        | false =>
            rw [readData_failed reads free] at returns
            cases returns
            exact absurd positive (by decide)
    | received data nonempty fits =>
        by_cases room : conn.readBuffer.length + data.length ≤ conn.maxBufferSize
        · rw [readData_received reads free nonempty fits room] at returns
          cases returns
          exact isOpen_received conn data now
        · have blocks : Deadlocks (readData (.received data nonempty fits) now) conn :=
            (deadlocks_readData_iff free _ _).mpr
              ⟨reads, data, nonempty, fits, rfl, Nat.lt_of_not_le room⟩
          rcases blocks with ⟨last, blocks⟩
          cases returns.symm.trans blocks

theorem orderly_handleReadable (orderly : conn.Orderly fd) (valid : 0 ≤ fd)
    (free : conn.bufferMutexHeld = false) (read : SocketRead) (now : Nat) (epoll : EpollMod) :
    Along (Orderly fd) (handleReadableSteps read now epoll) conn := by
  refine .getBind (.ite (fun _ => ?_) fun none => absurd orderly.hasHandler none)
  have reads := orderly_readData orderly valid read now
  refine .bind reads fun count middle returns => ?_
  have isRead := reads.of_returned orderly returns
  have closes : Along (Orderly fd) (closeSteps.bind fun _ => Steps.pure PUnit.unit) middle :=
    .bind (orderly_close isRead valid) fun _ _ _ => .pure _ _
  refine .ite (fun _ => closes) fun notNegative => .ite (fun _ => closes) fun notZero => ?_
  have positive : 0 < count := lt_of_le_of_ne (Int.not_lt.mp notNegative) (Ne.symm notZero)
  have opened := isOpen_of_readData free returns positive
  refine isRead.bind getReadBuffer_leaves fun requestData same leaves => ?_
  have isSame := isRead.leaves leaves
  have openAfter := leaves.isOpen_iff.mpr opened
  have writes := orderly_writeData isSame valid openAfter Handler.response epoll
  refine .ite (fun _ => .bind writes fun written after returns' => ?_) fun _ => .pure _ _
  exact (writes.of_returned isSame returns').along clearReadBuffer_leaves

theorem orderly_handleWritable (orderly : conn.Orderly fd) (valid : 0 ≤ fd)
    (unwritten : conn.writeBuffer ≠ [] → conn.IsOpen) (write : SocketWrite) (epoll : EpollMod) :
    Along (Orderly fd) (handleWritableSteps write epoll) conn := by
  have writes := orderly_defaultHandleWrite orderly valid unwritten write epoll
  exact .getBind (.ite (fun _ => writes) fun _ => writes)

theorem orderly_handleError (orderly : conn.Orderly fd) (valid : 0 ≤ fd) :
    Along (Orderly fd) handleErrorSteps conn :=
  .getBind (.ite (fun _ => orderly_notifyAndClose orderly valid _) fun _ =>
    orderly_notifyAndClose orderly valid _)

/-! ## The callback -/

/-- A handler that runs on some events only. -/
theorem Orderly.onAny (events flags : UInt32) {handler : Op PUnit} {steps : Steps handler}
    (along : Along (Orderly fd) steps conn) :
    Along (Orderly fd) (onAnySteps events flags steps) conn :=
  .ite (fun _ => along) fun _ => .pure _ _

/-- What the read handler leaves to the write handler. -/
theorem ready_of_onAny_handleReadable {events : UInt32} {calls : SystemCalls}
    (ready : conn.Ready) (opened : conn.IsOpen)
    (returns : onAny events EventLoop.epollRead
      (handleReadable calls.read calls.now calls.readEpoll) conn = .returned ⟨⟩ middle) :
    middle.Ready := by
  have fate := (handleReadable_fate ready opened calls.read calls.now calls.readEpoll).onAny ready
    events EventLoop.epollRead
  rw [returns] at fate
  cases fate with
  | closes _ _ _ readyAfter | stays _ _ _ readyAfter => exact readyAfter

/-- **A callback closes in order.**  At every point of a callback on an open connection, also where
it blocks, the connection has been closed as far as `Close` has come, and not twice. -/
theorem orderly_callback (orderly : conn.Orderly fd) (valid : 0 ≤ fd) (ready : conn.Ready)
    (opened : conn.IsOpen) (events : UInt32) (calls : SystemCalls) :
    Along (Orderly fd) (callbackSteps events calls) conn := by
  have reads := Orderly.onAny events EventLoop.epollRead
    (orderly_handleReadable orderly valid ready.unlocked calls.read calls.now calls.readEpoll)
  refine .bind reads fun _ middle returns => ?_
  have isRead := reads.of_returned orderly returns
  have readyMiddle := ready_of_onAny_handleReadable ready opened returns
  have unwritten : middle.writeBuffer ≠ [] → middle.IsOpen := fun nonempty => by
    by_contra closed
    exact nonempty (readyMiddle.nothingToWrite closed)
  have writes := Orderly.onAny events EventLoop.epollWrite
    (orderly_handleWritable isRead valid unwritten calls.write calls.writeEpoll)
  refine .bind writes fun _ after returns' => ?_
  have isWritten := writes.of_returned isRead returns'
  exact .onAny events EventLoop.epollError (orderly_handleError isWritten valid)

/-! ## How often -/

/-- `Close` has done all it has to do, once. -/
structure ClosedWith (fd : Int) (conn : Connection) : Prop where
  removeFd : conn.effects.count (.removeFd fd) = 1
  closeSocket : conn.effects.count (.closeSocket fd) = 1
  onDisconnection : conn.effects.count .onDisconnection = 1
  socketFd : conn.socketFd = -1

/-- A connection made with `fd` is closed at most once, and its own descriptor only. -/
structure ClosesOnce (fd : Int) (conn : Connection) : Prop where
  removeFd : conn.effects.count (.removeFd fd) ≤ 1
  closeSocket : conn.effects.count (.closeSocket fd) ≤ 1
  onDisconnection : conn.effects.count .onDisconnection ≤ 1
  own : ∀ other, .closeSocket other ∈ conn.effects → other = fd
  /-- Where `Close` comes to its end, and nowhere else, the state is `DISCONNECTED`. -/
  done : conn.state = .disconnected → conn.ClosedWith fd
  closes : ∀ after, conn.IsOpen → close conn = .returned ⟨⟩ after → after.ClosedWith fd

theorem nodup_closingEffects (fd : Int) : (closingEffects fd).Nodup := by
  simp [closingEffects]

theorem count_closings {effect : Effect} (isClosing : effect.IsClosing) :
    conn.closings.count effect = conn.effects.count effect :=
  List.count_filter (by simpa using isClosing)

theorem Orderly.count_le_one (orderly : conn.Orderly fd) {effect : Effect}
    (isClosing : effect.IsClosing) : conn.effects.count effect ≤ 1 :=
  calc conn.effects.count effect
    _ = conn.closings.count effect := (count_closings isClosing).symm
    _ ≤ (closingEffects fd).count effect := orderly.begun.sublist.count_le effect
    _ ≤ 1 := List.nodup_iff_count_le_one.mp (nodup_closingEffects fd) effect

theorem count_eq_one {effect : Effect} (closings : conn.closings = closingEffects fd)
    (member : effect ∈ closingEffects fd) : conn.effects.count effect = 1 := by
  have isClosing : effect.IsClosing := by
    rw [← closings] at member
    simpa using (List.mem_filter.mp member).2
  rw [← count_closings isClosing, closings]
  exact List.count_eq_one_of_mem (nodup_closingEffects fd) member

theorem Orderly.closedWith (orderly : conn.Orderly fd) (done : conn.state = .disconnected) :
    conn.ClosedWith fd := by
  rcases orderly.done done with ⟨closings, socketFd⟩
  exact
    { removeFd := count_eq_one closings (by simp [closingEffects])
      closeSocket := count_eq_one closings (by simp [closingEffects])
      onDisconnection := count_eq_one closings (by simp [closingEffects])
      socketFd }

/-- `Close` returns from an open connection only if it has come to its end. -/
theorem disconnected_of_close (opened : conn.IsOpen)
    (returns : close conn = .returned ⟨⟩ after) : after.state = .disconnected := by
  cases held : conn.bufferMutexHeld with
  | false =>
      rw [close_of_open opened held] at returns
      cases returns
      rfl
  | true =>
      rcases deadlocks_close_iff.mpr ⟨opened, held⟩ with ⟨last, blocks⟩
      cases returns.symm.trans blocks

theorem Orderly.closesOnce (orderly : conn.Orderly fd) (valid : 0 ≤ fd) : conn.ClosesOnce fd where
  removeFd := orderly.count_le_one trivial
  closeSocket := orderly.count_le_one trivial
  onDisconnection := orderly.count_le_one trivial
  own other closed := by
    have member : .closeSocket other ∈ conn.closings :=
      List.mem_filter.mpr ⟨closed, decide_eq_true trivial⟩
    simpa [closingEffects] using orderly.begun.subset member
  done := orderly.closedWith
  closes after opened returns := by
    have isAfter := (orderly_close orderly valid).of_returned orderly returns
    exact isAfter.closedWith (disconnected_of_close opened returns)

end Connection

end PPServer.Net
