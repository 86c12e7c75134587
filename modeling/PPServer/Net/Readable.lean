import PPServer.Net.Outcomes

/-!
# Readable events

`ReadData` returns -1 when it may not read in the state of the connection, when there is
nothing to read and when reading fails for good, and the handler closes the connection in
all three cases.  It reads once, however much there is, although the event loop reports only
the arrival of bytes and not that some are left.
-/

namespace PPServer.Net.Connection

open Locking

variable {conn : Connection} {read : SocketRead} {now : Nat} {epoll : EpollMod}

/-! ## Closing without cause -/

/-- What is read, if anything is, is no end of file, no error and no overflow. -/
def Causeless (conn : Connection) (read : SocketRead) : Prop :=
  conn.Reads →
    match read with
    | .received data _ _ => conn.TakesIn data
    | .endOfFile => False
    | .failed wouldBlock _ => wouldBlock = true

/-- The call comes to an end, the connection is still open, and what was to be written
still is. -/
def Spares (conn : Connection) (outcome : Outcome Exception Connection PUnit) : Prop :=
  ∃ after, outcome.Final after ∧ after.IsOpen ∧ conn.writeBuffer <+: after.writeBuffer

theorem not_spares_closed (other : Connection) :
    ¬conn.Spares (.returned ⟨⟩ other.closed) := by
  intro spares
  rcases spares with ⟨after, final, opened, -⟩
  cases final
  exact not_isOpen_closed other opened

/-- **A readable event spares the connection** exactly if the connection may read, data are
read, and the response, if the data complete a request, fits into the write buffer. -/
theorem handleReadable_spares_iff (reachable : Reachable conn) (handler : conn.hasHandler = true)
    (served : conn.state = .connected ∨ conn.state = .reading ∨ conn.state = .writing)
    (causeless : conn.Causeless read) :
    conn.Spares (handleReadable read now epoll conn) ↔
      conn.Reads ∧ ∃ data nonempty fits, read = .received data nonempty fits ∧
        (conn.Completes data → conn.TakesResponse) := by
  have opened : conn.IsOpen := by
    rcases served with state | state | state <;> simp [IsOpen, state]
  have ends := handleReadable_outcome handler reachable.unlocked read now epoll
  generalize handleReadable read now epoll conn = outcome at ends
  cases ends with
  | ignored notOpen => exact absurd opened notOpen
  | refused _ notReads =>
      exact iff_of_false (not_spares_closed conn) fun condition => notReads condition.1
  | endOfFile reads => exact (causeless reads).elim
  | wouldBlock reads =>
      refine iff_of_false (not_spares_closed conn) ?_
      intro condition
      rcases condition with ⟨-, data, nonempty, fits, received, -⟩
      cases received
  | failed reads => cases causeless reads
  | overflow reads takesIn => exact absurd (causeless reads) takesIn
  | @incomplete data nonempty fits _ reads _ completes =>
      refine iff_of_true ⟨_, rfl, ?_, List.prefix_rfl⟩
        ⟨reads, data, nonempty, fits, rfl, fun other => absurd other completes⟩
      simp [IsOpen, received]
  | @answered data nonempty fits reads _ _ takesResponse =>
      refine iff_of_true ⟨_, rfl, ?_, List.prefix_append _ _⟩
        ⟨reads, data, nonempty, fits, rfl, fun _ => takesResponse⟩
      simp [IsOpen, Connection.answered, wrote]
  | @unwatched data nonempty fits _ reads _ _ takesResponse =>
      refine iff_of_true ⟨_, rfl, ?_, List.prefix_append _ _⟩
        ⟨reads, data, nonempty, fits, rfl, fun _ => takesResponse⟩
      simp [IsOpen, received, queued]
  | noRoom reads _ completes takesResponse =>
      refine iff_of_false ?_ ?_
      · intro spares
        rcases spares with ⟨after, final, -⟩
        exact final
      · intro condition
        rcases condition with ⟨-, data, nonempty, fits, received, room⟩
        cases received
        exact takesResponse (room completes)

/-- A connection as `HandleNewConnection` sets it up. -/
def served : Connection :=
  { new 5 0 with
    hasHandler := true
    state := .connected
    lastActivityTime := 1
    effects := [.onConnection] }

theorem reachable_served : Reachable served :=
  .step (.start 1) (.step .setHandler (.new 5 0 (by decide)) rfl) rfl

theorem handleReadable_spares_iff_served :
    served.Spares (handleReadable (.received (bytes "GET ") (by decide) (by decide)) 2 .done
        served) ↔
      served.Reads ∧ ∃ data nonempty fits,
        SocketRead.received (bytes "GET ") (by decide) (by decide) =
            .received data nonempty fits ∧
          (served.Completes data → served.TakesResponse) :=
  handleReadable_spares_iff reachable_served rfl (.inl rfl) fun _ => by decide

/-- The connection with the response to its first request still to be written. -/
def answering : Connection := served.answered (bytes "GET / HTTP/1.1\r\n\r\n") 2

/-- A second readable event closes it, and the response is lost. -/
theorem handleReadable_closes_answering :
    Reachable answering ∧ answering.hasHandler = true ∧ answering.state = .writing ∧
      answering.writeBuffer = Handler.response ∧
      answering.Causeless (.failed true (bytes "Resource temporarily unavailable")) ∧
      ¬answering.Spares
        (handleReadable (.failed true (bytes "Resource temporarily unavailable")) 3 .done
          answering) := by
  have answers : handleReadable (.received (bytes "GET / HTTP/1.1\r\n\r\n") (by decide)
      (by decide)) 2 .done served = .returned ⟨⟩ answering :=
    handleReadable_answers rfl rfl (by decide) (by decide) (.inl rfl) (by decide) (by decide)
      (by decide +kernel)
  have reachable : Reachable answering := by
    apply Reachable.step (.handleReadable _ 2 .done) reachable_served
    rw [Operation.run, answers]
    rfl
  have written : answering.writeBuffer = Handler.response := List.nil_append _
  have closes : handleReadable (.failed true (bytes "Resource temporarily unavailable")) 3 .done
      answering = .returned ⟨⟩ answering.closed := by
    rw [handleReadable_of_handler rfl, handleRead_of_failure
      (readData_of_not_reads (by decide) _ _) (by decide), close_of_open (by decide) rfl]
  exact ⟨reachable, rfl, rfl, written, fun _ => rfl, closes ▸ not_spares_closed answering⟩

/-! ## Bytes that are left unread -/

/-- `read(fd, buffer, 4096)` on a socket with these unread bytes, and what it leaves; `idle` is
its outcome if there are none. -/
def readOnce (pending : Bytes) (idle : SocketRead) : SocketRead × Bytes :=
  if nonempty : pending.take 4096 ≠ [] then
    (.received (pending.take 4096) nonempty (List.length_take_le _ _), pending.drop 4096)
  else (idle, pending)

/-- `HandleReadable` on a connection whose socket has these unread bytes: how it ends, and the
bytes that are left unread.  `ReadData` reads once, or not at all. -/
def readableEvent (pending : Bytes) (idle : SocketRead) (now : Nat) (epoll : EpollMod)
    (conn : Connection) : Outcome Exception Connection PUnit × Bytes :=
  (handleReadable (readOnce pending idle).1 now epoll conn,
    if conn.Reads then (readOnce pending idle).2 else pending)

/-- If the connection is left open with no response to write, nothing is left unread. -/
def Drains (event : Outcome Exception Connection PUnit × Bytes) : Prop :=
  ∀ after, event.1 = .returned ⟨⟩ after → after.Reads → event.2 = []

theorem readOnce_of_long {pending : Bytes} (long : 4096 < pending.length) (idle : SocketRead) :
    ∃ nonempty fits, readOnce pending idle =
      (.received (pending.take 4096) nonempty fits, pending.drop 4096) := by
  have nonempty : pending.take 4096 ≠ [] := by
    rw [← List.length_pos_iff, List.length_take]
    omega
  exact ⟨nonempty, List.length_take_le _ _, by rw [readOnce, dif_pos nonempty]⟩

theorem readOnce_of_short {pending : Bytes} (short : pending.length ≤ 4096)
    (idle : SocketRead) : (readOnce pending idle).2 = [] := by
  rw [readOnce]
  split
  next => exact List.drop_eq_nil_iff.mpr short
  next empty =>
      rw [List.take_of_length_le short] at empty
      exact not_not.mp empty

theorem not_reads_closed (conn : Connection) : ¬conn.closed.Reads := by
  intro reads
  rcases reads with state | state <;> cases state

/-- A connection that may not read is closed. -/
theorem drains_of_not_reads (free : conn.bufferMutexHeld = false)
    (handler : conn.hasHandler = true) (opened : conn.IsOpen) (notReads : ¬conn.Reads)
    (pending : Bytes) (idle : SocketRead) :
    Drains (readableEvent pending idle now epoll conn) := by
  intro after returns readsAfter
  have ends := handleReadable_outcome handler free (readOnce pending idle).1 now epoll
  rw [show handleReadable (readOnce pending idle).1 now epoll conn = .returned ⟨⟩ after from
    returns] at ends
  generalize (readOnce pending idle).1 = read at ends
  cases ends with
  | ignored notOpen => exact absurd opened notOpen
  | refused _ _ => exact absurd readsAfter (not_reads_closed conn)
  | endOfFile reads | wouldBlock reads | failed reads | incomplete reads _ _
  | answered reads _ _ _ => exact absurd reads notReads

/-- More than 4096 bytes are read in part, and only a response that is still to be written, or
a call that does not return, excuses that. -/
theorem drains_long_iff (free : conn.bufferMutexHeld = false) (handler : conn.hasHandler = true)
    (reads : conn.Reads) {pending : Bytes} (long : 4096 < pending.length) (idle : SocketRead) :
    Drains (readableEvent pending idle now epoll conn) ↔
      ¬conn.TakesIn (pending.take 4096) ∨ conn.Completes (pending.take 4096) := by
  rcases readOnce_of_long long idle with ⟨nonempty, fits, read⟩
  have left : pending.drop 4096 ≠ [] := by
    rw [← List.length_pos_iff, List.length_drop]
    omega
  have event : readableEvent pending idle now epoll conn =
      (handleReadable (.received (pending.take 4096) nonempty fits) now epoll conn,
        pending.drop 4096) := by
    rw [readableEvent, read, if_pos reads]
  rw [event]
  have ends := handleReadable_outcome handler free
    (.received (pending.take 4096) nonempty fits) now epoll
  generalize handleReadable (.received (pending.take 4096) nonempty fits) now epoll conn =
    outcome at ends
  cases ends with
  | ignored notOpen => exact absurd reads.isOpen notOpen
  | refused _ notReads => exact absurd reads notReads
  | overflow _ takesIn => exact iff_of_true (fun _ returns => by cases returns) (.inl takesIn)
  | incomplete _ takesIn completes =>
      refine iff_of_false (fun drains => left (drains _ rfl (.inr rfl))) ?_
      exact not_or.mpr ⟨not_not.mpr takesIn, completes⟩
  | answered _ _ completes _ =>
      refine iff_of_true (fun after returns readsAfter => ?_) (.inr completes)
      cases returns
      rcases readsAfter with state | state <;> cases state
  | unwatched _ _ completes _ =>
      exact iff_of_true (fun _ returns => by cases returns) (.inr completes)
  | noRoom _ _ completes _ =>
      exact iff_of_true (fun _ returns => by cases returns) (.inr completes)

/-- **A readable event drains the socket**, unless it leaves the connection closed, blocked or
with a response to write, exactly if no more bytes are unread than one `read` takes. -/
theorem readableEvent_drains_iff (reachable : Reachable conn)
    (handler : conn.hasHandler = true) (opened : conn.IsOpen) (pending : Bytes)
    (idle : SocketRead) :
    Drains (readableEvent pending idle now epoll conn) ↔
      pending.length ≤ 4096 ∨ ¬conn.Reads ∨ ¬conn.TakesIn (pending.take 4096) ∨
        conn.Completes (pending.take 4096) := by
  by_cases reads : conn.Reads
  · by_cases short : pending.length ≤ 4096
    · refine iff_of_true (fun _ _ _ => ?_) (.inl short)
      simp only [readableEvent]
      rw [if_pos reads, readOnce_of_short short]
    · rw [drains_long_iff reachable.unlocked handler reads (Nat.lt_of_not_le short) idle]
      simp [short, reads]
  · exact iff_of_true (drains_of_not_reads reachable.unlocked handler opened reads pending idle)
      (.inr (.inl reads))

theorem readableEvent_drains_iff_served :
    Drains (readableEvent (bytes "GET / HTTP/1.1\r\n") .endOfFile 2 .done served) ↔
      (bytes "GET / HTTP/1.1\r\n").length ≤ 4096 ∨ ¬served.Reads ∨
        ¬served.TakesIn ((bytes "GET / HTTP/1.1\r\n").take 4096) ∨
        served.Completes ((bytes "GET / HTTP/1.1\r\n").take 4096) :=
  readableEvent_drains_iff reachable_served rfl (by decide) _ _

/-- One byte more than a `read` takes, none of them a carriage return, stays unread. -/
theorem readableEvent_leaves_byte :
    Reachable served ∧
      ¬Drains (readableEvent (List.replicate 4097 97) .endOfFile 2 .done served) := by
  refine ⟨reachable_served, ?_⟩
  have long : 4096 < (List.replicate 4097 (97 : Byte)).length := by
    rw [List.length_replicate]
    decide
  rw [drains_long_iff rfl rfl (.inl rfl) long, List.take_replicate, not_or, not_not]
  constructor
  · rw [TakesIn, List.length_replicate]
    decide
  · intro completes
    have carriageReturn : cr ∈ List.replicate 4096 97 := completes.subset (by decide)
    exact absurd (List.eq_of_mem_replicate carriageReturn) (by decide)

end PPServer.Net.Connection
