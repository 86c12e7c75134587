import PPServer.Net.Lifetime

/-!
# What a turn does to a connection

The server takes turns with a connection: it calls its callback for some events, or closes it.
However a turn ends, it comes to a few changes of the connection, one after another, and what each
of these keeps every turn keeps.
-/

namespace PPServer.Net

open Locking

/-- The data that `read` has put into the buffer. -/
def SocketRead.data : SocketRead → Bytes
  | .received data _ _ => data
  | .endOfFile | .failed _ _ => []

namespace Connection

/-- What the server does to a connection. -/
inductive Turn where
  /-- The event loop calls the callback of the connection. -/
  | event (events : UInt32) (calls : SystemCalls)
  | close

/-- The connection after a turn, `none` if the turn does not come to an end. -/
def turn (conn : Connection) : Turn → Option Connection
  | .event events calls => (callback events calls conn).ending
  | .close => (Connection.close conn).ending

/-- The bytes that are read from the socket in a turn. -/
def readIn (conn : Connection) : Turn → Bytes
  | .event events calls =>
      if EventLoop.Any events EventLoop.epollRead ∧ conn.Reads then calls.read.data else []
  | .close => []

/-- How often the event loop cannot be told of a response that is queued in a turn. -/
def failuresIn (conn : Connection) : Turn → Nat
  | .event events calls =>
      if EventLoop.Any events EventLoop.epollRead ∧ conn.ReadThrows calls.read calls.readEpoll
      then 1 else 0
  | .close => 0

/-- What a handler does to a connection at a time, with the bytes that it has read, and how often
the event loop could not be told of a response. -/
inductive Change (conn : Connection) : Bytes → Nat → Connection → Prop where
  | closed : Change conn [] 0 conn.closed
  | notified (message : Bytes) : Change conn [] 0 (conn.notified message)
  | received {data : Bytes} {now : Nat} : conn.Reads → conn.TakesIn data →
      ¬conn.Completes data → Change conn data 0 (conn.received data now)
  | answered {data : Bytes} {now : Nat} : conn.Reads → conn.TakesIn data → conn.Completes data →
      conn.TakesResponse → Change conn data 0 (conn.answered data now)
  /-- The request is kept. -/
  | repeated {data : Bytes} {now : Nat} : conn.Reads → conn.TakesIn data → conn.Completes data →
      conn.TakesResponse →
      Change conn data 1 ((conn.received data now).queued Handler.response)
  | sent {count : Nat} : conn.IsOpen → Change conn [] 0 (conn.sent count)
  | drained {count : Nat} : conn.IsOpen → conn.writeBuffer.length ≤ count →
      Change conn [] 0 (conn.drained count)

/-- Some changes, one after another. -/
inductive Changes (conn : Connection) : Bytes → Nat → Connection → Prop where
  | none : Changes conn [] 0 conn
  | more {read data : Bytes} {failures more : Nat} {middle after : Connection} :
      Changes conn read failures middle → Change middle data more after →
      Changes conn (read ++ data) (failures + more) after

variable {conn middle after : Connection} {read data : Bytes} {now failures more : Nat}
variable {epoll : EpollMod} {events : UInt32} {calls : SystemCalls}

theorem Change.ready (change : conn.Change data more after) (ready : conn.Ready) : after.Ready := by
  cases change with
  | closed => exact ready_closed ready
  | notified message => exact ready_notified ready message
  | received reads => exact ready_received ready reads.isOpen _ _
  | answered reads => exact ready_answered ready reads.isOpen _ _
  | @repeated _ now reads =>
      have received := ready_received ready reads.isOpen data now
      have opened := isOpen_received conn data now
      exact ready_of_isOpen received opened rfl rfl rfl opened received.started
  | sent opened => exact ready_sent ready opened _
  | drained opened => exact ready_drained ready opened _

theorem Changes.of_change (change : conn.Change data more after) :
    conn.Changes data more after := by
  have changes := Changes.none.more change
  rwa [List.nil_append, Nat.zero_add] at changes

theorem Changes.trans (first : conn.Changes read failures middle)
    (second : middle.Changes data more after) :
    conn.Changes (read ++ data) (failures + more) after := by
  induction second with
  | none => rwa [List.append_nil, Nat.add_zero]
  | more _ change ih =>
      rw [← List.append_assoc, ← Nat.add_assoc]
      exact ih.more change

/-- What every change keeps, for what has been read and has failed by then, some changes keep. -/
theorem Changes.keep (property : Bytes → Nat → Connection → Prop)
    (keeps : ∀ {read : Bytes} {failures : Nat} {conn : Connection} {data : Bytes} {more : Nat}
      {after : Connection}, property read failures conn → conn.Change data more after →
        property (read ++ data) (failures + more) after)
    (changes : conn.Changes data more after) (holds : property read failures conn) :
    property (read ++ data) (failures + more) after := by
  induction changes with
  | none => rwa [List.append_nil, Nat.add_zero]
  | more _ change ih =>
      rw [← List.append_assoc, ← Nat.add_assoc]
      exact keeps ih change

theorem Changes.keep_connection {property : Connection → Prop}
    (keeps : ∀ {conn : Connection} {data : Bytes} {more : Nat} {after : Connection},
      property conn → conn.Change data more after → property after)
    (changes : conn.Changes data more after) (holds : property conn) : property after := by
  induction changes with
  | none => exact holds
  | more _ change ih => exact keeps ih change

theorem Changes.ready (changes : conn.Changes data more after) (ready : conn.Ready) :
    after.Ready :=
  changes.keep_connection (fun ready change => change.ready ready) ready

/-! ## The handlers -/

theorem changes_close (ready : conn.Ready) (final : (Connection.close conn).Final after) :
    conn.Changes [] 0 after := by
  by_cases opened : conn.IsOpen
  · rw [close_of_open opened ready.unlocked] at final
    cases final
    exact .of_change .closed
  · rw [close_of_closed opened] at final
    cases final
    exact .none

theorem ReadThrows.completes {socketRead : SocketRead} (throws : conn.ReadThrows socketRead epoll) :
    conn.Reads ∧ conn.Completes socketRead.data ∧ socketRead.data ≠ [] := by
  cases socketRead with
  | received data nonempty =>
      cases epoll with
      | done => exact throws.elim
      | failed => exact ⟨throws.1, throws.2, nonempty⟩
  | endOfFile | failed => exact throws.elim

theorem changes_handleReadable {socketRead : SocketRead} (ready : conn.Ready)
    (final : (handleReadable socketRead now epoll conn).Final after) :
    conn.Changes (if conn.Reads then socketRead.data else [])
      (if conn.ReadThrows socketRead epoll then 1 else 0) after := by
  have ends := handleReadable_outcome ready.hasHandler ready.unlocked socketRead now epoll
  have told (silent : ¬(conn.Reads ∧ conn.Completes socketRead.data ∧ socketRead.data ≠ [])) :
      ¬conn.ReadThrows socketRead epoll := mt ReadThrows.completes silent
  generalize handleReadable socketRead now epoll conn = outcome at ends final
  cases ends with
  | ignored notOpen =>
      cases final
      have notReads := mt Reads.isOpen notOpen
      rw [if_neg notReads, if_neg (told fun throws => notReads throws.1)]
      exact .none
  | refused _ notReads =>
      cases final
      rw [if_neg notReads, if_neg (told fun throws => notReads throws.1)]
      exact .of_change .closed
  | endOfFile | wouldBlock =>
      cases final
      rw [SocketRead.data, ite_self, if_neg (told fun throws => throws.2.2 rfl)]
      exact .of_change .closed
  | failed =>
      cases final
      rw [SocketRead.data, ite_self, if_neg (told fun throws => throws.2.2 rfl)]
      exact (Changes.of_change (.notified _)).more .closed
  | overflow | noRoom => exact final.elim
  | incomplete reads room notComplete =>
      cases final
      rw [if_pos reads, if_neg (told fun throws => notComplete throws.2.1)]
      exact .of_change (.received reads room notComplete)
  | answered reads room completes takes =>
      cases final
      rw [if_pos reads]
      exact .of_change (.answered reads room completes takes)
  | unwatched reads room completes takes =>
      cases final
      simp only [ReadThrows, SocketRead.data, reads, completes, and_self, if_true]
      exact .of_change (.repeated reads room completes takes)

theorem changes_handleWritable {write : SocketWrite} (ready : conn.Ready)
    (final : (handleWritable write epoll conn).Final after) : conn.Changes [] 0 after := by
  rw [handleWritable_of_handler ready.hasHandler] at final
  have ends := defaultHandleWrite_outcome ready.unlocked write epoll
  generalize defaultHandleWrite write epoll conn = outcome at ends final
  have opened (unwritten : conn.writeBuffer ≠ []) : conn.IsOpen :=
    not_not.mp (mt ready.nothingToWrite unwritten)
  cases ends with
  | nothing | none | wouldBlock =>
      cases final
      exact .none
  | part positive short =>
      cases final
      exact .of_change (.sent (opened (List.length_pos_iff.mp (Nat.lt_trans positive short))))
  | all unwritten isLast =>
      cases final
      exact .of_change (.drained (opened unwritten) isLast)
  | unwatched unwritten _ =>
      cases final
      exact .of_change (.sent (opened unwritten))
  | failed => exact final.elim
  | failedLate unwritten notOpen => exact absurd (opened unwritten) notOpen

theorem changes_handleError (ready : conn.Ready) (final : (handleError conn).Final after) :
    conn.Changes [] 0 after := by
  rw [handleError_of_handler ready.hasHandler] at final
  exact (Changes.of_change (.notified _)).trans (changes_close (ready_notified ready _) final)

/-! ## Turns -/

theorem final_onAny {flags : UInt32} {handler : Op PUnit}
    (final : (onAny events flags handler conn).Final after) :
    EventLoop.Any events flags ∧ (handler conn).Final after ∨
      ¬EventLoop.Any events flags ∧ conn = after := by
  rw [onAny] at final
  split at final
  next runs => exact .inl ⟨runs, final⟩
  next skips => exact .inr ⟨skips, final⟩

/-- The callback after its read handler. -/
theorem changes_writeAndError (ready : conn.Ready)
    (final : ((do
      onAny events EventLoop.epollWrite (handleWritable calls.write calls.writeEpoll)
      onAny events EventLoop.epollError handleError : Op PUnit) conn).Final after) :
    conn.Changes [] 0 after := by
  have writes {middle : Connection}
      (final : (onAny events EventLoop.epollWrite
        (handleWritable calls.write calls.writeEpoll) conn).Final middle) :
      conn.Changes [] 0 middle := by
    rcases final_onAny final with ⟨-, writes⟩ | ⟨-, rfl⟩
    · exact changes_handleWritable ready writes
    · exact .none
  rcases final_bind_cases final with ⟨⟨⟩, middle, returns, errors⟩ | ⟨error, throws⟩
  · have toMiddle : conn.Changes [] 0 middle := writes (by rw [returns]; rfl)
    rcases final_onAny errors with ⟨-, closes⟩ | ⟨-, rfl⟩
    · exact toMiddle.trans (changes_handleError (toMiddle.ready ready) closes)
    · exact toMiddle
  · exact writes (by rw [throws]; rfl)

/-- **A turn comes to some changes**, in which what is read is read, and the responses are repeated
that the event loop could not be told of. -/
theorem changes_turn {action : Turn} (ready : conn.Ready)
    (taken : conn.turn action = some after) :
    conn.Changes (conn.readIn action) (conn.failuresIn action) after := by
  cases action with
  | close => exact changes_close ready (Outcome.ending_eq_some_iff.mp taken)
  | event events calls =>
      have final : (callback events calls conn).Final after := Outcome.ending_eq_some_iff.mp taken
      have reads {middle : Connection}
          (final : (onAny events EventLoop.epollRead
            (handleReadable calls.read calls.now calls.readEpoll) conn).Final middle) :
          conn.Changes (conn.readIn (.event events calls))
            (conn.failuresIn (.event events calls)) middle := by
        rw [readIn, failuresIn]
        rcases final_onAny final with ⟨runs, reads⟩ | ⟨skips, rfl⟩
        · simpa only [runs, true_and] using changes_handleReadable ready reads
        · rw [if_neg fun both => skips both.1, if_neg fun both => skips both.1]
          exact .none
      rcases final_bind_cases final with ⟨⟨⟩, middle, returns, rest⟩ | ⟨error, throws⟩
      · have toMiddle := reads (by rw [returns]; rfl)
        have changes := toMiddle.trans (changes_writeAndError (toMiddle.ready ready) rest)
        rwa [List.append_nil] at changes
      · exact reads (by rw [throws]; rfl)

end Connection

end PPServer.Net
