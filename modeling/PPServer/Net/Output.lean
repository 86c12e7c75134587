import PPServer.Library.Fifo
import PPServer.Net.Outcomes

/-!
# Output

What a connection has to write waits in `write_buffer_`: `WriteData` appends to it, and
`DefaultHandleWrite` erases from its front as many bytes as `write` has taken.  The bytes that
the socket has taken so far, followed by those that wait, only ever grow at the end.
-/

namespace PPServer.Net

open Locking Transition Fifo

/-- The operations on the output of a connection. -/
inductive OutputAction where
  | writeData (data : Bytes) (epoll : EpollMod)
  | defaultHandleWrite (write : SocketWrite) (epoll : EpollMod)

/-- What `WriteData` is given. -/
def OutputAction.data : OutputAction → Bytes
  | .writeData data _ => data
  | .defaultHandleWrite _ _ => []

/-- The bytes that the socket has taken. -/
def Effect.sentBytes : Effect → Bytes
  | .sent data => data
  | _ => []

namespace Connection

variable {conn after last : Connection} {data : Bytes} {write : SocketWrite} {epoll : EpollMod}
variable {actions : List OutputAction}

/-- The bytes that the socket has taken from the connection, followed by those that wait. -/
def output (conn : Connection) : Bytes :=
  conn.effects.flatMap Effect.sentBytes ++ conn.writeBuffer

/-- The connection that a call leaves behind if it returns and does not close it. -/
def stillOpen {α : Type} : Outcome Exception Connection α → Option Connection
  | .returned _ after => if after.IsOpen then some after else none
  | .threw _ _ | .deadlocked _ => none

theorem stillOpen_eq_some_iff {α : Type} {outcome : Outcome Exception Connection α} :
    stillOpen outcome = some after ↔ ∃ value, outcome = .returned value after ∧ after.IsOpen := by
  cases outcome with
  | returned value state =>
      by_cases opened : state.IsOpen
      · simp only [stillOpen, if_pos opened, Option.some.injEq, Outcome.returned.injEq]
        exact ⟨fun same => ⟨value, ⟨rfl, same⟩, same ▸ opened⟩, fun ⟨_, ⟨_, same⟩, _⟩ => same⟩
      · simp only [stillOpen, if_neg opened, Outcome.returned.injEq]
        refine iff_of_false (Option.some_ne_none after).symm ?_
        rintro ⟨_, ⟨_, rfl⟩, opened'⟩
        exact opened opened'
  | threw | deadlocked => simp [stillOpen]

/-- One operation, `none` if it does not return or closes the connection. -/
def outputStep (conn : Connection) : OutputAction → Option Connection
  | .writeData data epoll => stillOpen (writeData data epoll conn)
  | .defaultHandleWrite write epoll => stillOpen (defaultHandleWrite write epoll conn)

/-- A call that does not wait for ever found the mutex free. -/
theorem free_of_lockGuard_returned {α : Type} {body : Op α} {value : α}
    (returns : lockGuard bufferMutex body conn = .returned value after) :
    conn.bufferMutexHeld = false := by
  cases held : conn.bufferMutexHeld with
  | false => rfl
  | true =>
      rw [lockGuard_of_held held] at returns
      cases returns

/-- `WriteData` on a connection that stays open takes in its data whole, and returns their
length. -/
theorem writeData_of_open {value : Int}
    (returns : writeData data epoll conn = .returned value after) (opened : after.IsOpen) :
    value = data.length ∧ after.output = conn.output ++ data := by
  have ends := writeData_outcome (free_of_lockGuard_returned returns) data epoll
  rw [returns] at ends
  cases ends with
  | nothing noData empty => simp [noData]
  | wrote nonempty => simp [output, wrote, Effect.sentBytes]
  | overflowLate closed => exact absurd opened closed

/-- `DefaultHandleWrite` moves bytes from the buffer to the socket. -/
theorem output_of_defaultHandleWrite
    (returns : defaultHandleWrite write epoll conn = .returned ⟨⟩ after)
    (opened : after.IsOpen) : after.output = conn.output := by
  have ends := defaultHandleWrite_outcome (free_of_lockGuard_returned returns) write epoll
  rw [returns] at ends
  cases ends with
  | nothing empty | none unwritten | wouldBlock unwritten => rfl
  | part positive isPart => simp [output, sent, Effect.sentBytes]
  | @all count unwritten whole =>
      have called : (if conn.hasWriteCallback then [Effect.writeCallback] else []).flatMap
          Effect.sentBytes = [] := by
        split <;> rfl
      simp [output, drained, sent, Effect.sentBytes, called]
  | failedLate unwritten closed => exact absurd opened closed

theorem keepsOrder_output :
    KeepsOrder outputStep (fun _ => True) OutputAction.data (fun _ => []) output := by
  intro conn action next _ taken
  cases action with
  | writeData data epoll =>
      rcases stillOpen_eq_some_iff.mp taken with ⟨value, returns, opened⟩
      exact (writeData_of_open returns opened).2
  | defaultHandleWrite write epoll =>
      rcases stillOpen_eq_some_iff.mp taken with ⟨⟨⟩, returns, opened⟩
      rw [output_of_defaultHandleWrite returns opened]
      exact (List.append_nil _).symm

/-- **Output is a faithful queue.**  As long as calls return and leave the connection open, the
bytes that the socket takes, followed by `write_buffer_`, grow by what `WriteData` is given, in
order; and every `WriteData` returns the length of its data. -/
theorem output_in_order (ran : run outputStep conn actions = some last) :
    last.output = conn.output ++ actions.flatMap OutputAction.data ∧
      ∀ current data epoll next,
        Takes outputStep conn actions current (.writeData data epoll) next →
          writeData data epoll current = .returned (data.length : Int) next := by
  constructor
  · exact keepsOrder_output.put_of_taken_nil ran fun _ _ => trivial
  · intro current data epoll next takes
    rcases stillOpen_eq_some_iff.mp takes.taken with ⟨value, returns, opened⟩
    rw [returns, (writeData_of_open returns opened).1]

/-- Two partial writes, with more data and a write that would block between them. -/
def partialWrites : List OutputAction :=
  [.writeData (bytes "abc") .done, .defaultHandleWrite (.accepted 2) .done,
    .writeData (bytes "de") .done,
    .defaultHandleWrite (.failed true (bytes "Resource temporarily unavailable")) .done,
    .defaultHandleWrite (.accepted 2) .done]

theorem output_in_order_partialWrites :
    ∃ last, run outputStep (new 5 0) partialWrites = some last ∧ last.writeBuffer = bytes "e" ∧
      last.output = (new 5 0).output ++ partialWrites.flatMap OutputAction.data :=
  ⟨_, rfl, rfl, (output_in_order (rfl : run outputStep (new 5 0) partialWrites = _)).1⟩

end Connection

end PPServer.Net
