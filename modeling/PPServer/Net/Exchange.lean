import Mathlib.Algebra.GroupWithZero.Nat
import PPServer.Library.Simulation
import PPServer.Net.Changes
import PPServer.Net.Output
import PPServer.Net.Pipelining

/-!
# What a client gets for what it sends

Over any turns the bytes that are read fall into requests, each of which contains the end of a
header, and a rest.  A response is queued for each request, and the client gets nothing but these
responses, one after another, up to where the connection is closed.  Where the event loop cannot be
told of a response, the request is kept in the rest, and answered again.
-/

namespace PPServer.Net

open Locking Transition

/-- The response, so many times. -/
def Handler.responses (count : Nat) : Bytes := (List.replicate count response).flatten

theorem Handler.responses_succ (count : Nat) :
    responses (count + 1) = responses count ++ response := by
  rw [responses, List.replicate_succ', List.flatten_append, List.flatten_singleton, responses]

namespace Connection

/-- The bytes that the socket has taken. -/
def sentBytes (conn : Connection) : Bytes := conn.effects.flatMap Effect.sentBytes

/-- The bytes read fall into requests that have been answered, and a rest.  The `surplus` are
responses that the event loop could not be told of, to requests that are answered once more. -/
structure Exchange (read : Bytes) (requests : List Bytes) (rest : Bytes) (surplus : Nat)
    (conn : Connection) : Prop where
  read : read = requests.flatten ++ rest
  complete : ∀ request ∈ requests, headerEnd <:+: request
  incomplete : surplus = 0 → ¬headerEnd <:+: rest
  sent : conn.sentBytes <+: Handler.responses (requests.length + surplus)
  opened : conn.IsOpen → conn.readBuffer = rest ∧
    conn.output = Handler.responses (requests.length + surplus)

variable {conn middle after : Connection} {read rest data : Bytes} {requests : List Bytes}
variable {now count surplus failures more : Nat}

/-! ## What an operation leaves of the exchange -/

theorem sentBytes_closed (conn : Connection) : conn.closed.sentBytes = conn.sentBytes := by
  have quiet : (Effect.removeFd conn.socketFd ::
      ((if 0 ≤ conn.socketFd then [Effect.closeSocket conn.socketFd] else []) ++
        if conn.hasHandler then [Effect.onDisconnection] else [])).flatMap
          Effect.sentBytes = [] := by
    split <;> split <;> rfl
  rw [sentBytes, closed, List.flatMap_append, quiet, List.append_nil, sentBytes]

theorem sentBytes_notified (conn : Connection) (message : Bytes) :
    (conn.notified message).sentBytes = conn.sentBytes := by
  have quiet : (Effect.error conn.socketFd message ::
      if conn.hasErrorCallback then [Effect.errorCallback message] else []).flatMap
        Effect.sentBytes = [] := by
    split <;> rfl
  rw [sentBytes, notified, List.flatMap_append, quiet, List.append_nil, sentBytes]

theorem output_sent (conn : Connection) (count : Nat) : (conn.sent count).output = conn.output := by
  simp [output, sent, Effect.sentBytes]

theorem output_drained (conn : Connection) (count : Nat) :
    (conn.drained count).output = conn.output := by
  have called : (if conn.hasWriteCallback then [Effect.writeCallback] else []).flatMap
      Effect.sentBytes = [] := by
    split <;> rfl
  simp [output, drained, sent, Effect.sentBytes, called]

theorem output_answered (conn : Connection) (data : Bytes) (now : Nat) :
    (conn.answered data now).output = conn.output ++ Handler.response := by
  simp [output, answered, received, wrote, Effect.sentBytes]

/-- What the socket has taken is a part of the output. -/
theorem sent_of_output (isOutput : conn.output = Handler.responses count) :
    conn.sentBytes <+: Handler.responses count :=
  isOutput ▸ List.prefix_append _ conn.writeBuffer

theorem Exchange.closed (exchange : Exchange read requests rest surplus conn) :
    Exchange read requests rest surplus conn.closed where
  read := exchange.read
  complete := exchange.complete
  incomplete := exchange.incomplete
  sent := sentBytes_closed conn ▸ exchange.sent
  opened opened := absurd opened (not_isOpen_closed conn)

theorem Exchange.notified (exchange : Exchange read requests rest surplus conn) (message : Bytes) :
    Exchange read requests rest surplus (conn.notified message) where
  read := exchange.read
  complete := exchange.complete
  incomplete := exchange.incomplete
  sent := sentBytes_notified conn message ▸ exchange.sent
  opened opened := by
    have isOutput : (conn.notified message).output = conn.output :=
      congrArg (· ++ conn.writeBuffer) (sentBytes_notified conn message)
    rw [isOutput]
    exact exchange.opened opened

/-- An open connection that has taken nothing in, and has sent some of its output. -/
theorem Exchange.of_output (exchange : Exchange read requests rest surplus conn)
    (opened : conn.IsOpen) (readBuffer : after.readBuffer = conn.readBuffer)
    (isOutput : after.output = conn.output) :
    Exchange read requests rest surplus after where
  read := exchange.read
  complete := exchange.complete
  incomplete := exchange.incomplete
  sent := sent_of_output (isOutput.trans (exchange.opened opened).2)
  opened _ := ⟨readBuffer.trans (exchange.opened opened).1,
    isOutput.trans (exchange.opened opened).2⟩

theorem Exchange.received (exchange : Exchange read requests rest surplus conn)
    (opened : conn.IsOpen) (incomplete : ¬conn.Completes data) :
    Exchange (read ++ data) requests (rest ++ data) surplus (conn.received data now) where
  read := by rw [exchange.read, List.append_assoc]
  complete := exchange.complete
  incomplete _ := (exchange.opened opened).1 ▸ incomplete
  sent := exchange.sent
  opened _ := ⟨congrArg (· ++ data) (exchange.opened opened).1, (exchange.opened opened).2⟩

theorem Exchange.answered (exchange : Exchange read requests rest surplus conn)
    (opened : conn.IsOpen) (completes : conn.Completes data) :
    Exchange (read ++ data) (requests ++ [rest ++ data]) [] surplus (conn.answered data now) := by
  rcases exchange.opened opened with ⟨readBuffer, isOutput⟩
  have isOutput' : (conn.answered data now).output =
      Handler.responses ((requests ++ [rest ++ data]).length + surplus) := by
    rw [output_answered, isOutput, ← Handler.responses_succ, List.length_append,
      List.length_singleton, Nat.add_right_comm]
  constructor
  case read => simp [exchange.read]
  case complete =>
    intro request member
    rcases List.mem_append.mp member with earlier | isLast
    · exact exchange.complete request earlier
    · rw [List.mem_singleton] at isLast
      rw [isLast, ← readBuffer]
      exact completes
  case incomplete => exact fun _ => by decide
  case sent => exact sent_of_output isOutput'
  case opened => exact fun _ => ⟨rfl, isOutput'⟩

/-- A response is queued, and the request kept. -/
theorem Exchange.repeated (exchange : Exchange read requests rest surplus conn)
    (opened : conn.IsOpen) :
    Exchange (read ++ data) requests (rest ++ data) (surplus + 1)
      ((conn.received data now).queued Handler.response) := by
  rcases exchange.opened opened with ⟨readBuffer, isOutput⟩
  have isOutput' : ((conn.received data now).queued Handler.response).output =
      Handler.responses (requests.length + (surplus + 1)) := by
    rw [← Nat.add_assoc, Handler.responses_succ, ← isOutput]
    simp [output, Connection.received, queued]
  constructor
  case read => rw [exchange.read, List.append_assoc]
  case complete => exact exchange.complete
  case incomplete => exact fun none => absurd none (Nat.succ_ne_zero surplus)
  case sent => exact sent_of_output isOutput'
  case opened => exact fun _ => ⟨congrArg (· ++ data) readBuffer, isOutput'⟩

/-! ## Turns -/

/-- The exchange of a connection that the event loop may call. -/
structure Exchanges (read : Bytes) (failures : Nat) (conn : Connection) : Prop where
  ready : conn.Ready
  exchange : ∃ requests rest, Exchange read requests rest failures conn

/-- A change answers the request that it completes. -/
theorem Exchanges.change (exchanges : conn.Exchanges read failures)
    (change : conn.Change data more after) : after.Exchanges (read ++ data) (failures + more) := by
  refine ⟨change.ready exchanges.ready, ?_⟩
  rcases exchanges.exchange with ⟨requests, rest, exchange⟩
  cases change with
  | closed =>
      rw [List.append_nil]
      exact ⟨requests, rest, exchange.closed⟩
  | notified message =>
      rw [List.append_nil]
      exact ⟨requests, rest, exchange.notified message⟩
  | received reads _ notComplete =>
      exact ⟨requests, _, exchange.received reads.isOpen notComplete⟩
  | answered reads _ completes _ => exact ⟨_, [], exchange.answered reads.isOpen completes⟩
  | repeated reads => exact ⟨requests, _, exchange.repeated reads.isOpen⟩
  | sent opened =>
      rw [List.append_nil]
      exact ⟨requests, rest, exchange.of_output opened rfl (output_sent conn _)⟩
  | drained opened _ =>
      rw [List.append_nil]
      exact ⟨requests, rest, exchange.of_output opened rfl (output_drained conn _)⟩

theorem Exchanges.turn {action : Turn} (exchanges : conn.Exchanges read failures)
    (taken : Connection.turn conn action = some after) :
    after.Exchanges (read ++ conn.readIn action) (failures + conn.failuresIn action) :=
  (changes_turn exchanges.ready taken).keep Exchanges Exchanges.change exchanges

/-- The bytes that are read from the socket over some turns. -/
def readAlong (conn : Connection) (turns : List Turn) : Bytes := seenAlong turn readIn conn turns

/-- How often over some turns the event loop cannot be told of a response that is queued. -/
def failuresAlong (conn : Connection) (turns : List Turn) : Nat :=
  (seenAlong turn (fun conn action => [conn.failuresIn action]) conn turns).sum

/-- **One response to each request.**  Over any turns, the bytes that are read fall into requests
and a rest, and a response is queued for each request, and one more for each time that the event
loop could not be told of one. -/
theorem Exchanges.run {turns : List Turn} (exchanges : conn.Exchanges read failures)
    (ran : Transition.run Connection.turn conn turns = some after) :
    after.Exchanges (read ++ conn.readAlong turns) (failures + conn.failuresAlong turns) := by
  induction turns generalizing conn read failures with
  | nil =>
      rw [run_nil_iff] at ran
      rw [readAlong, failuresAlong, seenAlong, List.append_nil]
      exact ran ▸ exchanges
  | cons action turns ih =>
      rcases run_cons_iff.mp ran with ⟨next, taken, ran⟩
      rw [readAlong, failuresAlong, seenAlong_cons taken, seenAlong_cons taken,
        ← List.append_assoc, List.singleton_append, List.sum_cons, ← Nat.add_assoc]
      exact ih (exchanges.turn taken) ran

end Connection

end PPServer.Net
