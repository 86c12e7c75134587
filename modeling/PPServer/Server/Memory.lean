import Mathlib.Algebra.BigOperators.Ring.List
import Mathlib.Algebra.Order.BigOperators.Group.List
import Mathlib.Algebra.Order.Ring.Nat
import Mathlib.Algebra.Ring.Nat
import PPServer.Library.Variant
import PPServer.Net.Changes
import PPServer.Server.Isolation

/-!
# What the server keeps in memory

Between steps neither buffer of a connection is longer than `max_buffer_size_`, and those of a
connection that is closed are empty.  So what the clients have sent and not seen answered takes no
more memory than two full buffers for each open connection, whatever they send.
-/

namespace PPServer.Net.Connection

variable {conn after : Connection} {data : Bytes} {failures : Nat}

/-- The bytes in the buffers. -/
def buffered (conn : Connection) : Nat := conn.readBuffer.length + conn.writeBuffer.length

/-- The buffers are within their limit, and empty if the connection is closed. -/
structure WithinLimit (limit : Nat) (conn : Connection) : Prop where
  ready : conn.Ready
  maxBufferSize : conn.maxBufferSize = limit
  readBuffer : conn.readBuffer.length ≤ limit
  writeBuffer : conn.writeBuffer.length ≤ limit
  nothingRead : ¬conn.IsOpen → conn.readBuffer = []

variable {limit : Nat}

theorem length_received_le (room : conn.TakesIn data) (now : Nat) :
    (conn.received data now).readBuffer.length ≤ conn.maxBufferSize := by
  rwa [received, List.length_append]

theorem length_queued_le (takes : conn.TakesResponse) :
    (conn.writeBuffer ++ Handler.response).length ≤ conn.maxBufferSize := by
  rwa [List.length_append]

theorem WithinLimit.change (within : conn.WithinLimit limit)
    (change : conn.Change data failures after) : after.WithinLimit limit := by
  have ready := change.ready within.ready
  have maxBufferSize := within.maxBufferSize
  cases change with
  | closed => exact ⟨ready, maxBufferSize, Nat.zero_le _, Nat.zero_le _, fun _ => rfl⟩
  | notified =>
      exact ⟨ready, maxBufferSize, within.readBuffer, within.writeBuffer, within.nothingRead⟩
  | @received data now _ room =>
      refine ⟨ready, maxBufferSize, ?_, within.writeBuffer, ?_⟩
      · rw [← maxBufferSize]
        exact length_received_le room now
      · exact fun closed => absurd (isOpen_received conn data now) closed
  | answered _ _ _ takes =>
      exact ⟨ready, maxBufferSize, Nat.zero_le _, maxBufferSize ▸ length_queued_le takes,
        fun _ => rfl⟩
  | @repeated data now _ room _ takes =>
      refine ⟨ready, maxBufferSize, ?_, maxBufferSize ▸ length_queued_le takes, ?_⟩
      · rw [← maxBufferSize]
        exact length_received_le room now
      · exact fun closed => absurd (isOpen_received conn data now) closed
  | sent =>
      exact ⟨ready, maxBufferSize, within.readBuffer,
        (List.drop_sublist ..).length_le.trans within.writeBuffer, within.nothingRead⟩
  | drained =>
      exact ⟨ready, maxBufferSize, within.readBuffer,
        (List.drop_sublist ..).length_le.trans within.writeBuffer,
        fun closed => absurd (isOpen_drained conn _) closed⟩

theorem WithinLimit.turn {action : Turn} (within : conn.WithinLimit limit)
    (taken : conn.turn action = some after) : after.WithinLimit limit :=
  (changes_turn within.ready taken).keep_connection WithinLimit.change within

theorem WithinLimit.buffered_le (within : conn.WithinLimit limit) :
    conn.buffered ≤ 2 * limit * (decide conn.IsOpen).toNat := by
  by_cases opened : conn.IsOpen
  · have readBuffer := within.readBuffer
    have writeBuffer := within.writeBuffer
    simp only [buffered, opened, decide_true, Bool.toNat_true]
    omega
  · simp [buffered, within.nothingRead opened, within.ready.nothingToWrite opened]

end PPServer.Net.Connection

namespace PPServer.Server.WebServer

open EventLoop Net Transition

variable {config : Config} {server : WebServer}

/-- **Memory is bounded by the open connections.**  At any time the clients of the server have no
more than two buffers of 1 MiB each in memory for each connection that is open. -/
theorem buffered_le_of_run {listenFd : Int} {actions : List Action}
    (ran : run (step config) (started listenFd) actions = some server) :
    (server.clients.map Connection.buffered).sum ≤
      2 * 1048576 * server.clients.countP fun conn => conn.IsOpen := by
  have start (conn : Connection) (made : Made conn) : conn.WithinLimit 1048576 := by
    cases made with
    | started fd now valid =>
        exact ⟨ready_newClient valid now, rfl, Nat.zero_le _, Nat.zero_le _, fun _ => rfl⟩
    | lost fd now _ =>
        exact ⟨ready_lostClient fd now, rfl, Nat.zero_le _, Nat.zero_le _, fun _ => rfl⟩
  have keeps : Keeps Connection.turn (fun _ => True) (Connection.WithinLimit 1048576) :=
    fun _ _ _ _ taken within => within.turn taken
  have within := forall_clients_of_run start keeps ran
  rw [← sum_map_toNat, ← List.sum_map_mul_left]
  apply List.sum_le_sum
  intro conn member
  rcases List.mem_iff_getElem?.mp member with ⟨id, client⟩
  exact (within id conn client).buffered_le

/-- One client sends a part of a request, another one hangs up. -/
def part : List Action :=
  [.arrive, .arrive,
    .ioEvent 3 epollRead ⟨.accepted 7, none, .done, 1⟩ ⟨.endOfFile, .done, .accepted 0, .done, 1⟩,
    .ioEvent 3 epollRead ⟨.accepted 8, none, .done, 2⟩ ⟨.endOfFile, .done, .accepted 0, .done, 2⟩,
    .ioEvent 7 epollRead ⟨.wouldBlock, none, .done, 3⟩
      ⟨.received (bytes "PUT / HTTP/1.1\r\n") (by decide) (by decide),
        .done, .accepted 0, .done, 3⟩,
    .ioEvent 8 epollRead ⟨.wouldBlock, none, .done, 4⟩ ⟨.endOfFile, .done, .accepted 0, .done, 4⟩]

set_option maxRecDepth 4096 in
theorem buffered_le_of_run_part :
    ∃ server, run (step {}) (started 3) part = some server ∧
      (server.clients.map Connection.buffered).sum = 16 ∧
      (server.clients.map Connection.buffered).sum ≤
        2 * 1048576 * server.clients.countP fun conn => conn.IsOpen := by
  have ran : ∃ server, run (step {}) (started 3) part = some server ∧
      (server.clients.map Connection.buffered).sum = 16 :=
    ⟨_, rfl, rfl⟩
  rcases ran with ⟨server, ran, sixteen⟩
  exact ⟨server, ran, sixteen, buffered_le_of_run ran⟩

end PPServer.Server.WebServer
