import PPServer.Server.Registrations

/-!
# Waiting to write

Three members of the server say whether a connection has something to write: `state_`,
`write_buffer_` and the events that epoll watches on its descriptor.  They are changed one after
another by the operations that move bytes, which may write a part or fail, and agree again
whenever one of them has come to an end.
-/

namespace PPServer.Server

open Locking Net EventLoop

/-- The operations that move bytes. -/
inductive Transfer where
  | readData (read : SocketRead) (now : Nat)
  /-- `refusal` is the text of `errno` if `epoll_ctl` fails. -/
  | writeData (data refusal : Bytes)
  | defaultHandleWrite (write : SocketWrite) (refusal : Bytes)

/-- `epoll_ctl(EPOLL_CTL_MOD)` succeeds on the descriptor that is registered, and fails on -1. -/
def epollMod (fd : Int) (refusal : Bytes) : EpollMod :=
  if 0 ≤ fd then .done else .failed refusal

def Transfer.run : Transfer → Connection.Op PUnit
  | .readData read now => Connection.discard (Connection.readData read now)
  | .writeData data refusal => do
      let conn ← get
      Connection.discard (Connection.writeData data (epollMod conn.socketFd refusal))
  | .defaultHandleWrite write refusal => do
      let conn ← get
      Connection.defaultHandleWrite write (epollMod conn.socketFd refusal)

namespace WebServer

variable {config : Config} {server next : WebServer} {id : Nat} {conn after : Connection}
variable {fd : Int} {transfer : Transfer}

/-- One operation on a connection, `none` if it does not come to an end. -/
def transferStep (id : Nat) (server : WebServer) (transfer : Transfer) : Option WebServer :=
  (onClient id transfer.run server).ending

/-! ## What the operations keep -/

/-- A connection whose three members agree, if it is open. -/
structure Attuned (server : WebServer) (conn : Connection) : Prop where
  unlocked : conn.Unlocked
  isOpen_iff : conn.IsOpen ↔ 0 ≤ conn.socketFd
  writing : conn.IsOpen → (conn.state = .writing ↔ conn.writeBuffer ≠ [])
  watched : conn.IsOpen → ∃ events,
    server.descriptors.interest.lookup conn.socketFd = some events ∧
      (Any events epollOut ↔ conn.writeBuffer ≠ [])

theorem Attuned.closed (attuned : server.Attuned conn) : next.Attuned conn.closed where
  unlocked := attuned.unlocked
  isOpen_iff := by
    refine iff_of_false (Connection.not_isOpen_closed conn) ?_
    simp only [Connection.closed]
    split <;> omega
  writing opened := absurd opened (Connection.not_isOpen_closed conn)
  watched opened := absurd opened (Connection.not_isOpen_closed conn)

theorem Attuned.notified (attuned : server.Attuned conn) (message : Bytes) :
    server.Attuned (conn.notified message) :=
  ⟨attuned.unlocked, attuned.isOpen_iff, attuned.writing, attuned.watched⟩

/-- On a closed connection nothing needs to agree. -/
theorem Attuned.of_closed (attuned : server.Attuned conn) (closed : ¬conn.IsOpen)
    (state : after.state = conn.state) (socketFd : after.socketFd = conn.socketFd)
    (unlocked : after.bufferMutexHeld = conn.bufferMutexHeld) : next.Attuned after := by
  have same : after.IsOpen ↔ conn.IsOpen := by rw [Connection.IsOpen, state]; rfl
  exact
    { unlocked := unlocked.trans attuned.unlocked
      isOpen_iff := by rw [same, socketFd, attuned.isOpen_iff]
      writing := fun opened => absurd (same.mp opened) closed
      watched := fun opened => absurd (same.mp opened) closed }

/-- An operation that leaves the connection open, and sets the members that it changes alike. -/
theorem Attuned.of_open (attuned : server.Attuned conn) (opened : conn.IsOpen)
    (isOpen : after.IsOpen) (socketFd : after.socketFd = conn.socketFd)
    (unlocked : after.bufferMutexHeld = conn.bufferMutexHeld)
    (writing : after.state = .writing ↔ after.writeBuffer ≠ [])
    (watched : ∃ events, next.descriptors.interest.lookup conn.socketFd = some events ∧
      (Any events epollOut ↔ after.writeBuffer ≠ [])) : next.Attuned after where
  unlocked := unlocked.trans attuned.unlocked
  isOpen_iff := iff_of_true isOpen (socketFd ▸ attuned.isOpen_iff.mp opened)
  writing _ := writing
  watched _ := socketFd ▸ watched

/-! ## Reading -/

theorem lookup_settle {new : List Effect} (effects : after.effects = conn.effects ++ new) :
    (server.settle id conn after).descriptors.interest.lookup fd =
      (new.foldl perform (server.replace id after)).descriptors.interest.lookup fd := by
  rw [settle, effects, List.drop_left]
  rfl

theorem Attuned.received (attuned : server.Attuned conn) (reads : conn.Reads) (data : Bytes)
    (now : Nat) (id : Nat) :
    (server.settle id conn (conn.received data now)).Attuned (conn.received data now) := by
  have empty : conn.writeBuffer = [] := by
    by_contra pending
    have state := (attuned.writing reads.isOpen).mpr pending
    rcases reads with other | other <;> simp [state] at other
  refine attuned.of_open reads.isOpen (Connection.isOpen_received conn data now) rfl rfl ?_ ?_
  · exact iff_of_false (by simp [Connection.received]) (not_not.mpr empty)
  · have effects : (conn.received data now).effects = conn.effects ++ [] :=
      (List.append_nil _).symm
    rw [lookup_settle effects]
    exact attuned.watched reads.isOpen

theorem Attuned.readData (attuned : server.Attuned conn)
    (client : server.clients[id]? = some conn) (read : SocketRead) (now : Nat)
    (final : (Connection.readData read now conn).Final after) :
    (server.settle id conn after).Attuned after := by
  by_cases reads : conn.Reads
  case neg =>
    rw [Connection.readData_of_not_reads reads] at final
    cases final
    rwa [settle_self client]
  case pos =>
    cases read with
    | received data nonempty fits =>
        by_cases takesIn : conn.TakesIn data
        · rw [Connection.readData_received reads attuned.unlocked nonempty fits takesIn] at final
          cases final
          exact attuned.received reads data now id
        · have blocks : Deadlocks (Connection.readData (.received data nonempty fits) now) conn :=
            (Connection.deadlocks_readData_iff attuned.unlocked _ _).mpr
              ⟨reads, data, nonempty, fits, rfl, Nat.lt_of_not_le takesIn⟩
          rcases blocks with ⟨blocked, blocks⟩
          rw [blocks] at final
          exact final.elim
    | endOfFile =>
        rw [Connection.readData_endOfFile reads attuned.unlocked] at final
        cases final
        exact attuned.closed
    | failed wouldBlock text =>
        cases wouldBlock with
        | true =>
            rw [Connection.readData_wouldBlock reads] at final
            cases final
            rwa [settle_self client]
        | false =>
            rw [Connection.readData_failed reads attuned.unlocked] at final
            cases final
            exact (attuned.notified _).closed

/-! ## Writing -/

/-- An open connection asks for other events. -/
theorem lookup_updateFd {descriptors : Descriptors Callback} {watched events : UInt32}
    (present : descriptors.interest.lookup fd = some watched) :
    (descriptors.updateFd fd events).interest.lookup fd = some (events ||| epollEt) := by
  have member : fd ∈ descriptors.interest := Finmap.mem_iff.mpr ⟨watched, present⟩
  rw [Descriptors.updateFd, if_pos member, Finmap.lookup_insert]

theorem epollMod_of_open (attuned : server.Attuned conn) (opened : conn.IsOpen)
    (refusal : Bytes) : epollMod conn.socketFd refusal = .done :=
  if_pos (attuned.isOpen_iff.mp opened)

theorem epollMod_of_closed (attuned : server.Attuned conn) (closed : ¬conn.IsOpen)
    (refusal : Bytes) : epollMod conn.socketFd refusal = .failed refusal :=
  if_neg (mt attuned.isOpen_iff.mpr closed)

theorem Attuned.wrote (attuned : server.Attuned conn) (opened : conn.IsOpen) {data : Bytes}
    (nonempty : conn.writeBuffer ++ data ≠ []) (id : Nat) :
    (server.settle id conn (conn.wrote data)).Attuned (conn.wrote data) := by
  rcases attuned.watched opened with ⟨watched, present, -⟩
  refine attuned.of_open opened (by simp [Connection.wrote, Connection.IsOpen]) rfl rfl
    (iff_of_true rfl nonempty) ⟨(epollRead ||| epollWrite) ||| epollEt, ?_, ?_⟩
  · have effects : (conn.wrote data).effects =
        conn.effects ++ [.updateFd conn.socketFd true true] := rfl
    rw [lookup_settle effects]
    exact lookup_updateFd present
  · exact iff_of_true (by decide) nonempty

theorem Attuned.writeData (attuned : server.Attuned conn)
    (client : server.clients[id]? = some conn) (data refusal : Bytes)
    (final : (Connection.writeData data (epollMod conn.socketFd refusal) conn).Final after) :
    (server.settle id conn after).Attuned after := by
  have ends := Connection.writeData_outcome attuned.unlocked data
    (epollMod conn.socketFd refusal)
  generalize Connection.writeData data (epollMod conn.socketFd refusal) conn = outcome at ends final
  by_cases opened : conn.IsOpen
  · rw [epollMod_of_open attuned opened] at ends
    cases ends with
    | nothing => cases final; rwa [settle_self client]
    | wrote nonempty => cases final; exact attuned.wrote opened nonempty id
    | overflow => exact final.elim
    | overflowLate closed => exact absurd opened closed
  · rw [epollMod_of_closed attuned opened] at ends
    cases ends with
    | nothing => cases final; rwa [settle_self client]
    | unwatched => cases final; exact attuned.of_closed opened rfl rfl rfl
    | overflow => exact final.elim
    | overflowLate => cases final; exact attuned.of_closed opened rfl rfl rfl

theorem Attuned.sent (attuned : server.Attuned conn) (opened : conn.IsOpen) {count : Nat}
    (short : count < conn.writeBuffer.length) (id : Nat) :
    (server.settle id conn (conn.sent count)).Attuned (conn.sent count) := by
  have pending : conn.writeBuffer ≠ [] := by
    intro empty
    simp [empty] at short
  have rest : (conn.sent count).writeBuffer ≠ [] :=
    mt List.drop_eq_nil_iff.mp (Nat.not_le.mpr short)
  rcases attuned.watched opened with ⟨watched, present, watches⟩
  refine attuned.of_open opened opened rfl rfl
    (iff_of_true ((attuned.writing opened).mpr pending) rest)
    ⟨watched, ?_, iff_of_true (watches.mpr pending) rest⟩
  have effects : (conn.sent count).effects =
      conn.effects ++ [.sent (conn.writeBuffer.take count)] := rfl
  rw [lookup_settle effects]
  exact present

theorem Attuned.drained (attuned : server.Attuned conn) (opened : conn.IsOpen) {count : Nat}
    (last : conn.writeBuffer.length ≤ count) (id : Nat) :
    (server.settle id conn (conn.drained count)).Attuned (conn.drained count) := by
  have empty : (conn.drained count).writeBuffer = [] := List.drop_eq_nil_iff.mpr last
  rcases attuned.watched opened with ⟨watched, present, -⟩
  refine attuned.of_open opened (Connection.isOpen_drained conn count) rfl rfl
    (iff_of_false (by simp [Connection.drained]) (not_not.mpr empty))
    ⟨(epollRead ||| 0) ||| epollEt, ?_, iff_of_false (by decide) (not_not.mpr empty)⟩
  have effects : (conn.drained count).effects = conn.effects ++
      .sent (conn.writeBuffer.take count) :: .updateFd conn.socketFd true false ::
        if conn.hasWriteCallback then [.writeCallback] else [] := rfl
  rw [lookup_settle effects]
  split <;> exact lookup_updateFd present

theorem Attuned.defaultHandleWrite (attuned : server.Attuned conn)
    (client : server.clients[id]? = some conn) (write : SocketWrite) (refusal : Bytes)
    (final : (Connection.defaultHandleWrite write (epollMod conn.socketFd refusal) conn).Final
      after) : (server.settle id conn after).Attuned after := by
  have ends := Connection.defaultHandleWrite_outcome attuned.unlocked write
    (epollMod conn.socketFd refusal)
  generalize Connection.defaultHandleWrite write (epollMod conn.socketFd refusal) conn =
    outcome at ends final
  by_cases opened : conn.IsOpen
  · rw [epollMod_of_open attuned opened] at ends
    cases ends with
    | nothing | none | wouldBlock => cases final; rwa [settle_self client]
    | part _ short => cases final; exact attuned.sent opened short id
    | all _ last => cases final; exact attuned.drained opened last id
    | failed => exact final.elim
    | failedLate _ closed => exact absurd opened closed
  · rw [epollMod_of_closed attuned opened] at ends
    cases ends with
    | nothing | none | wouldBlock => cases final; rwa [settle_self client]
    | part | unwatched | failedLate =>
        cases final
        exact attuned.of_closed opened rfl rfl rfl
    | failed => exact final.elim

/-! ## Runs -/

theorem Attuned.run (attuned : server.Attuned conn) (client : server.clients[id]? = some conn)
    (final : (transfer.run conn).Final after) : (server.settle id conn after).Attuned after := by
  cases transfer with
  | readData read now =>
      exact attuned.readData client read now (Connection.final_discard_iff.mp final)
  | writeData data refusal =>
      exact attuned.writeData client data refusal (Connection.final_discard_iff.mp final)
  | defaultHandleWrite write refusal =>
      exact attuned.defaultHandleWrite client write refusal final

/-- The connection with this number is attuned, if there is one. -/
def AttunedAt (id : Nat) (server : WebServer) : Prop :=
  ∀ conn, server.clients[id]? = some conn → server.Attuned conn

theorem keeps_attunedAt (id : Nat) :
    Transition.Keeps (transferStep id) (fun _ => True) (AttunedAt id) := by
  intro server transfer next _ taken attuned found isFound
  have ends := Outcome.ending_eq_some_iff.mp taken
  cases client : server.clients[id]? with
  | none =>
      simp only [onClient, client] at ends
      cases ends
      exact attuned found isFound
  | some conn =>
      simp only [onClient, client, final_mapState_iff] at ends
      rcases ends with ⟨after, final, rfl⟩
      have inside : id < server.clients.length := (List.getElem?_eq_some_iff.mp client).1
      rw [settle_clients, List.getElem?_set_self inside] at isFound
      cases isFound
      exact (attuned conn client).run client final

theorem attuned_newClient (valid : 0 ≤ fd) (now : Nat)
    (watched : server.descriptors.interest.lookup fd =
      some ((epollRead ||| epollEt) ||| epollEt)) : server.Attuned (newClient fd now) where
  unlocked := rfl
  isOpen_iff := iff_of_true (isOpen_newClient fd now) valid
  writing _ := iff_of_false (by simp [newClient]) (not_not.mpr rfl)
  watched _ := ⟨_, watched, iff_of_false (by decide) (not_not.mpr rfl)⟩

/-- `HandleNewConnection` leaves the connection that it has made attuned. -/
theorem attunedAt_of_arrival {arrival : Arrival} {set : WebServer} (invariant : server.Invariant)
    (possible : server.Possible arrival.accept)
    (setsUp : handleNewConnection config arrival server = .returned ⟨⟩ set) :
    AttunedAt server.clients.length set := by
  have ends : ArrivalOutcome config server arrival (handleNewConnection config arrival server) :=
    handleNewConnection_outcome invariant.free arrival possible
  rw [setsUp] at ends
  intro conn client
  have isNew {fd : Int} {now : Nat}
      (isClient : (server.registered fd now).clients[server.clients.length]? = some conn) :
      newClient fd now = conn :=
    Option.some_inj.mp (List.getElem?_concat_length.symm.trans isClient)
  cases ends with
  | nothing => simp at client
  | untabled =>
      rw [← isNew client]
      exact attuned_newClient possible.2.1 _ (Finmap.lookup_insert _)
  | added =>
      rw [← isNew client]
      exact attuned_newClient possible.2.1 _ (Finmap.lookup_insert _)

/-- **Waiting to write.**  After `HandleNewConnection` has set up a connection, whenever an
operation on it has come to an end and it is open, it is in `WRITING` exactly if something is
to be written, and exactly then epoll watches its descriptor for that. -/
theorem writing_iff_watched {listenFd : Int} {actions : List Action} {arrival : Arrival}
    {set : WebServer} {transfers : List Transfer}
    (ran : Transition.run (step config) (started listenFd) actions = some server)
    (possible : server.Possible arrival.accept)
    (setsUp : handleNewConnection config arrival server = .returned ⟨⟩ set)
    (moved : Transition.run (transferStep server.clients.length) set transfers = some next)
    (client : next.clients[server.clients.length]? = some conn) (opened : conn.IsOpen) :
    (conn.state = .writing ↔ conn.writeBuffer ≠ []) ∧
      (conn.writeBuffer ≠ [] ↔ ∃ events,
        next.descriptors.interest.lookup conn.socketFd = some events ∧ Any events epollOut) := by
  have start := attunedAt_of_arrival (invariant_of_run ran) possible setsUp
  have attuned := (keeps_attunedAt _).run moved (fun _ _ => trivial) start conn client
  rcases attuned.watched opened with ⟨events, present, watches⟩
  refine ⟨attuned.writing opened, fun pending => ⟨events, present, watches.mpr pending⟩, ?_⟩
  intro asked
  rcases asked with ⟨other, isOther, out⟩
  cases present.symm.trans isOther
  exact watches.mp out

/-- A client asks for something, and half of the answer is written. -/
theorem writing_iff_watched_part :
    ∃ server set next conn,
      Transition.run (step {}) (started 3) [.arrive] = some server ∧
      handleNewConnection {} ⟨.accepted 7, none, .done, 1⟩ server = .returned ⟨⟩ set ∧
      Transition.run (transferStep server.clients.length) set
        [.readData (.received (bytes "?") (by decide) (by decide)) 2, .writeData (bytes "ab") [],
          .defaultHandleWrite (.accepted 1) []] = some next ∧
      next.clients[server.clients.length]? = some conn ∧ conn.IsOpen ∧
      (conn.state = .writing ↔ conn.writeBuffer ≠ []) ∧
        (conn.writeBuffer ≠ [] ↔ ∃ events,
          next.descriptors.interest.lookup conn.socketFd = some events ∧
            Any events epollOut) := by
  have ran : ∃ server set next conn,
      Transition.run (step {}) (started 3) [.arrive] = some server ∧
      server.Possible (.accepted 7) ∧
      handleNewConnection {} ⟨.accepted 7, none, .done, 1⟩ server = .returned ⟨⟩ set ∧
      Transition.run (transferStep server.clients.length) set
        [.readData (.received (bytes "?") (by decide) (by decide)) 2, .writeData (bytes "ab") [],
          .defaultHandleWrite (.accepted 1) []] = some next ∧
      next.clients[server.clients.length]? = some conn ∧ conn.IsOpen :=
    ⟨_, _, _, _, rfl, by decide, rfl, rfl, rfl, by decide⟩
  rcases ran with ⟨server, set, next, conn, ran, possible, setsUp, moved, client, opened⟩
  exact ⟨server, set, next, conn, ran, setsUp, moved, client, opened,
    writing_iff_watched ran possible setsUp moved client opened⟩

end WebServer

end PPServer.Server
