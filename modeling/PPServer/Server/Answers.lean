import PPServer.Server.Isolation

/-!
# What the clients of a server get

Whatever else the server does, what it reads from a client falls into requests and a rest, and what
it writes to that client is a response to each of them.
-/

namespace PPServer.Server.WebServer

open Locking Net Transition EventLoop

variable {config : Config} {server next last : WebServer} {id : Nat} {conn : Connection}
variable {fd : Int} {now : Nat}

theorem exchanges_newClient (valid : 0 ≤ fd) (now : Nat) :
    (newClient fd now).Exchanges [] 0 where
  ready := ready_newClient valid now
  exchange :=
    ⟨[], [], rfl, by simp, fun _ => by decide, List.nil_prefix, fun _ => ⟨rfl, rfl⟩⟩

theorem exchanges_lostClient (fd : Int) (now : Nat) : (lostClient fd now).Exchanges [] 0 where
  ready := ready_lostClient fd now
  exchange :=
    ⟨[], [], rfl, by simp, fun _ => by decide, List.nil_prefix, fun _ => ⟨rfl, rfl⟩⟩

/-- **A client gets nothing but responses.**  At any time the bytes that the server has written to
a client are whole responses, the last one perhaps in part; and as long as the connection is open,
what waits to be written completes them. -/
theorem sent_of_run {listenFd : Int} {actions : List Action}
    (ran : run (step config) (started listenFd) actions = some server)
    (client : server.clients[id]? = some conn) :
    ∃ count, conn.sentBytes <+: Handler.responses count ∧
      (conn.IsOpen → conn.output = Handler.responses count) := by
  have start (conn : Connection) (made : Made conn) :
      ∃ read failures, conn.Exchanges read failures := by
    cases made with
    | started fd now valid => exact ⟨[], 0, exchanges_newClient valid now⟩
    | lost fd now _ => exact ⟨[], 0, exchanges_lostClient fd now⟩
  have keeps : Keeps Connection.turn (fun _ => True) fun conn =>
      ∃ read failures, conn.Exchanges read failures := by
    rintro conn action after - taken ⟨read, failures, exchanges⟩
    exact ⟨_, _, exchanges.turn taken⟩
  rcases forall_clients_of_run start keeps ran id conn client with ⟨read, failures, exchanges⟩
  rcases exchanges.exchange with ⟨requests, rest, exchange⟩
  exact ⟨requests.length + failures, exchange.sent, fun opened => (exchange.opened opened).2⟩

/-- A client that sends a request in two parts, and gets a part of the response. -/
def asksInParts : List Action :=
  [.ioEvent 7 epollRead ⟨.wouldBlock, none, .done, 2⟩
      ⟨.received (bytes "GET / HTTP/1.1\r\n") (by decide) (by decide),
        .done, .accepted 0, .done, 2⟩,
    .ioEvent 7 (epollRead ||| epollWrite) ⟨.wouldBlock, none, .done, 3⟩
      ⟨.received (bytes "\r\n") (by decide) (by decide), .done, .accepted 9, .done, 3⟩]

set_option maxRecDepth 4096 in
theorem sent_of_run_asksInParts :
    ∃ server conn,
      run (step {}) (started 3) (.arrive ::
        .ioEvent 3 epollRead ⟨.accepted 7, none, .done, 1⟩
          ⟨.endOfFile, .done, .accepted 0, .done, 1⟩ :: asksInParts) = some server ∧
      server.clients[0]? = some conn ∧ conn.sentBytes = bytes "HTTP/1.1 " ∧
      ∃ count, conn.sentBytes <+: Handler.responses count ∧
        (conn.IsOpen → conn.output = Handler.responses count) := by
  have ran : ∃ server conn,
      run (step {}) (started 3) (.arrive ::
        .ioEvent 3 epollRead ⟨.accepted 7, none, .done, 1⟩
          ⟨.endOfFile, .done, .accepted 0, .done, 1⟩ :: asksInParts) = some server ∧
      server.clients[0]? = some conn ∧ conn.sentBytes = bytes "HTTP/1.1 " :=
    ⟨_, _, rfl, rfl, rfl⟩
  rcases ran with ⟨server, conn, ran, client, sent⟩
  exact ⟨server, conn, ran, client, sent, sent_of_run ran client⟩

/-- **A response to each request.**  From the step on that accepts a client, the bytes that the
server reads from it fall into requests, each of which contains the end of a header, and a rest.
A response is queued for each request, and one more for each time that the event loop could not be
told of one. -/
theorem answers_of_run {listenFd lfd : Int} {events : UInt32} {calls : Connection.SystemCalls}
    {actions more : List Action}
    (ran : run (step config) (started listenFd) actions = some server)
    (callback : server.descriptors.callbacks.lookup lfd = some .newConnection)
    (accepts : step config server (.ioEvent lfd events ⟨.accepted fd, none, .done, now⟩ calls) =
      some next)
    (goesOn : run (step config) next more = some last) :
    ∃ conn requests rest,
      last.clients[server.clients.length]? = some conn ∧
      conn.Exchange
        ((newClient fd now).readAlong
          (seenAlong (step config) (turnsOf config server.clients.length) next more))
        requests rest
        ((newClient fd now).failuresAlong
          (seenAlong (step config) (turnsOf config server.clients.length) next more)) := by
  have invariant := invariant_of_run ran
  have nextInvariant := keeps_invariant config server _ next trivial accepts invariant
  rcases Option.ite_none_right_eq_some.mp accepts with ⟨possible, ends⟩
  have isClient : next.clients[server.clients.length]? = some (newClient fd now) := by
    rw [Outcome.ending_eq_some_iff, handleIoEvent, Call.get_bind_apply, callback] at ends
    have final := final_attempt_iff.mp ends
    have outcome : ArrivalOutcome config server _ _ :=
      handleNewConnection_outcome invariant.free ⟨.accepted fd, none, .done, now⟩ possible
    generalize handleNewConnection config ⟨.accepted fd, none, .done, now⟩ server = ended
      at outcome final
    cases outcome with
    | nothing none => exact absurd rfl (none fd)
    | untabled | added =>
        cases final
        exact List.getElem?_concat_length
  rcases (projects_client config server.clients.length).run goesOn nextInvariant isClient with
    ⟨conn, turns, client⟩
  have exchanges := (exchanges_newClient possible.2.1 now).run turns
  rw [List.nil_append, Nat.zero_add] at exchanges
  rcases exchanges.exchange with ⟨requests, rest, exchange⟩
  exact ⟨conn, requests, rest, client, exchange⟩

set_option maxRecDepth 4096 in
theorem answers_of_run_asksInParts :
    ∃ server next last,
      run (step {}) (started 3) [.arrive] = some server ∧
      step {} server (.ioEvent 3 epollRead ⟨.accepted 7, none, .done, 1⟩
        ⟨.endOfFile, .done, .accepted 0, .done, 1⟩) = some next ∧
      run (step {}) next asksInParts = some last ∧
      ∃ conn requests rest,
        last.clients[0]? = some conn ∧
        conn.Exchange (bytes "GET / HTTP/1.1\r\n\r\n") requests rest 0 := by
  have ran : ∃ server next last,
      run (step {}) (started 3) [.arrive] = some server ∧
      server.descriptors.callbacks.lookup 3 = some .newConnection ∧
      step {} server (.ioEvent 3 epollRead ⟨.accepted 7, none, .done, 1⟩
        ⟨.endOfFile, .done, .accepted 0, .done, 1⟩) = some next ∧
      run (step {}) next asksInParts = some last ∧ server.clients.length = 0 ∧
      (newClient 7 1).failuresAlong (seenAlong (step {}) (turnsOf {} 0) next asksInParts) = 0 ∧
      (newClient 7 1).readAlong (seenAlong (step {}) (turnsOf {} 0) next asksInParts) =
        bytes "GET / HTTP/1.1\r\n\r\n" :=
    ⟨_, _, _, rfl, by decide, rfl, rfl, rfl, rfl, rfl⟩
  rcases ran with ⟨server, next, last, ran, callback, accepts, goesOn, first, failures, read⟩
  rcases answers_of_run ran callback accepts goesOn with
    ⟨conn, requests, rest, client, exchange⟩
  rw [first] at client exchange
  rw [read, failures] at exchange
  exact ⟨server, next, last, ran, accepts, goesOn, conn, requests, rest, client, exchange⟩

end PPServer.Server.WebServer
