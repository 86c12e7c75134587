import PPServer.Net.Locks
import PPServer.Server.Blocking
import PPServer.Server.Stepwise

/-!
# The mutexes that the server locks

`HandleIoEvent` runs a callback under `fd_mutex_`, and the callback for new connections locks the
mutex of the connection manager there.  A sweep goes the other way: it closes connections under the
mutex of the manager, which locks `fd_mutex_`.

`HandleNewConnection` locks `fd_mutex_` once more in `AddFd`.  The mutex is recursive and its thread
holds it already, so that never waits, and it is left out here.
-/

namespace PPServer.Server.WebServer

open Locking LockOrder Net EventLoop

variable {config : Config} {server after : WebServer} {id : Nat} {conn : Connection}

/-- What a step of the server does with the mutexes. -/
def locks (before after : WebServer) : List (LockAction MutexId) :=
  (match before.managerMutexHeld, after.managerMutexHeld with
    | false, true => [.acquire .manager]
    | true, false => [.release]
    | false, false | true, true => []) ++
  (List.range after.clients.length).flatMap fun id =>
    match before.clients[id]?, after.clients[id]? with
    | some conn, some changed => conn.locks id changed
    | _, _ => []

theorem flatMap_range {γ : Type} {values : Nat → List γ} {id : Nat}
    (others : ∀ other, other ≠ id → values other = []) (count : Nat) :
    (List.range count).flatMap values = if id < count then values id else [] := by
  induction count with
  | zero => rfl
  | succ count ih =>
      rw [List.range_succ, List.flatMap_append, ih, List.flatMap_singleton]
      by_cases last : count = id
      · rw [last, if_neg (Nat.lt_irrefl id), if_pos (Nat.lt_succ_self id), List.nil_append]
      · rw [others count last, List.append_nil]
        exact if_congr (by omega) rfl rfl

theorem locks_self (conn : Connection) : conn.locks id conn = [] :=
  Connection.locks_eq_nil rfl rfl

/-- The clients stay as they are, or new ones are added. -/
theorem locks_of_clients (clients : server.clients <+: after.clients) :
    locks server after =
      match server.managerMutexHeld, after.managerMutexHeld with
      | false, true => [.acquire .manager]
      | true, false => [.release]
      | false, false | true, true => [] := by
  rcases clients with ⟨made, isAfter⟩
  rw [locks, ← isAfter, List.flatMap_eq_nil_iff.mpr fun id _ => ?_, List.append_nil]
  rcases Nat.lt_or_ge id server.clients.length with inside | outside
  · rw [List.getElem?_append_left inside, List.getElem?_eq_getElem inside]
    exact locks_self _
  · rw [List.getElem?_eq_none outside]

theorem locks_settle (client : server.clients[id]? = some conn) (before after : Connection) :
    locks (server.settle id conn before) (server.settle id conn after) =
      before.locks id after := by
  have inside := (List.getElem?_eq_some_iff.mp client).1
  rw [locks, settle_managerMutexHeld, settle_managerMutexHeld, settle_clients, settle_clients,
    flatMap_range, List.length_set, if_pos inside]
  · simp only [List.getElem?_set_self inside]
    cases server.managerMutexHeld <;> rfl
  · intro other differs
    simp only [List.getElem?_set_ne (Ne.symm differs)]
    cases server.clients[other]? with
    | none => rfl
    | some conn => exact locks_self conn

/-! ## What is seen of an operation -/

variable {α β : Type} {first : Op α} {next : α → Op β} {steps : Steps first}
variable {stepsNext : ∀ value, Steps (next value)} {inner inner' : List MutexId}

theorem seen_onClient {op : Connection.Op PUnit} (steps : Steps op)
    (client : server.clients[id]? = some conn) :
    (onClientSteps id steps).seen locks server = steps.seen (Connection.locks id) conn := by
  have states : (onClientSteps id steps).states server =
      (steps.states conn).map (server.settle id conn) := by
    simp only [onClientSteps, client]
  have same := seenFrom_map (locks_settle client) conn (steps.states conn)
  rw [settle_self client] at same
  rw [Steps.seen, states, same, Steps.seen]

/-- The calls lock the mutexes one after another. -/
def Locks (inner : List MutexId) (steps : Steps first) (server : WebServer) : Prop :=
  steps.seen locks server = sections inner

theorem Locks.bind {value : α} (locksFirst : Locks inner steps server)
    (returns : first server = .returned value after)
    (locksNext : Locks inner' (stepsNext value) after) :
    Locks (inner ++ inner') (steps.bind stepsNext) server := by
  rw [Locks, seen_bind, returns, sections_append]
  exact congrArg₂ _ locksFirst locksNext

/-- A change of the server that leaves its clients and the mutex as they are, or adds clients. -/
theorem locks_eq_nil (clients : server.clients <+: after.clients)
    (held : after.managerMutexHeld = server.managerMutexHeld) : locks server after = [] := by
  rw [locks_of_clients clients, held]
  cases server.managerMutexHeld <;> rfl

theorem locks_modify {change : WebServer → WebServer}
    (clients : server.clients <+: (change server).clients)
    (held : (change server).managerMutexHeld = server.managerMutexHeld) :
    Locks [] (.modify change : Steps (modify change : Op PUnit)) server :=
  (seen_modify change server).trans (locks_eq_nil clients held)

theorem locks_of_within
    (within : Within (fun before after => locks before after = []) steps) :
    Locks [] steps server :=
  within.seen_eq_nil server

theorem locks_onClient {op : Connection.Op PUnit} {steps : Steps op}
    (client : server.clients[id]? = some conn) (free : conn.bufferMutexHeld = false)
    (oneByOne : Connection.OneByOne id false steps) (ends : ¬Deadlocks op conn) :
    ∃ inner, (∀ mutex ∈ inner, mutex = .fd ∨ mutex = .buffer id) ∧
      Locks inner (onClientSteps id steps) server := by
  rcases oneByOne conn free ends with ⟨-, inner, -, allowed, seen⟩
  exact ⟨inner, allowed, (seen_onClient steps client).trans seen⟩

/-! ## Sweeps -/

/-- The entry has a connection that is open, and that the sweep closes. -/
def Shuts (closes : Connection → Prop) (server : WebServer) (entry : Σ _ : Int, Nat) : Prop :=
  ∃ conn, server.clients[entry.2]? = some conn ∧ conn.IsOpen ∧ closes conn

/-- What a sweep locks in its scope: nothing, or `fd_mutex_` among others. -/
structure Sweeps (shuts : Prop) (inner : List MutexId) : Prop where
  allowed : ∀ mutex ∈ inner, mutex = .fd ∨ ∃ id, mutex = .buffer id
  fd : shuts → .fd ∈ inner
  nothing : ¬shuts → inner = []

theorem sweeps_close (consistent : server.Consistent) (entry : Σ _ : Int, Nat) :
    ∃ inner, Sweeps (Shuts (fun _ => True) server entry) inner ∧
      Locks inner (onClientSteps entry.2 Connection.closeSteps) server := by
  cases client : server.clients[entry.2]? with
  | none =>
      have never : ¬Shuts (fun _ => True) server entry := by simp [Shuts, client]
      refine ⟨[], ⟨List.forall_mem_nil _, fun shuts => absurd shuts never, fun _ => rfl⟩, ?_⟩
      have states : (onClientSteps entry.2 Connection.closeSteps).states server = [] := by
        simp only [onClientSteps, client]
      rw [Locks, Steps.seen, states, seenFrom, sections_nil]
  | some conn =>
      have free : conn.bufferMutexHeld = false := (consistent.ready entry.2 conn client).unlocked
      by_cases opened : conn.IsOpen
      · have ends : ¬Deadlocks Connection.close conn := by
          simp [Connection.deadlocks_close_iff, free]
        rcases locks_onClient client free Connection.oneByOne_close ends with
          ⟨inner, allowed, locked⟩
        have seen : Connection.closeSteps.seen (Connection.locks entry.2) conn = sections inner :=
          (seen_onClient _ client).symm.trans locked
        have begins : sections [.fd] <+: sections inner :=
          seen ▸ Connection.seen_close_of_open opened
        refine ⟨inner, ⟨fun mutex member => ?_, fun _ => mem_of_begins begins, ?_⟩, locked⟩
        · exact (allowed mutex member).imp_right fun isBuffer => ⟨entry.2, isBuffer⟩
        · exact fun never => absurd ⟨conn, client, opened, trivial⟩ never
      · have never : ¬Shuts (fun _ => True) server entry := by
          rintro ⟨found, isClient, isOpen, -⟩
          cases client.symm.trans isClient
          exact opened isOpen
        exact ⟨[], ⟨List.forall_mem_nil _, fun shuts => absurd shuts never, fun _ => rfl⟩,
          (seen_onClient _ client).trans (Connection.seen_close_of_closed opened)⟩

/-- A sweep goes through the table, and closes what it closes. -/
theorem sweeps_forM {body : (Σ _ : Int, Nat) → Op PUnit} {steps : ∀ entry, Steps (body entry)}
    {pass : WebServer → (Σ _ : Int, Nat) → WebServer} {closes : Connection → Prop}
    (returns : ∀ server entry, server.Consistent →
      body entry server = .returned ⟨⟩ (pass server entry))
    (keeps : ∀ server entry, server.Consistent → (pass server entry).Consistent)
    (leaves : ∀ server entry, server.Consistent → ¬Shuts closes server entry →
      (pass server entry).clients = server.clients)
    (holds : ∀ server entry, (pass server entry).managerMutexHeld = server.managerMutexHeld)
    (sweeps : ∀ server entry, server.Consistent →
      ∃ inner, Sweeps (Shuts closes server entry) inner ∧ Locks inner (steps entry) server)
    (order : List (Σ _ : Int, Nat)) (consistent : server.Consistent) :
    ∃ inner after, Sweeps (∃ entry ∈ order, Shuts closes server entry) inner ∧
      Locks inner (.forM steps order) server ∧ order.forM body server = .returned ⟨⟩ after ∧
      after.managerMutexHeld = server.managerMutexHeld := by
  induction order generalizing server with
  | nil => exact ⟨[], server, ⟨List.forall_mem_nil _, by simp, fun _ => rfl⟩, rfl, rfl, rfl⟩
  | cons entry order ih =>
      rcases sweeps server entry consistent with ⟨inner, first, locksFirst⟩
      rcases ih (keeps server entry consistent) with
        ⟨inner', after, rest, locksRest, returnsRest, held⟩
      have same (never : ¬Shuts closes server entry) :
          (∃ other ∈ order, Shuts closes (pass server entry) other) ↔
            ∃ other ∈ order, Shuts closes server other := by
        simp only [Shuts, leaves server entry consistent never]
      refine ⟨inner ++ inner', after,
        ⟨List.forall_mem_append.mpr ⟨first.allowed, rest.allowed⟩, ?_, ?_⟩,
        locksFirst.bind (returns server entry consistent) locksRest,
        (Call.bind_of_returned (returns server entry consistent) _).trans returnsRest,
        held.trans (holds server entry)⟩
      · intro shuts
        rw [List.mem_append]
        by_cases now : Shuts closes server entry
        · exact .inl (first.fd now)
        · simp only [List.mem_cons, exists_eq_or_imp] at shuts
          exact .inr (rest.fd ((same now).mpr (shuts.resolve_left now)))
      · intro never
        simp only [List.mem_cons, exists_eq_or_imp, not_or] at never
        have rest' := rest.nothing fun shuts => never.2 ((same never.1).mp shuts)
        rw [first.nothing never.1, rest', List.append_nil]

/-- The mutex of the manager is locked around what a call locks. -/
theorem Locks.scope (free : server.managerMutexHeld = false)
    (locksBody : Locks inner steps (managerMutex.setHeld true server))
    (ends : ∃ value after, first (managerMutex.setHeld true server) = .returned value after ∧
      after.managerMutexHeld = true) :
    (steps.lockGuard managerMutex).seen locks server = (Scope.mk .manager inner).script := by
  rcases ends with ⟨value, after, returns, locked⟩
  have free' : managerMutex.held server = false := free
  have locksFirst : locks server (managerMutex.setHeld true server) = [.acquire .manager] := by
    have same : server.clients <+: (managerMutex.setHeld true server).clients := List.prefix_rfl
    rw [locks_of_clients same, free]
    rfl
  have leaves : locks after (managerMutex.setHeld false after) = [.release] := by
    have same : after.clients <+: (managerMutex.setHeld false after).clients := List.prefix_rfl
    rw [locks_of_clients same, locked]
    rfl
  rw [seen_lockGuard steps free', locksFirst, locksBody, returns]
  exact congrArg _ (congrArg _ leaves)

/-! ### The two sweeps -/

theorem closeClient_managerMutexHeld (server : WebServer) (id : Nat) :
    (server.closeClient id).managerMutexHeld = server.managerMutexHeld := by
  rw [closeClient]
  split
  next conn client =>
      split
      · exact settle_managerMutexHeld _ _ _ _
      · rfl
  next => rfl

theorem Consistent.closeClient_leaves (consistent : server.Consistent)
    {entry : Σ _ : Int, Nat} (never : ¬Shuts (fun _ => True) server entry) :
    (server.closeClient entry.2).clients = server.clients := by
  rcases consistent.closeClient_cases entry.2 with ⟨conn, -, client, opened, -⟩ | ⟨-, same⟩
  · exact absurd ⟨conn, client, opened, trivial⟩ never
  · rw [same]

/-- `CloseAllConnections` locks its mutex, and closes what is open under it. -/
theorem script_closeAllConnections (invariant : server.Invariant)
    (order : List (Σ _ : Int, Nat)) :
    ∃ inner, Sweeps (∃ entry ∈ order, Shuts (fun _ => True) server entry) inner ∧
      (closeAllConnectionsSteps order).seen locks server = (Scope.mk .manager inner).script := by
  rcases sweeps_forM (fun _ entry known => known.onClient_close entry.2)
    (fun _ entry known => known.closeClient entry.2)
    (fun _ _ known never => known.closeClient_leaves never)
    (fun server entry => closeClient_managerMutexHeld server entry.2)
    (fun _ entry known => sweeps_close known entry) order
    (invariant.consistent.locked true) with ⟨inner, after, sweeps, locksLoop, returns, held⟩
  refine ⟨inner, sweeps, Locks.scope invariant.free ?_
    ⟨⟨⟩, _, Call.bind_of_returned returns _, held⟩⟩
  rw [← List.append_nil inner]
  exact locksLoop.bind returns (locks_modify List.prefix_rfl rfl)

theorem sweepEntry_managerMutexHeld (now : Nat) (server : WebServer) (entry : Σ _ : Int, Nat) :
    (sweepEntry config now server entry).managerMutexHeld = server.managerMutexHeld := by
  rw [sweepEntry]
  split
  next =>
      split
      · exact closeClient_managerMutexHeld server entry.2
      · rfl
  next => rfl

theorem Consistent.sweepEntry_leaves (consistent : server.Consistent) {now : Nat}
    {entry : Σ _ : Int, Nat} (never : ¬Shuts (TimedOut config now) server entry) :
    (WebServer.sweepEntry config now server entry).clients = server.clients := by
  rw [WebServer.sweepEntry]
  cases client : server.clients[entry.2]? with
  | none => rfl
  | some conn =>
      by_cases timedOut : TimedOut config now conn
      · simp only [if_pos timedOut]
        refine consistent.closeClient_leaves ?_
        rintro ⟨found, isClient, opened, -⟩
        cases client.symm.trans isClient
        exact never ⟨conn, client, opened, timedOut⟩
      · simp only [if_neg timedOut]

theorem sweeps_cleanupEntry (consistent : server.Consistent) (now : Nat)
    (entry : Σ _ : Int, Nat) :
    ∃ inner, Sweeps (Shuts (TimedOut config now) server entry) inner ∧
      Locks inner (cleanupEntrySteps config now entry) server := by
  have idle (never : ¬Shuts (TimedOut config now) server entry) :
      Sweeps (Shuts (TimedOut config now) server entry) [] :=
    ⟨List.forall_mem_nil _, fun shuts => absurd shuts never, fun _ => rfl⟩
  cases client : server.clients[entry.2]? with
  | none =>
      refine ⟨[], idle (by simp [Shuts, client]), ?_⟩
      simp only [Locks, Steps.seen, cleanupEntrySteps, Steps.getBind]
      rw [client]
      rfl
  | some conn =>
      by_cases timedOut : TimedOut config now conn
      · have same : Shuts (TimedOut config now) server entry ↔
            Shuts (fun _ => True) server entry := by
          simp [Shuts, client, timedOut]
        rcases sweeps_close consistent entry with ⟨inner, sweeps, locksClose⟩
        refine ⟨inner, by rwa [same], ?_⟩
        simp only [Locks, Steps.seen, cleanupEntrySteps, Steps.getBind]
        rw [client]
        simp only [Steps.ite, if_pos timedOut]
        rw [← List.append_nil inner]
        exact locksClose.bind (consistent.onClient_close entry.2)
          (locks_modify List.prefix_rfl rfl)
      · refine ⟨[], idle ?_, ?_⟩
        · rintro ⟨found, isClient, -, isTimedOut⟩
          cases client.symm.trans isClient
          exact timedOut isTimedOut
        · simp only [Locks, Steps.seen, cleanupEntrySteps, Steps.getBind]
          rw [client]
          simp only [Steps.ite, if_neg timedOut]
          rfl

/-- `CleanupTimeoutConnections` locks its mutex, and closes what is open and idle under it. -/
theorem script_cleanupTimeoutConnections (invariant : server.Invariant) (now : Nat)
    (order : List (Σ _ : Int, Nat)) :
    ∃ inner, Sweeps (∃ entry ∈ order, Shuts (TimedOut config now) server entry) inner ∧
      (cleanupTimeoutConnectionsSteps config now order).seen locks server =
        (Scope.mk .manager inner).script := by
  rcases sweeps_forM (fun _ entry known => known.cleanupEntry config now entry)
    (fun _ entry known => known.sweepEntry config now entry)
    (fun _ _ known never => known.sweepEntry_leaves never)
    (fun server entry => sweepEntry_managerMutexHeld now server entry)
    (fun _ entry known => sweeps_cleanupEntry known now entry) order
    (invariant.consistent.locked true) with ⟨inner, after, sweeps, locksLoop, returns, held⟩
  exact ⟨inner, sweeps, locksLoop.scope invariant.free ⟨⟨⟩, after, returns, held⟩⟩

/-! ## New connections -/

theorem Locks.bind_of_threw {error : Exception} (locksFirst : Locks inner steps server)
    (throws : first server = .threw error after) :
    Locks inner (steps.bind stepsNext) server := by
  rw [Locks, seen_bind, throws]
  exact (List.append_nil _).trans locksFirst

/-- An operation of the connection that has been made last. -/
theorem locks_made {op : Connection.Op PUnit} {steps : Steps op} (server : WebServer)
    (seen : steps.seen (Connection.locks server.clients.length) conn = sections inner) :
    Locks inner (onClientSteps server.clients.length steps) (server.made conn) :=
  (seen_onClient steps List.getElem?_concat_length).trans seen

theorem locks_addConnection (free : server.managerMutexHeld = false) (fd : Int) (id : Nat) :
    Locks [.manager] (addConnectionSteps config fd id) server := by
  change Steps.seen locks (.lockGuard managerMutex _) server = (Scope.mk .manager []).script
  refine Locks.scope free (locks_of_within (.getBind fun _ => .ite (.pure _)
    (.bind (.modify fun _ => locks_eq_nil List.prefix_rfl rfl) fun _ => .pure _))) ?_
  rw [Call.get_bind_apply]
  split
  · exact ⟨_, _, rfl, rfl⟩
  · exact ⟨_, _, rfl, rfl⟩

/-- The mutexes that `HandleNewConnection` locks, but for the `fd_mutex_` of `AddFd`. -/
structure ArrivalLocks (arrival : Arrival) (inner : List MutexId) : Prop where
  allowed : ∀ mutex ∈ inner, mutex = .fd ∨ mutex = .manager ∨ ∃ id, mutex = .buffer id
  manager : .manager ∈ inner ↔ Completes arrival

/-- Nothing but what destroying the connection locks, if it comes to that. -/
theorem arrivalLocks_of_not_completes {arrival : Arrival} (not : ¬Completes arrival)
    (allowed : ∀ mutex ∈ inner, mutex = .fd ∨ ∃ id, mutex = .buffer id) :
    ArrivalLocks arrival inner where
  allowed mutex member := (allowed mutex member).imp_right .inr
  manager := iff_of_false (fun member => by simpa using allowed _ member) not

/-- `HandleNewConnection` from `AddFd` on. -/
theorem locks_register (config : Config) {fd : Int} (free : server.managerMutexHeld = false)
    (valid : 0 ≤ fd) (now : Nat) (epollAdd : EpollAdd) :
    ∃ inner, ArrivalLocks ⟨.accepted fd, none, epollAdd, now⟩ inner ∧
      Locks inner
        (.bind (.unwinding (onClientSteps server.clients.length Connection.destroySteps)
            (addFdSteps fd (epollRead ||| epollEt) (.client server.clients.length) epollAdd))
          fun _ => .bind (addConnectionSteps config fd server.clients.length) fun _ =>
            onClientSteps server.clients.length (Connection.startSteps now))
        (server.made (setUpClient fd now)) := by
  cases epollAdd with
  | failed text =>
      have client : (server.made (setUpClient fd now)).clients[server.clients.length]? =
          some (setUpClient fd now) := List.getElem?_concat_length
      have ends : ¬Deadlocks Connection.destroy (setUpClient fd now) := by
        simp [Deadlocks, destroy_setUpClient valid]
      rcases locks_onClient client rfl Connection.oneByOne_destroy ends with
        ⟨inner, allowed, locksDestroy⟩
      have destroys : onClient server.clients.length Connection.destroy
          (server.made (setUpClient fd now)) = .returned ⟨⟩ _ :=
        onClient_made server (destroy_setUpClient valid now)
      have fails : addFd fd (epollRead ||| epollEt) (.client server.clients.length)
          (.failed text) (server.made (setUpClient fd now)) =
            .threw (.runtimeError (bytes "Failed to add fd to epoll: " ++ text)) _ := rfl
      refine ⟨inner, arrivalLocks_of_not_completes (by simp [Completes]) fun mutex member =>
        (allowed mutex member).imp_right fun isBuffer => ⟨_, isBuffer⟩,
        Locks.bind_of_threw ?_ (unwinding_of_threw fails destroys)⟩
      rw [Locks, seen_unwinding, fails]
      exact locksDestroy
  | done =>
      let watched : WebServer :=
        { server with
          descriptors := server.descriptors.addFd fd (epollRead ||| epollEt)
            (.client server.clients.length) }
      have completes : Completes ⟨.accepted fd, none, .done, now⟩ := ⟨⟨fd, rfl⟩, rfl, rfl⟩
      have watches : addFd fd (epollRead ||| epollEt) (.client server.clients.length) .done
          (server.made (setUpClient fd now)) =
            .returned ⟨⟩ (watched.made (setUpClient fd now)) := rfl
      have freeAfter : (watched.made (setUpClient fd now)).managerMutexHeld = false := free
      have adds := addConnection_returns freeAfter config fd server.clients.length
      refine ⟨[] ++ ([.manager] ++ []), ⟨by simp, iff_of_true (by simp) completes⟩,
        Locks.bind ?_ (unwinding_of_returned watches) ?_⟩
      · rw [Locks, seen_unwinding, watches]
        exact (List.append_nil _).trans (locks_modify List.prefix_rfl rfl)
      · split at adds
        next full =>
          exact (locks_addConnection freeAfter fd _).bind adds
            (locks_made watched (Connection.seen_start now _))
        next room =>
          let tabled : WebServer :=
            { watched with
              connections := server.connections.insert fd server.clients.length }
          have tables : addConnection config fd server.clients.length
              (watched.made (setUpClient fd now)) =
                .returned true (tabled.made (setUpClient fd now)) := adds
          exact (locks_addConnection freeAfter fd _).bind tables
            (locks_made tabled (Connection.seen_start now _))

theorem locks_accept4 (accept : Accept) (server : WebServer) :
    Locks [] (accept4Steps accept) server := by
  apply locks_of_within
  cases accept with
  | accepted fd | aborted =>
      refine .bind (.modify fun server => ?_) fun _ => .pure _
      exact locks_eq_nil List.prefix_rfl rfl
  | interrupted | wouldBlock | failed => exact .pure _

theorem locks_makeConnection (fd : Int) (now : Nat)
    (setupFailure : Option (SetupCall × Bytes)) (server : WebServer) :
    Locks [] (makeConnectionSteps fd now setupFailure) server := by
  apply locks_of_within
  cases setupFailure with
  | none =>
      refine .getBind fun _ => .bind (.modify fun server => ?_) fun _ => .pure _
      exact locks_eq_nil (List.prefix_append _ _) rfl
  | some failure => exact .throwing _

/-- The callback for new connections locks the mutex of the manager exactly if it gets to
`AddConnection`. -/
theorem locks_handleNewConnection (config : Config) (free : server.managerMutexHeld = false)
    {arrival : Arrival}
    (possible : server.Possible arrival.accept) :
    ∃ inner, ArrivalLocks arrival inner ∧
      Locks inner (handleNewConnectionSteps config arrival) server := by
  rcases arrival with ⟨accept, setupFailure, epollAdd, now⟩
  have nothing (not : ¬Completes ⟨accept, setupFailure, epollAdd, now⟩) :
      ArrivalLocks ⟨accept, setupFailure, epollAdd, now⟩ [] :=
    arrivalLocks_of_not_completes not (List.forall_mem_nil _)
  cases accept with
  | aborted | interrupted | wouldBlock | failed =>
      have negative : (-1 : Int) < 0 := by decide
      refine ⟨[] ++ [], nothing (by simp [Completes]), (locks_accept4 _ server).bind rfl ?_⟩
      exact (seen_ite _ _ _).trans (if_pos negative)
  | accepted fd =>
      have valid : ¬fd < 0 := Int.not_lt.mpr possible.2.1
      cases setupFailure with
      | some failure =>
          refine ⟨[] ++ [], nothing (by simp [Completes]), (locks_accept4 _ server).bind rfl ?_⟩
          refine (seen_ite _ _ _).trans ((if_neg valid).trans ?_)
          exact (locks_makeConnection ..).bind_of_threw rfl
      | none =>
          have freeAfter : (server.took fd).managerMutexHeld = false := free
          have setsUp : onClient server.clients.length Connection.setHandler
              ((server.took fd).made (Connection.new fd now)) =
                .returned ⟨⟩ ((server.took fd).made (setUpClient fd now)) :=
            onClient_made (server.took fd) (setHandler_new fd now)
          rcases locks_register config freeAfter possible.2.1 now epollAdd with
            ⟨inner, arrivalLocks, locksRest⟩
          refine ⟨[] ++ ([] ++ ([] ++ inner)), arrivalLocks, (locks_accept4 _ server).bind rfl ?_⟩
          refine (seen_ite _ _ _).trans ((if_neg valid).trans ?_)
          exact (locks_makeConnection ..).bind rfl
            ((locks_made (server.took fd) (Connection.seen_setHandler _)).bind setsUp locksRest)

/-! ## Steps -/

/-- What a step of the server does with the mutexes. -/
def script (config : Config) (server : WebServer) : Action → List (LockAction MutexId)
  | .arrive => []
  | .ioEvent fd events arrival calls =>
      .acquire .fd :: ((handleIoEventSteps config fd events arrival calls).seen locks server ++
        [.release])
  | .cleanupTimeoutConnections now order =>
      (cleanupTimeoutConnectionsSteps config now order).seen locks server
  | .closeAllConnections order => (closeAllConnectionsSteps order).seen locks server

/-- The step comes to `AddConnection`. -/
def Adds (server : WebServer) : Action → Prop
  | .ioEvent fd _ arrival _ =>
      server.descriptors.callbacks.lookup fd = some .newConnection ∧ Completes arrival
  | .arrive | .cleanupTimeoutConnections _ _ | .closeAllConnections _ => False

/-- The step is a sweep that closes an open connection. -/
def Shutting (config : Config) (server : WebServer) : Action → Prop
  | .cleanupTimeoutConnections now order =>
      ∃ entry ∈ order, Shuts (TimedOut config now) server entry
  | .closeAllConnections order => ∃ entry ∈ order, Shuts (fun _ => True) server entry
  | .arrive | .ioEvent _ _ _ _ => False

/-- `HandleIoEvent` runs the callback under `fd_mutex_`. -/
theorem script_ioEvent (config : Config) {fd : Int} {events : UInt32} {arrival : Arrival}
    {calls : Connection.SystemCalls} (invariant : server.Invariant)
    (offers : server.Offers (.ioEvent fd events arrival calls))
    (ends : ¬server.Blocks (.ioEvent fd events arrival calls)) :
    ∃ inner, (∀ mutex ∈ inner, mutex = .fd ∨ mutex = .manager ∨ ∃ id, mutex = .buffer id) ∧
      (.manager ∈ inner ↔ server.Adds (.ioEvent fd events arrival calls)) ∧
      server.script config (.ioEvent fd events arrival calls) = (Scope.mk .fd inner).script := by
  suffices found : ∃ inner,
      (∀ mutex ∈ inner, mutex = .fd ∨ mutex = .manager ∨ ∃ id, mutex = .buffer id) ∧
        (.manager ∈ inner ↔ server.Adds (.ioEvent fd events arrival calls)) ∧
        Locks inner (handleIoEventSteps config fd events arrival calls) server by
    rcases found with ⟨inner, allowed, adds, isLocks⟩
    refine ⟨inner, allowed, adds, ?_⟩
    rw [script, isLocks, Scope.script]
  rw [Adds]
  simp only [Locks, Steps.seen, handleIoEventSteps, Steps.getBind]
  cases callback : server.descriptors.callbacks.lookup fd with
  | none => exact ⟨[], List.forall_mem_nil _, by simp, rfl⟩
  | some registered =>
      cases registered with
      | newConnection =>
          rcases locks_handleNewConnection config invariant.free offers with
            ⟨inner, locked, isLocks⟩
          exact ⟨inner, locked.allowed, by simpa using locked.manager, isLocks⟩
      | client id =>
          rcases invariant.consistent.registered fd id callback with ⟨conn, client, opened, -⟩
          have ready := invariant.consistent.ready id conn client
          have returns : ¬Deadlocks (Connection.callback events calls) conn := by
            rw [Connection.deadlocks_callback_iff ready opened]
            exact fun blocked => ends ⟨id, conn, callback, client, blocked⟩
          rcases locks_onClient client ready.unlocked (Connection.oneByOne_callback events calls)
            returns with ⟨inner, allowed, isLocks⟩
          refine ⟨inner, fun mutex member => ?_, iff_of_false (fun member => ?_) (by simp), isLocks⟩
          · exact (allowed mutex member).imp_right fun isBuffer => .inr ⟨id, isBuffer⟩
          · simpa using allowed .manager member

end PPServer.Server.WebServer
