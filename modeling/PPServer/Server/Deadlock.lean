import PPServer.Server.Locks

/-!
# Deadlocks between threads

The loop thread runs `HandleIoEvent`.  The public functions of the event loop, of the connection
manager and of a connection lock their mutexes, so they can be called from any thread, next to the
loop.  What each call locks is what it locks when it runs by itself, from any state that the server
can be in; here the calls of all threads are interleaved at every mutex.

A callback that blocks by itself is left out: `Blocking` says when that happens.
-/

namespace PPServer.Server

open LockOrder Net Transition

/-- A call. -/
inductive ServerCall (config : Config) where
  /-- A step of the server, which comes to an end. -/
  | step (server : WebServer) (action : WebServer.Action)
      (reached : ∃ listenFd actions,
        run (WebServer.step config) (WebServer.started listenFd) actions = some server)
      (offers : server.Offers action) (ends : ¬server.Blocks action)
  /-- Any other function locks one mutex, or one after another: `AddFd`, `RemoveFd`; `QueueInLoop`
  and the other functions for tasks; those for timers; `AddConnection`, `RemoveConnection`,
  `GetConnection` and `GetStatistics` of the manager; `GetReadBuffer` and its like. -/
  | brief (mutex : MutexId)

namespace ServerCall

variable {config : Config}

def script : ServerCall config → List (LockAction MutexId)
  | .step server action _ _ _ => server.script config action
  | .brief mutex => sections [mutex]

/-- Only the loop thread handles events. -/
def HandlesEvent : ServerCall config → Prop
  | .step _ (.ioEvent _ _ _ _) _ _ _ => True
  | .step _ .arrive _ _ _ | .step _ (.cleanupTimeoutConnections _ _) _ _ _
  | .step _ (.closeAllConnections _) _ _ _ | .brief _ => False

/-- The call accepts a connection, and adds it to the table. -/
def Adds : ServerCall config → Prop
  | .step server action _ _ _ => server.Adds action
  | .brief _ => False

/-- The call goes through the table, and closes an open connection. -/
def Shutting : ServerCall config → Prop
  | .step server action _ _ _ => server.Shutting config action
  | .brief _ => False

/-- The kinds of scopes. -/
inductive HasScope (call : ServerCall config) : Scope MutexId → Prop where
  | event {inner : List MutexId} (handles : call.HandlesEvent)
      (allowed : ∀ mutex ∈ inner, mutex = .fd ∨ mutex = .manager ∨ ∃ id, mutex = .buffer id)
      (adds : .manager ∈ inner ↔ call.Adds) : HasScope call ⟨.fd, inner⟩
  | sweep {inner : List MutexId} (sweeps : WebServer.Sweeps call.Shutting inner) :
      HasScope call ⟨.manager, inner⟩
  | brief {mutex : MutexId} : HasScope call ⟨mutex, []⟩

/-- The scopes that the call goes through. -/
structure GoesThrough (call : ServerCall config) (scopes : List (Scope MutexId)) : Prop where
  script : call.script = scripts scopes
  kinds : ∀ scope ∈ scopes, call.HasScope scope
  adds : call.Adds → ∃ scope ∈ scopes, scope.outer = .fd ∧ .manager ∈ scope.inner
  shutting : call.Shutting → ∃ scope ∈ scopes, scope.outer = .manager ∧ .fd ∈ scope.inner

theorem goesThrough_sweep {call : ServerCall config} {inner : List MutexId}
    (script : call.script = (Scope.mk .manager inner).script) (notAdds : ¬call.Adds)
    (sweeps : WebServer.Sweeps call.Shutting inner) : call.GoesThrough [⟨.manager, inner⟩] where
  script := script.trans (List.append_nil _).symm
  kinds := List.forall_mem_singleton.mpr (.sweep sweeps)
  adds isAdded := absurd isAdded notAdds
  shutting shuts := ⟨_, List.mem_singleton_self _, rfl, sweeps.fd shuts⟩

theorem exists_goesThrough (call : ServerCall config) : ∃ scopes, call.GoesThrough scopes := by
  cases call with
  | brief mutex =>
      refine ⟨[⟨mutex, []⟩], rfl, ?_, False.elim, False.elim⟩
      exact List.forall_mem_singleton.mpr .brief
  | step server action reached offers ends =>
      rcases id reached with ⟨listenFd, actions, ran⟩
      have invariant := WebServer.invariant_of_run ran
      cases action with
      | arrive => exact ⟨[], rfl, List.forall_mem_nil _, False.elim, False.elim⟩
      | ioEvent fd events arrival calls =>
          rcases WebServer.script_ioEvent config invariant offers ends with
            ⟨inner, allowed, adds, isScript⟩
          refine ⟨[⟨.fd, inner⟩], isScript.trans (List.append_nil _).symm, ?_, fun isAdded => ?_,
            False.elim⟩
          · exact List.forall_mem_singleton.mpr (.event trivial allowed adds)
          · exact ⟨_, List.mem_singleton_self _, rfl, adds.mpr isAdded⟩
      | cleanupTimeoutConnections now order =>
          rcases WebServer.script_cleanupTimeoutConnections invariant now order with
            ⟨inner, sweeps, isScript⟩
          exact ⟨_, goesThrough_sweep isScript False.elim sweeps⟩
      | closeAllConnections order =>
          rcases WebServer.script_closeAllConnections invariant order with
            ⟨inner, sweeps, isScript⟩
          exact ⟨_, goesThrough_sweep isScript False.elim sweeps⟩

theorem HasScope.again {call : ServerCall config} {scope : Scope MutexId}
    (has : call.HasScope scope) : scope.Again MutexId.recursive := by
  intro member
  cases has with
  | event => rfl
  | sweep sweeps =>
      rcases sweeps.allowed .manager member with isFd | ⟨id, isBuffer⟩
      · cases isFd
      · cases isBuffer
  | brief => cases member

/-- The order in which the mutexes are locked where no connection is added. -/
def level : MutexId → Nat
  | .manager | .task | .timer => 0
  | .fd => 1
  | .buffer _ => 2

theorem HasScope.level_lt {call : ServerCall config} {scope : Scope MutexId} {mutex : MutexId}
    (has : call.HasScope scope) (notAdds : ¬call.Adds) (member : mutex ∈ scope.inner)
    (differs : mutex ≠ scope.outer) : level scope.outer < level mutex := by
  cases has with
  | event handles allowed adds =>
      rcases allowed mutex member with rfl | rfl | ⟨id, rfl⟩
      · exact absurd rfl differs
      · exact absurd (adds.mp member) notAdds
      · exact Nat.lt_succ_self 1
  | sweep sweeps =>
      rcases sweeps.allowed mutex member with rfl | ⟨id, rfl⟩
      · exact Nat.zero_lt_one
      · exact Nat.zero_lt_two
  | brief => cases member

/-- Only callbacks and sweeps lock a mutex while they hold another. -/
theorem HasScope.handlesEvent_or_shutting {call : ServerCall config} {scope : Scope MutexId}
    {mutex : MutexId} (has : call.HasScope scope) (member : mutex ∈ scope.inner) :
    call.HandlesEvent ∨ call.Shutting := by
  cases has with
  | event handles => exact .inl handles
  | sweep sweeps =>
      by_contra neither
      rw [sweeps.nothing fun shuts => neither (.inr shuts)] at member
      cases member
  | brief => cases member

theorem Adds.handlesEvent {call : ServerCall config} (adds : call.Adds) : call.HandlesEvent := by
  cases call with
  | brief mutex => exact adds
  | step server action =>
      cases action with
      | ioEvent => trivial
      | arrive | cleanupTimeoutConnections | closeAllConnections => exact adds

end ServerCall

/-! ## Threads -/

variable {config : Config} {T : Type}

/-- The threads with their calls in front of them. -/
def threadsOf (calls : T → List (ServerCall config)) (thread : T) : Thread MutexId :=
  ⟨[], (calls thread).flatMap ServerCall.script⟩

/-- The scopes of the threads: those of their calls. -/
theorem exists_scopes (calls : T → List (ServerCall config)) :
    ∃ scopesOf : ServerCall config → List (Scope MutexId),
      (∀ call : ServerCall config, call.GoesThrough (scopesOf call)) ∧
        threadsOf calls = start fun thread => (calls thread).flatMap scopesOf := by
  choose scopesOf goesThrough using fun call : ServerCall config => call.exists_goesThrough
  refine ⟨scopesOf, goesThrough, funext fun thread => ?_⟩
  have same : ServerCall.script =
      fun call : ServerCall config => (scopesOf call).flatMap Scope.script :=
    funext fun call => (goesThrough call).script
  rw [threadsOf, start, scripts, List.flatMap_assoc, same]

variable [Fintype T] [DecidableEq T] {calls : T → List (ServerCall config)} {loop : T}

/-- **Which threads deadlock.**  Only the loop thread handles events.  Then some interleaving of the
calls leaves a thread waiting for ever if and only if the loop accepts a connection and another
thread sweeps the table and closes a connection that is open. -/
theorem exists_neverDone_iff
    (onLoop : ∀ thread, thread ≠ loop → ∀ call ∈ calls thread, ¬call.HandlesEvent) :
    (∃ labels threads thread, run (step MutexId.recursive) (threadsOf calls) labels = some threads ∧
      NeverDone MutexId.recursive threads thread) ↔
      (∃ call ∈ calls loop, call.Adds) ∧
        ∃ thread, thread ≠ loop ∧ ∃ call ∈ calls thread, call.Shutting := by
  rcases exists_scopes calls with ⟨scopesOf, goesThrough, isStart⟩
  rw [isStart]
  have kinds (thread : T) (scope : Scope MutexId)
      (member : scope ∈ (calls thread).flatMap scopesOf) :
      ∃ call ∈ calls thread, call.HasScope scope := by
    rcases List.mem_flatMap.mp member with ⟨call, isCall, isScope⟩
    exact ⟨call, isCall, (goesThrough call).kinds scope isScope⟩
  have again (thread : T) (scope : Scope MutexId)
      (member : scope ∈ (calls thread).flatMap scopesOf) : scope.Again MutexId.recursive := by
    rcases kinds thread scope member with ⟨call, -, has⟩
    exact has.again
  constructor
  · rintro ⟨labels, threads, thread, ran, never⟩
    by_contra safe
    by_cases shutting : ∃ thread, thread ≠ loop ∧ ∃ call ∈ calls thread, call.Shutting
    · -- no connection is added, so the mutexes are locked in order
      have notAdds (thread : T) (call : ServerCall config) (isCall : call ∈ calls thread) :
          ¬call.Adds := by
        intro adds
        by_cases same : thread = loop
        · exact safe ⟨⟨call, same ▸ isCall, adds⟩, shutting⟩
        · exact onLoop thread same call isCall adds.handlesEvent
      refine not_neverDone (fun _ mutex => ServerCall.level mutex) 2 (fun _ mutex => ?_) again ?_
        ran thread never
      · cases mutex <;> simp [ServerCall.level]
      · intro thread scope member mutex isInner differs other _
        rcases kinds thread scope member with ⟨call, isCall, has⟩
        exact has.level_lt (notAdds thread call isCall) isInner differs
    · -- only the loop thread holds a mutex while it waits for another
      refine not_neverDone (fun thread _ => if thread = loop then 1 else 0) 1 (fun thread _ => ?_)
        again ?_ ran thread never
      · split <;> simp
      · intro thread scope member mutex isInner _ other differs
        rcases kinds thread scope member with ⟨call, isCall, has⟩
        have same : thread = loop := by
          by_contra isOther
          rcases has.handlesEvent_or_shutting isInner with handles | shuts
          · exact onLoop thread isOther call isCall handles
          · exact shutting ⟨thread, isOther, call, isCall, shuts⟩
        rw [if_neg (same ▸ differs), if_pos same]
        exact Nat.zero_lt_one
  · rintro ⟨⟨call, isCall, adds⟩, thread, differs, call', isCall', shuts⟩
    rcases (goesThrough call).adds adds with ⟨scope, member, outer, inner⟩
    rcases (goesThrough call').shutting shuts with ⟨scope', member', outer', inner'⟩
    rcases exists_neverDone differs.symm (List.mem_flatMap.mpr ⟨call, isCall, member⟩)
      (List.mem_flatMap.mpr ⟨call', isCall', member'⟩) (outer' ▸ inner) (outer ▸ inner')
      (by simp [outer, outer']) again with ⟨last, ⟨labels, ran⟩, never⟩
    exact ⟨labels, last, loop, ran, never⟩

/-- A client connects, while another thread stops the server with one client in its table. -/
theorem exists_neverDone_iff_stopping :
    ∃ calls : Bool → List (ServerCall {}),
      (∀ thread, thread ≠ false → ∀ call ∈ calls thread, ¬call.HandlesEvent) ∧
      ∃ labels threads thread,
        run (step MutexId.recursive) (threadsOf calls) labels = some threads ∧
          NeverDone MutexId.recursive threads thread := by
  have arrived : ∃ server, run (WebServer.step {}) (.started 3) [.arrive] = some server ∧
      server.descriptors.callbacks.lookup 3 = some .newConnection ∧
      server.Possible (.accepted 7) :=
    ⟨_, rfl, by decide, by decide⟩
  have served : ∃ server conn,
      run (WebServer.step {}) (.started 3) WebServer.servesOne = some server ∧
      server.clients[0]? = some conn ∧ conn.IsOpen ∧
      FiniteMap.IsOrder server.connections [⟨7, 0⟩] :=
    ⟨_, _, rfl, rfl, by decide, by decide⟩
  rcases arrived with ⟨server, ran, callback, possible⟩
  rcases served with ⟨server', conn, ran', client, opened, isOrder⟩
  let accepts : ServerCall {} :=
    .step server
      (.ioEvent 3 EventLoop.epollRead ⟨.accepted 7, none, .done, 1⟩
        ⟨.endOfFile, .done, .accepted 0, .done, 1⟩)
      ⟨3, _, ran⟩ possible
      (by
        rintro ⟨id, conn, isClient, -⟩
        cases callback.symm.trans isClient)
  let stops : ServerCall {} :=
    .step server' (.closeAllConnections [⟨7, 0⟩]) ⟨3, _, ran'⟩ isOrder id
  have onLoop : ∀ thread, thread ≠ false →
      ∀ call ∈ (if thread then [stops] else [accepts] : List (ServerCall {})),
        ¬call.HandlesEvent := by
    intro thread other
    rw [if_pos ((Bool.eq_false_or_eq_true thread).resolve_right other)]
    exact List.forall_mem_singleton.mpr id
  exact ⟨fun thread => if thread then [stops] else [accepts], onLoop,
    (exists_neverDone_iff onLoop).mpr
      ⟨⟨accepts, .head _, callback, ⟨7, rfl⟩, rfl, rfl⟩, true, by decide, stops, .head _,
        _, .head _, conn, client, opened, trivial⟩⟩

end PPServer.Server
