import PPServer.Library.Scopes
import PPServer.Net.Removal

/-!
# The mutexes that a connection locks

`Close` takes the descriptor from the event loop, which locks `fd_mutex_` for that, and then cleans
up under `buffer_mutex_`.  The other operations lock `buffer_mutex_` alone.  Where an operation
closes the connection under `buffer_mutex_`, it blocks.  So one that does not block never locks a
mutex while it holds another.
-/

namespace PPServer.Net

open Locking LockOrder

/-- The mutexes of the server: `fd_mutex_`, `task_mutex_` and `timer_mutex_` of the event loop,
`mutex_` of the connection manager, and `buffer_mutex_` of each connection. -/
inductive MutexId where
  | fd
  | task
  | timer
  | manager
  | buffer (id : Nat)
  deriving DecidableEq, Repr

/-- `fd_mutex_` and `task_mutex_` are recursive. -/
def MutexId.recursive : MutexId → Bool
  | .fd | .task => true
  | .timer | .manager | .buffer _ => false

/-- `RemoveFd` locks `fd_mutex_`, unlike `UpdateFd`. -/
def Effect.locks : Effect → List (LockAction MutexId)
  | .removeFd _ => sections [.fd]
  | .updateFd _ _ _ | .closeSocket _ | .sent _ | .onConnection | .onDisconnection | .error _ _
  | .readCallback | .writeCallback | .errorCallback _ => []

namespace Connection

variable {id : Nat} {held : Bool} {conn : Connection} {α β : Type} {op first other body : Op α}
variable {next : α → Op β} {events : UInt32} {calls : SystemCalls}

/-- What a step of the connection does with the mutexes. -/
def locks (id : Nat) (before after : Connection) : List (LockAction MutexId) :=
  (after.effects.drop before.effects.length).flatMap Effect.locks ++
    match before.bufferMutexHeld, after.bufferMutexHeld with
    | false, true => [.acquire (.buffer id)]
    | true, false => [.release]
    | false, false | true, true => []

theorem locks_eq_nil {before after : Connection} (effects : after.effects = before.effects)
    (bufferMutexHeld : after.bufferMutexHeld = before.bufferMutexHeld) :
    locks id before after = [] := by
  rw [locks, effects, bufferMutexHeld, List.drop_length]
  cases before.bufferMutexHeld <;> rfl

@[simp] theorem locks_record (conn : Connection) (effect : Effect) :
    locks id conn { conn with effects := conn.effects ++ [effect] } = effect.locks := by
  rw [locks, List.drop_left, List.flatMap_singleton]
  cases conn.bufferMutexHeld <;> exact List.append_nil _

theorem locks_setHeld_true (free : conn.bufferMutexHeld = false) :
    locks id conn (bufferMutex.setHeld true conn) = [.acquire (.buffer id)] := by
  simp [locks, bufferMutex, free]

theorem locks_setHeld_false (locked : conn.bufferMutexHeld = true) :
    locks id conn (bufferMutex.setHeld false conn) = [.release] := by
  simp [locks, bufferMutex, locked]

/-! ## One mutex at a time -/

/-- If the operation does not block, it leaves `buffer_mutex_` as it was, and what it locks it locks
one by one; with the mutex held it locks nothing. -/
def OneByOne (id : Nat) (held : Bool) (steps : Steps op) : Prop :=
  ∀ conn : Connection, conn.bufferMutexHeld = held → ¬Deadlocks op conn →
    (op conn).state.bufferMutexHeld = held ∧
      ∃ inner, (held = true → inner = []) ∧ (∀ mutex ∈ inner, mutex = .fd ∨ mutex = .buffer id) ∧
        steps.seen (locks id) conn = sections inner

/-- Steps that have nothing to do with the mutexes. -/
theorem OneByOne.of_seen_eq_nil {steps : Steps op}
    (same : ∀ conn, (op conn).state.bufferMutexHeld = conn.bufferMutexHeld)
    (nothing : ∀ conn, steps.seen (locks id) conn = []) : OneByOne id held steps := by
  intro conn isHeld _
  refine ⟨(same conn).trans isHeld, [], fun _ => rfl, List.forall_mem_nil _, ?_⟩
  rw [nothing, sections_nil]

namespace OneByOne

protected theorem pure (value : α) :
    OneByOne id held (Steps.pure value : Steps (pure value : Op α)) :=
  .of_seen_eq_nil (fun _ => rfl) fun _ => rfl

protected theorem throwing (error : Exception) :
    OneByOne id held (Steps.throwing error : Steps (Call.throwing error : Op α)) :=
  .of_seen_eq_nil (fun _ => rfl) fun _ => rfl

protected theorem modify {change : Connection → Connection}
    (effects : ∀ conn, (change conn).effects = conn.effects)
    (bufferMutexHeld : ∀ conn, (change conn).bufferMutexHeld = conn.bufferMutexHeld) :
    OneByOne id held (Steps.modify change : Steps (modify change : Op PUnit)) :=
  .of_seen_eq_nil bufferMutexHeld fun conn =>
    (seen_modify change conn).trans (locks_eq_nil (effects conn) (bufferMutexHeld conn))

protected theorem getBind {next : Connection → Op β} {stepsNext : ∀ value, Steps (next value)}
    (oneByOne : ∀ value, OneByOne id held (stepsNext value)) :
    OneByOne id held (Steps.getBind stepsNext) :=
  fun conn isHeld ends => oneByOne conn conn isHeld ends

protected theorem bind {steps : Steps first} {stepsNext : ∀ value, Steps (next value)}
    (oneByOne : OneByOne id held steps)
    (oneByOneNext : ∀ value, OneByOne id held (stepsNext value)) :
    OneByOne id held (steps.bind stepsNext) := by
  intro conn isHeld ends
  rw [deadlocks_bind_iff] at ends
  push Not at ends
  rcases oneByOne conn isHeld ends.1 with ⟨isHeld', inner, noneHeld, allowed, seen⟩
  rw [seen_bind, seen, Call.bind_apply]
  cases outcome : first conn with
  | returned value after =>
      rw [outcome] at isHeld'
      rcases oneByOneNext value after isHeld' (ends.2 value after outcome) with
        ⟨isHeld', inner', noneHeld', allowed', seen'⟩
      refine ⟨isHeld', inner ++ inner', fun locked => ?_, ?_, ?_⟩
      · rw [noneHeld locked, noneHeld' locked, List.append_nil]
      · exact List.forall_mem_append.mpr ⟨allowed, allowed'⟩
      · rw [sections_append]
        exact congrArg _ seen'
  | threw error after =>
      rw [outcome] at isHeld'
      exact ⟨isHeld', inner, noneHeld, allowed, List.append_nil _⟩
  | deadlocked after => exact absurd ⟨after, outcome⟩ ends.1

protected theorem ite {condition : Prop} [Decidable condition] {steps : Steps first}
    {stepsOther : Steps other} (oneByOne : OneByOne id held steps)
    (oneByOneOther : OneByOne id held stepsOther) :
    OneByOne id held (Steps.ite steps stepsOther : Steps (if condition then first else other)) := by
  intro conn isHeld ends
  rw [seen_ite]
  by_cases holds : condition
  · simp only [if_pos holds] at ends ⊢
    exact oneByOne conn isHeld ends
  · simp only [if_neg holds] at ends ⊢
    exact oneByOneOther conn isHeld ends

/-- The mutex is locked around steps that lock nothing. -/
protected theorem lockGuard {steps : Steps body} (oneByOne : OneByOne id true steps) :
    OneByOne id false (steps.lockGuard bufferMutex) := by
  intro conn free ends
  have free' : bufferMutex.held conn = false := free
  rw [deadlocks_lockGuard_iff free'] at ends
  rcases oneByOne (bufferMutex.setHeld true conn) rfl ends with
    ⟨locked, inner, noneHeld, -, seen⟩
  rw [noneHeld rfl, sections_nil] at seen
  rw [seen_lockGuard steps free', lockGuard_of_free free', seen, List.nil_append,
    locks_setHeld_true free]
  cases outcome : body (bufferMutex.setHeld true conn) with
  | returned value after | threw error after =>
      rw [outcome] at locked
      refine ⟨rfl, [.buffer id], nofun, by simp, ?_⟩
      exact congrArg _ (locks_setHeld_false locked)
  | deadlocked after => exact absurd ⟨after, outcome⟩ ends

end OneByOne

/-! ## The operations -/

theorem oneByOne_record {effect : Effect} (locksNothing : effect.locks = []) :
    OneByOne id held (recordSteps effect) :=
  .of_seen_eq_nil (fun _ => rfl) fun conn =>
    (seen_modify _ conn).trans ((locks_record conn effect).trans locksNothing)

theorem oneByOne_setState (state : ConnectionState) : OneByOne id held (setStateSteps state) :=
  .modify (fun _ => rfl) fun _ => rfl

theorem oneByOne_updateFd (fd : Int) (read write : Bool) (epoll : EpollMod) :
    OneByOne id held (updateFdSteps fd read write epoll) := by
  cases epoll with
  | done => exact oneByOne_record rfl
  | failed text => exact .throwing _

theorem oneByOne_notifyError (message : Bytes) : OneByOne id held (notifyErrorSteps message) :=
  .getBind fun _ => .bind (oneByOne_record rfl) fun _ => .ite (oneByOne_record rfl) (.pure _)

theorem oneByOne_cleanupResources : OneByOne id false cleanupResourcesSteps :=
  .lockGuard <| .bind (.modify (fun _ => rfl) fun _ => rfl) fun _ =>
    .modify (fun _ => rfl) fun _ => rfl

theorem oneByOne_disconnect (conn : Connection) : OneByOne id false (disconnectSteps conn) := by
  have last : OneByOne id false (cleanupResourcesSteps.bind fun _ => setStateSteps .disconnected) :=
    .bind oneByOne_cleanupResources fun _ => oneByOne_setState _
  exact .ite (.bind (oneByOne_record rfl) fun _ => last) last

/-- Removing the descriptor locks `fd_mutex_`. -/
theorem oneByOne_removeFd (fd : Int) : OneByOne id false (recordSteps (.removeFd fd)) := by
  intro conn free _
  refine ⟨free, [.fd], nofun, by simp, ?_⟩
  exact (seen_modify _ conn).trans (locks_record conn _)

theorem seen_close_of_closed (closed : ¬conn.IsOpen) : closeSteps.seen (locks id) conn = [] := by
  have isClosed : conn.state = .disconnected ∨ conn.state = .closing := by
    rwa [IsOpen, ← not_or, not_not] at closed
  have states : closeSteps.states conn = [] := if_pos isClosed
  rw [Steps.seen, states, seenFrom]

/-- Closing an open connection removes its descriptor before all else. -/
theorem seen_close_of_open (opened : conn.IsOpen) :
    sections [.fd] <+: closeSteps.seen (locks id) conn := by
  have goesOn : ¬(conn.state = .disconnected ∨ conn.state = .closing) := not_or.mpr opened
  let closing : Connection := { conn with state := .closing }
  let removed : Connection :=
    { closing with effects := conn.effects ++ [.removeFd conn.socketFd] }
  have begins : ∃ states, closeSteps.states conn = closing :: removed :: states :=
    ⟨_, if_neg goesOn⟩
  rcases begins with ⟨states, isStates⟩
  have nothing : locks id conn closing = [] := locks_eq_nil rfl rfl
  have removes : locks id closing removed = sections [.fd] := locks_record _ _
  rw [Steps.seen, isStates, seenFrom, seenFrom, nothing, removes]
  exact List.prefix_append _ _

/-- With the mutex held, `Close` blocks unless it has nothing to do. -/
theorem oneByOne_close : OneByOne id held closeSteps := by
  cases held with
  | false =>
      exact .getBind fun conn => .ite (.pure _) <|
        .bind (oneByOne_setState _) fun _ => .bind (oneByOne_removeFd _) fun _ =>
          .ite
            (.bind (oneByOne_record rfl) fun _ => .bind (.modify (fun _ => rfl) fun _ => rfl)
              fun _ => oneByOne_disconnect conn)
            (oneByOne_disconnect conn)
  | true =>
      intro conn locked ends
      have closed : ¬conn.IsOpen := fun opened => ends (deadlocks_close_iff.mpr ⟨opened, locked⟩)
      rw [close_of_closed closed, seen_close_of_closed closed]
      exact ⟨locked, [], fun _ => rfl, List.forall_mem_nil _, rfl⟩

theorem oneByOne_destroy : OneByOne id false destroySteps := by
  have drops (conn : Connection) : OneByOne id false (dropSteps conn) :=
    .ite (.pure _) (.bind oneByOne_cleanupResources fun _ => oneByOne_setState _)
  exact .getBind fun conn => .ite (.pure _) <|
    .bind (oneByOne_setState _) fun _ => .bind (oneByOne_removeFd _) fun _ =>
      .ite
        (.bind (oneByOne_record rfl) fun _ => .bind (.modify (fun _ => rfl) fun _ => rfl)
          fun _ => drops conn)
        (drops conn)

theorem seen_setHandler (conn : Connection) : setHandlerSteps.seen (locks id) conn = [] :=
  (seen_modify _ conn).trans (locks_eq_nil rfl rfl)

/-- `Start` locks nothing. -/
theorem seen_start (now : Nat) (conn : Connection) :
    (startSteps now).seen (locks id) conn = [] := by
  have within : Within (fun before after => locks id before after = []) (startSteps now) :=
    .bind (.modify fun _ => locks_eq_nil rfl rfl) fun _ =>
      .bind (.modify fun _ => locks_eq_nil rfl rfl) fun _ => .getBind fun _ =>
        .ite (.modify fun conn => locks_record conn .onConnection) (.pure _)
  exact within.seen_eq_nil conn

theorem oneByOne_notifyAndClose (message : Bytes) (value : α) :
    OneByOne id held ((notifyErrorSteps message).bind fun _ => closeSteps.bind fun _ =>
      .pure value) :=
  .bind (oneByOne_notifyError _) fun _ => .bind oneByOne_close fun _ => .pure _

theorem oneByOne_readData (read : SocketRead) (now : Nat) :
    OneByOne id false (readDataSteps read now) := by
  cases read with
  | received data nonempty fits =>
      exact .getBind fun _ => .ite (.pure _) <|
        .bind (.modify (fun _ => rfl) fun _ => rfl) fun _ => .lockGuard <|
          .bind (.modify (fun _ => rfl) fun _ => rfl) fun _ => .getBind fun _ =>
            .ite (oneByOne_notifyAndClose _ _)
              (.bind (oneByOne_setState _) fun _ => .pure _)
  | endOfFile =>
      exact .getBind fun _ => .ite (.pure _) <| .bind oneByOne_close fun _ => .pure _
  | failed wouldBlock text =>
      exact .getBind fun _ => .ite (.pure _) (.ite (oneByOne_notifyAndClose _ _) (.pure _))

theorem oneByOne_writeData (data : Bytes) (epoll : EpollMod) :
    OneByOne id false (writeDataSteps data epoll) :=
  .lockGuard <| .getBind fun _ => .bind (.modify (fun _ => rfl) fun _ => rfl) fun _ =>
    .getBind fun _ =>
      .ite (oneByOne_notifyAndClose _ _)
        (.ite
          (.bind (oneByOne_updateFd _ _ _ epoll) fun _ => .bind (oneByOne_setState _) fun _ =>
            .pure _)
          (.pure _))

theorem oneByOne_defaultHandleRead (read : SocketRead) (now : Nat) :
    OneByOne id false (defaultHandleReadSteps read now) :=
  .bind (oneByOne_readData read now) fun _ =>
    .ite (.getBind fun _ => .ite (oneByOne_record rfl) (.pure _)) (.pure _)

theorem oneByOne_defaultHandleWrite (write : SocketWrite) (epoll : EpollMod) :
    OneByOne id false (defaultHandleWriteSteps write epoll) := by
  cases write with
  | accepted count =>
      exact .lockGuard <| .getBind fun _ =>
        .ite
          (.ite
            (.bind (oneByOne_record rfl) fun _ => .bind (.modify (fun _ => rfl) fun _ => rfl)
              fun _ => .getBind fun _ =>
                .ite
                  (.bind (oneByOne_updateFd _ _ _ epoll) fun _ =>
                    .bind (oneByOne_setState _) fun _ => .ite (oneByOne_record rfl) (.pure _))
                  (.pure _))
            (.pure _))
          (.pure _)
  | failed wouldBlock text =>
      exact .lockGuard <| .getBind fun _ =>
        .ite (.ite (.bind (oneByOne_notifyError _) fun _ => oneByOne_close) (.pure _)) (.pure _)

theorem oneByOne_handleRead (read : SocketRead) (now : Nat) (epoll : EpollMod) :
    OneByOne id false (handleReadSteps read now epoll) :=
  .bind (oneByOne_readData read now) fun _ =>
    .ite (.bind oneByOne_close fun _ => .pure _) <|
      .ite (.bind oneByOne_close fun _ => .pure _) <|
        .bind (.lockGuard <| .getBind fun _ => .pure _) fun _ =>
          .ite
            (.bind (oneByOne_writeData _ epoll) fun _ =>
              .lockGuard (.modify (fun _ => rfl) fun _ => rfl))
            (.pure _)

theorem oneByOne_onAny (events flags : UInt32) {handler : Op PUnit} {steps : Steps handler}
    (oneByOne : OneByOne id held steps) : OneByOne id held (onAnySteps events flags steps) :=
  .ite oneByOne (.pure _)

/-- The callback of a client. -/
theorem oneByOne_callback (events : UInt32) (calls : SystemCalls) :
    OneByOne id false (callbackSteps events calls) :=
  .bind (oneByOne_onAny _ _ (.getBind fun _ =>
      .ite (oneByOne_handleRead _ _ _) (oneByOne_defaultHandleRead _ _))) fun _ =>
    .bind (oneByOne_onAny _ _ (.getBind fun _ =>
        .ite (oneByOne_defaultHandleWrite _ _) (oneByOne_defaultHandleWrite _ _))) fun _ =>
      oneByOne_onAny _ _ (.getBind fun _ =>
        .ite (.bind (oneByOne_notifyError _) fun _ => oneByOne_close)
          (.bind (oneByOne_notifyError _) fun _ => oneByOne_close))

end Connection

end PPServer.Net
