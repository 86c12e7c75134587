import PPServer.Server.Listening
import PPServer.Server.Signals

/-!
# `Start` and `Stop`

`Start` makes five calls that can fail, and has made a part of the listening socket at each of
them.  Between the calls of `Start` and `Stop` the server works.  What the kernel knows of the
sockets of `Start` is kept beside the process, so that it can be told what is left of them.
-/

namespace PPServer.Server

open Locking Net EventLoop

/-- The outcomes of the calls of `Start`. -/
structure StartCalls where
  /-- The descriptor that `socket` returns, `none` if it fails. -/
  socket : Option Int
  inetPton : Bool
  bind : Bool
  listen : Bool
  epollAdd : EpollAdd

/-- All calls after `socket` succeed. -/
def StartCalls.Succeeds (calls : StartCalls) : Prop :=
  calls.inetPton = true ∧ calls.bind = true ∧ calls.listen = true ∧ calls.epollAdd = .done

/-- The process with the sockets that `Start` has opened and nobody has closed. -/
structure Lifecycle where
  process : Process
  opened : Finset Int := ∅
  /-- Those that `listen` has been called on with success. -/
  listening : Finset Int := ∅

namespace Lifecycle

abbrev Op (α : Type) := Call Exception Lifecycle α

/-! ## The calls -/

/-- The state with another server and another descriptor of the listening socket. -/
def setServer (state : Lifecycle) (server : WebServer) : Lifecycle :=
  { state with process := { state.process with server } }

def setListenFd (fd : Int) : Op PUnit :=
  modify fun state => { state with process := { state.process with listenFd := fd } }

/-- `socket`, which answers -1 where it fails. -/
def socket : Option Int → Op Int
  | some fd => do
      modify fun state =>
        { state.setServer { state.process.server with
            openFds := insert fd state.process.server.openFds } with
          opened := insert fd state.opened }
      return fd
  | none => return -1

def closeSocket (fd : Int) : Op PUnit :=
  modify fun state =>
    { state.setServer (state.process.server.perform (.closeSocket fd)) with
      opened := state.opened.erase fd
      listening := state.listening.erase fd }

/-- `AddFd` with the lambda that calls `HandleNewConnection`. -/
def addFd (fd : Int) (epollAdd : EpollAdd) : Op PUnit := fun state =>
  (WebServer.addFd fd epollRead .newConnection epollAdd state.process.server).mapState
    state.setServer

/-- `Start`.  Nothing depends on whether `setsockopt` succeeds. -/
def start (calls : StartCalls) : Op Bool := do
  let state ← get
  if state.process.running then return true
  let fd ← socket calls.socket
  setListenFd fd
  if fd < 0 then return false
  if !calls.inetPton then
    closeSocket fd
    return false
  if !calls.bind then
    closeSocket fd
    return false
  if !calls.listen then
    closeSocket fd
    return false
  modify fun state => { state with listening := insert fd state.listening }
  addFd fd calls.epollAdd
  modify fun state => { state with process := { state.process with running := true } }
  return true

/-- The state after the process has gone on.  A socket of `Start` that is no longer open has been
closed. -/
def goesOn (state : Lifecycle) (process : Process) : Lifecycle where
  process := process
  opened := state.opened ∩ process.server.openFds
  listening := state.listening ∩ process.server.openFds

def stop (order : List (Σ _ : Int, Nat)) : Op PUnit := fun state =>
  (Process.stop order state.process).mapState state.goesOn

/-! ## Steps -/

inductive Action where
  | start (calls : StartCalls)
  | stop (order : List (Σ _ : Int, Nat))
  /-- The server works, whether it listens or not. -/
  | work (action : WebServer.Action)

/-- What the kernel can answer to `socket`. -/
def Possible (state : Lifecycle) (calls : StartCalls) : Prop :=
  ∀ fd ∈ calls.socket, 0 ≤ fd ∧ fd ∉ state.process.server.openFds

instance (state : Lifecycle) (calls : StartCalls) : Decidable (state.Possible calls) :=
  inferInstanceAs (Decidable (∀ fd ∈ calls.socket, _))

/-- One step, `none` if it is not possible or does not come to an end. -/
def step (config : Config) (state : Lifecycle) : Action → Option Lifecycle
  | .start calls => if state.Possible calls then (start calls state).ending else none
  | .stop order =>
      if FiniteMap.IsOrder state.process.server.connections order then
        (stop order state).ending
      else none
  | .work action => (WebServer.step config state.process.server action).map fun server =>
      state.goesOn { state.process with server }

/-- The server that the constructor has made, beside an event loop. -/
def constructed (loopRunning : Bool) (eventFd : Nat) : Lifecycle where
  process := { server := {}, running := false, listenFd := -1, loopRunning, eventFd }

variable {config : Config} {state next : Lifecycle} {calls : StartCalls} {fd : Int}

/-! ## How `Start` ends -/

/-- `socket` has returned the descriptor. -/
def took (state : Lifecycle) (fd : Int) : Lifecycle where
  process :=
    { state.process with
      server := { state.process.server with openFds := insert fd state.process.server.openFds }
      listenFd := fd }
  opened := insert fd state.opened
  listening := state.listening

/-- The socket is closed again. -/
def refused (state : Lifecycle) (fd : Int) : Lifecycle :=
  { (state.took fd).setServer ((state.took fd).process.server.perform (.closeSocket fd)) with
    opened := (state.took fd).opened.erase fd
    listening := state.listening.erase fd }

/-- `listen` has succeeded. -/
def listens (state : Lifecycle) (fd : Int) : Lifecycle :=
  { state.took fd with listening := insert fd state.listening }

/-- The event loop watches the socket. -/
def watches (state : Lifecycle) (fd : Int) : Lifecycle :=
  (state.listens fd).setServer
    { (state.took fd).process.server with
      descriptors := state.process.server.descriptors.addFd fd epollRead .newConnection }

theorem start_of_running (running : state.process.running = true) :
    start calls state = .returned true state := by
  simp [start, running]

theorem start_of_no_socket (idle : state.process.running = false) (failed : calls.socket = none) :
    start calls state =
      .returned false { state with process := { state.process with listenFd := -1 } } := by
  simp [-bind_pure_comp, start, idle, failed, socket, setListenFd]

theorem start_of_socket (idle : state.process.running = false) (opened : calls.socket = some fd)
    (valid : 0 ≤ fd) :
    start calls state =
      if calls.inetPton = true ∧ calls.bind = true ∧ calls.listen = true then
        match calls.epollAdd with
        | .done => .returned true
            { state.watches fd with
              process := { (state.watches fd).process with running := true } }
        | .failed text => .threw
            (.runtimeError (bytes "Failed to add fd to epoll: " ++ text)) (state.listens fd)
      else .returned false (state.refused fd) := by
  rcases calls with ⟨socketCall, inetPton, bind, listen, epollAdd⟩
  cases opened
  have nonneg : ¬fd < 0 := Int.not_lt.mpr valid
  have begins : start ⟨some fd, inetPton, bind, listen, epollAdd⟩ state = (do
      if !inetPton then
        closeSocket fd
        return false
      if !bind then
        closeSocket fd
        return false
      if !listen then
        closeSocket fd
        return false
      modify fun state => { state with listening := insert fd state.listening }
      addFd fd epollAdd
      modify fun state => { state with process := { state.process with running := true } }
      return true : Op Bool) (state.took fd) := by
    rw [start, Call.get_bind_apply, if_neg (by simp [idle])]
    exact congrFun (if_neg nonneg) (state.took fd)
  rw [begins]
  cases inetPton with
  | false => rfl
  | true =>
      cases bind with
      | false => rfl
      | true =>
          cases listen with
          | false => rfl
          | true => cases epollAdd <;> rfl

/-! ## All or nothing -/

/-- The server listens. -/
structure Serving (state : Lifecycle) : Prop where
  running : state.process.running = true
  isOpen : state.process.listenFd ∈ state.process.server.openFds
  listening : state.process.listenFd ∈ state.listening
  callback : state.process.server.descriptors.callbacks.lookup state.process.listenFd =
    some .newConnection
  interest : state.process.listenFd ∈ state.process.server.descriptors.interest

/-- Nothing is left of any socket of `Start`. -/
structure Resting (state : Lifecycle) : Prop where
  running : state.process.running = false
  listenFd : state.process.listenFd = -1
  opened : state.opened = ∅
  callbacks : ∀ fd, state.process.server.descriptors.callbacks.lookup fd ≠ some .newConnection

def AllOrNothing (state : Lifecycle) : Prop := state.Serving ∨ state.Resting

/-- The step does not get stuck half-way through `Start`. -/
def Meets (state : Lifecycle) : Action → Prop
  | .start calls => state.process.running = false → calls.socket = none ∨ calls.Succeeds
  | .stop _ | .work _ => True

/-- The sockets of `Start` are no others than that of `listen_fd_`. -/
structure Single (state : Lifecycle) : Prop where
  nonneg : 0 ≤ state.process.listenFd
  opened : state.opened ⊆ {state.process.listenFd}
  callbacks : ∀ fd, state.process.server.descriptors.callbacks.lookup fd = some .newConnection →
    fd = state.process.listenFd

/-- What every step keeps that does not get stuck. -/
structure Sound (state : Lifecycle) : Prop where
  server : state.process.server.Invariant
  allOrNothing : state.Serving ∧ state.Single ∨ state.Resting

theorem Sound.whole (sound : state.Sound) : state.AllOrNothing :=
  sound.allOrNothing.imp_left And.left

theorem sound_constructed (loopRunning : Bool) (eventFd : Nat) :
    (constructed loopRunning eventFd).Sound where
  server :=
    { consistent :=
        { ready := by intro id conn client; cases client
          opened := by intro id conn client; cases client
          registered := by intro fd id callback; cases callback
          listening := by intro fd callback; cases callback }
      free := rfl }
  allOrNothing := .inr
    { running := rfl
      listenFd := rfl
      opened := rfl
      callbacks := by intro fd callback; cases callback }

/-! ## `Start` -/

/-- The server that `AddFd` makes of one with a new listening socket. -/
theorem consistent_watches (consistent : state.process.server.Consistent)
    (fresh : fd ∉ state.process.server.openFds) :
    (state.watches fd).process.server.Consistent := by
  have unused := consistent.lookup_of_fresh fresh
  have lookup {other : Int} {id : Nat} :
      (state.process.server.descriptors.callbacks.insert fd Callback.newConnection).lookup other =
        some (.client id) ↔
      state.process.server.descriptors.callbacks.lookup other = some (.client id) := by
    rw [FiniteMap.lookup_insert_eq_some_iff]
    constructor
    · rintro (⟨-, ⟨⟩⟩ | ⟨-, callback⟩)
      exact callback
    · intro callback
      refine .inr ⟨?_, callback⟩
      rintro rfl
      cases unused.symm.trans callback
  refine ⟨consistent.ready, ?_, ?_, ?_⟩
  · intro id conn client opened
    have known := consistent.opened id conn client opened
    exact ⟨Finset.mem_insert_of_mem known.1, lookup.mpr known.2⟩
  · intro other id callback
    exact consistent.registered other id (lookup.mp callback)
  · intro other callback
    rcases FiniteMap.lookup_insert_eq_some_iff.mp callback with ⟨rfl, -⟩ | ⟨-, callback⟩
    · exact Finset.mem_insert_self other _
    · exact Finset.mem_insert_of_mem (consistent.listening other callback)

/-- A new listening socket. -/
theorem Sound.start (sound : state.Sound) (resting : state.Resting) (valid : 0 ≤ fd)
    (fresh : fd ∉ state.process.server.openFds) :
    Sound { state.watches fd with
      process := { (state.watches fd).process with running := true } } where
  server := ⟨consistent_watches sound.server.consistent fresh, sound.server.free⟩
  allOrNothing := by
    left
    constructor
    · exact ⟨rfl, Finset.mem_insert_self fd _, Finset.mem_insert_self fd _,
        Finmap.lookup_insert _, Finmap.mem_insert.mpr (.inl rfl)⟩
    · refine ⟨valid, ?_, ?_⟩
      · change insert fd state.opened ⊆ {fd}
        rw [resting.opened]
        exact Finset.Subset.refl _
      · intro other callback
        rcases FiniteMap.lookup_insert_eq_some_iff.mp callback with ⟨rfl, -⟩ | ⟨-, callback⟩
        · rfl
        · exact absurd callback (resting.callbacks other)

/-- Where a later call fails, the descriptor is kept in `listen_fd_`. -/
theorem not_allOrNothing_of_listenFd (running : next.process.running = false)
    (kept : 0 ≤ next.process.listenFd) : ¬next.AllOrNothing := by
  rintro (serving | resting)
  · cases running.symm.trans serving.running
  · rw [resting.listenFd] at kept
    exact absurd kept (by decide)

theorem Sound.resting (sound : state.Sound) (idle : state.process.running = false) :
    state.Resting := by
  rcases sound.allOrNothing with ⟨serving, -⟩ | resting
  · cases idle.symm.trans serving.running
  · exact resting

/-- Either `Start` does not get stuck, and what it leaves is sound, or it leaves a descriptor that
it has closed, or a socket that it has not. -/
theorem Sound.start_cases (sound : state.Sound) (possible : state.Possible calls)
    (ends : (Lifecycle.start calls state).ending = some next) :
    state.Meets (.start calls) ∧ next.Sound ∨
      ¬state.Meets (.start calls) ∧ ¬next.AllOrNothing := by
  cases running : state.process.running with
  | true =>
      rw [start_of_running running] at ends
      cases ends
      exact .inl ⟨fun idle => absurd (idle.symm.trans running) (by decide), sound⟩
  | false =>
      have resting := sound.resting running
      cases opened : calls.socket with
      | none =>
          rw [start_of_no_socket running opened] at ends
          cases ends
          exact .inl ⟨fun _ => .inl opened, sound.server,
            .inr ⟨running, rfl, resting.opened, resting.callbacks⟩⟩
      | some fd =>
          have valid := (possible fd opened).1
          have stuck (fails : ¬calls.Succeeds) : ¬state.Meets (.start calls) := by
            intro met
            rcases met running with failed | succeeds
            · cases opened.symm.trans failed
            · exact fails succeeds
          rw [start_of_socket running opened valid] at ends
          split at ends
          next succeeded =>
              cases added : calls.epollAdd with
              | done =>
                  rw [added] at ends
                  cases ends
                  have succeeds : calls.Succeeds :=
                    ⟨succeeded.1, succeeded.2.1, succeeded.2.2, added⟩
                  exact .inl ⟨fun _ => .inr succeeds,
                    sound.start resting valid (possible fd opened).2⟩
              | failed text =>
                  rw [added] at ends
                  cases ends
                  have fails : ¬calls.Succeeds := fun succeeds => by
                    cases added.symm.trans succeeds.2.2.2
                  exact .inr ⟨stuck fails, not_allOrNothing_of_listenFd running valid⟩
          next refused =>
              cases ends
              have fails : ¬calls.Succeeds := fun succeeds =>
                refused ⟨succeeds.1, succeeds.2.1, succeeds.2.2.1⟩
              exact .inr ⟨stuck fails, not_allOrNothing_of_listenFd running valid⟩

/-! ## `Stop` and the server at work -/

/-- The server goes on without opening or closing a listening socket. -/
theorem Sound.goesOn (sound : state.Sound) {server : WebServer} (invariant : server.Invariant)
    (spares : state.process.server.Spares server) :
    (state.goesOn { state.process with server }).Sound where
  server := invariant
  allOrNothing := by
    rcases sound.allOrNothing with ⟨serving, single⟩ | resting
    · left
      have callback := (spares.callbacks state.process.listenFd).mpr serving.callback
      have isOpen := invariant.consistent.listening state.process.listenFd callback
      constructor
      · exact ⟨serving.running, isOpen, Finset.mem_inter.mpr ⟨serving.listening, isOpen⟩, callback,
          spares.interest state.process.listenFd serving.callback serving.interest⟩
      · exact ⟨single.nonneg, Finset.inter_subset_left.trans single.opened,
          fun fd callback => single.callbacks fd ((spares.callbacks fd).mp callback)⟩
    · right
      refine ⟨resting.running, resting.listenFd, ?_, fun fd callback =>
        resting.callbacks fd ((spares.callbacks fd).mp callback)⟩
      change state.opened ∩ server.openFds = ∅
      rw [resting.opened, Finset.empty_inter]

/-- The server without its listening socket. -/
def unlistening (process : Process) : WebServer :=
  (process.server.perform (.removeFd process.listenFd)).perform (.closeSocket process.listenFd)

theorem final_stop {process after : Process} {order : List (Σ _ : Int, Nat)}
    (running : process.running = true) (valid : 0 ≤ process.listenFd)
    (final : (Process.stop order process).Final after) :
    (WebServer.closeAllConnections order (unlistening process)).Final after.server ∧
      after.running = false ∧ after.listenFd = -1 := by
  have stops : Process.stop order process = (do
      Process.onServer (WebServer.closeAllConnections order)
      Process.stopLoop : Process.Op PUnit)
        { process with server := unlistening process, running := false, listenFd := -1 } := by
    rw [Process.stop, Call.get_bind_apply, if_neg (by simp [running])]
    exact congrFun (if_pos valid) { process with running := false }
  rw [stops, Call.bind_apply, Process.onServer] at final
  cases outcome : WebServer.closeAllConnections order (unlistening process) with
  | returned value server | threw error server =>
      rw [outcome] at final
      cases final
      exact ⟨rfl, rfl, rfl⟩
  | deadlocked server =>
      rw [outcome] at final
      exact final.elim

theorem consistent_unlistening {process : Process} (consistent : process.server.Consistent)
    (callback : process.server.descriptors.callbacks.lookup process.listenFd =
      some .newConnection) : (unlistening process).Consistent := by
  have apart {fd : Int} {id : Nat}
      (client : process.server.descriptors.callbacks.lookup fd = some (.client id)) :
      fd ≠ process.listenFd := by
    rintro rfl
    cases callback.symm.trans client
  constructor
  case ready => exact consistent.ready
  case opened =>
    intro id conn client opened
    have known := consistent.opened id conn client opened
    have differs := apart known.2
    exact ⟨Finset.mem_erase.mpr ⟨differs, known.1⟩,
      FiniteMap.lookup_erase_eq_some_iff.mpr ⟨differs, known.2⟩⟩
  case registered =>
    intro fd id client
    exact consistent.registered fd id (FiniteMap.lookup_erase_eq_some_iff.mp client).2
  case listening =>
    intro fd listens
    rcases FiniteMap.lookup_erase_eq_some_iff.mp listens with ⟨differs, listens⟩
    exact Finset.mem_erase.mpr ⟨differs, consistent.listening fd listens⟩

/-- Closing connections opens no descriptor. -/
theorem openFds_closeClient_subset {server : WebServer} (consistent : server.Consistent)
    (id : Nat) : (server.closeClient id).openFds ⊆ server.openFds := by
  rcases consistent.closeClient_cases id with ⟨conn, interest, -, -, closed⟩ | ⟨-, closed⟩
  · rw [closed]
    exact Finset.erase_subset _ _
  · rw [closed]

theorem openFds_closeAllConnections_subset {server last : WebServer}
    {order : List (Σ _ : Int, Nat)} (invariant : server.Invariant)
    (isOrder : FiniteMap.IsOrder server.connections order)
    (final : (WebServer.closeAllConnections order server).Final last) :
    last.openFds ⊆ server.openFds := by
  have taken : WebServer.step {} server (.closeAllConnections order) = some last :=
    Option.ite_none_right_eq_some.mpr ⟨isOrder, Outcome.ending_eq_some_iff.mpr final⟩
  cases WebServer.step_cases invariant.consistent invariant.free taken with
  | closeAll =>
      have closed := order.foldlRecOn
        (motive := fun middle : WebServer =>
          middle.Consistent ∧ middle.openFds ⊆ server.openFds)
        (fun (server : WebServer) entry => server.closeClient entry.2)
        ⟨invariant.consistent.locked true, Finset.Subset.refl _⟩
        fun middle known entry _ => ⟨known.1.closeClient entry.2,
          (openFds_closeClient_subset known.1 entry.2).trans known.2⟩
      exact closed.2

theorem Sound.stop {order : List (Σ _ : Int, Nat)} (sound : state.Sound)
    (isOrder : FiniteMap.IsOrder state.process.server.connections order)
    (ends : (Lifecycle.stop order state).ending = some next) : next.Sound := by
  rw [Outcome.ending_eq_some_iff, Lifecycle.stop, final_mapState_iff] at ends
  rcases ends with ⟨process, final, rfl⟩
  rcases sound.allOrNothing with ⟨serving, single⟩ | resting
  · rcases final_stop serving.running single.nonneg final with ⟨closes, running, listenFd⟩
    have invariant : (unlistening state.process).Invariant :=
      ⟨consistent_unlistening sound.server.consistent serving.callback, sound.server.free⟩
    have taken : WebServer.step {} (unlistening state.process) (.closeAllConnections order) =
        some process.server :=
      Option.ite_none_right_eq_some.mpr ⟨isOrder, Outcome.ending_eq_some_iff.mpr closes⟩
    have spares := invariant.spares taken
    constructor
    case server => exact WebServer.keeps_invariant {} _ _ _ trivial taken invariant
    case allOrNothing =>
      refine .inr ⟨running, listenFd, ?_, ?_⟩
      · apply Finset.eq_empty_of_forall_notMem
        intro fd member
        rcases Finset.mem_inter.mp member with ⟨opened, isOpen⟩
        have same := Finset.mem_singleton.mp (single.opened opened)
        have still := openFds_closeAllConnections_subset invariant isOrder closes isOpen
        exact (Finset.mem_erase.mp still).1 same
      · intro fd callback
        have before := (spares.callbacks fd).mp callback
        rcases FiniteMap.lookup_erase_eq_some_iff.mp before with ⟨differs, callback⟩
        exact differs (single.callbacks fd callback)
  · have nothing : Process.stop order state.process = .returned ⟨⟩ state.process := by
      simp [Process.stop, resting.running]
    rw [nothing] at final
    cases final
    exact sound.goesOn sound.server (.refl _)

/-! ## Runs -/

theorem Sound.step_cases {action : Action} (sound : state.Sound)
    (taken : step config state action = some next) :
    state.Meets action ∧ next.Sound ∨ ¬state.Meets action ∧ ¬next.AllOrNothing := by
  cases action with
  | start calls =>
      rcases Option.ite_none_right_eq_some.mp taken with ⟨possible, ends⟩
      exact sound.start_cases possible ends
  | stop order =>
      rcases Option.ite_none_right_eq_some.mp taken with ⟨isOrder, ends⟩
      exact .inl ⟨trivial, sound.stop isOrder ends⟩
  | work action =>
      rcases Option.map_eq_some_iff.mp taken with ⟨server, worked, rfl⟩
      have invariant := WebServer.keeps_invariant config _ action server trivial worked sound.server
      exact .inl ⟨trivial, sound.goesOn invariant (sound.server.spares worked)⟩

/-- **`Start` is all-or-nothing exactly as long as it does not get stuck.**  In a run of `Start`
and `Stop` and of the server between them, every state has either a server that listens or nothing
left of any listening socket, exactly if every `Start` of a stopped server fails at `socket` or not
at all. -/
theorem allOrNothing_iff (config : Config) (loopRunning : Bool) (eventFd : Nat)
    (actions : List Action) :
    (∀ visited, Transition.Visits (step config) (constructed loopRunning eventFd) actions visited →
      visited.AllOrNothing) ↔
    ∀ current calls next, Transition.Takes (step config) (constructed loopRunning eventFd) actions
        current (.start calls) next →
      current.process.running = false → calls.socket = none ∨ calls.Succeeds := by
  have start := sound_constructed loopRunning eventFd
  constructor
  · intro whole current calls next takes
    -- As long as all is well the states are sound, so a step that gets stuck would be seen.
    have grows : ∀ state action next, step config state action = some next → state.Sound →
        (∀ other, step config state action = some other → other.AllOrNothing) → next.Sound := by
      intro state action next taken sound wholeNext
      rcases sound.step_cases taken with ⟨-, soundNext⟩ | ⟨-, broken⟩
      · exact soundNext
      · exact absurd (wholeNext next taken) broken
    have seen : ∀ state action next, Transition.Takes (step config)
        (constructed loopRunning eventFd) actions state action next →
        ∀ other, step config state action = some other → other.AllOrNothing := by
      intro state action next takes other taken
      cases takes.taken.symm.trans taken
      exact whole next takes.visits_next
    have sound := Transition.forall_visits_of_takes start grows seen current takes.visits
    rcases sound.step_cases takes.taken with ⟨meets, -⟩ | ⟨-, broken⟩
    · exact meets
    · exact absurd (whole next takes.visits_next) broken
  · intro unstuck visited visits
    have grows : ∀ state action next, step config state action = some next → state.Sound →
        state.Meets action → next.Sound := by
      intro state action next taken sound met
      rcases sound.step_cases taken with ⟨-, soundNext⟩ | ⟨stuck, -⟩
      · exact soundNext
      · exact absurd met stuck
    have met : ∀ state action next, Transition.Takes (step config)
        (constructed loopRunning eventFd) actions state action next → state.Meets action := by
      intro state action next takes
      cases action with
      | start calls => exact unstuck state calls next takes
      | stop order | work action => exact trivial
    exact (Transition.forall_visits_of_takes start grows met visited visits).whole

/-- Where `bind` fails the number of the closed socket stays in `listen_fd_`, and where `AddFd`
throws the socket itself stays open and listens. -/
theorem not_allOrNothing_stuck :
    (∃ last, Transition.run (step {}) (constructed false 0)
        [.start ⟨some 3, true, false, true, .done⟩] = some last ∧
      last.process.running = false ∧ last.process.listenFd = 3 ∧ ¬last.AllOrNothing) ∧
    ∃ last, Transition.run (step {}) (constructed false 0)
        [.start ⟨some 3, true, true, true, .failed []⟩] = some last ∧
      last.process.running = false ∧ last.opened = {3} ∧ last.listening = {3} ∧
      ¬last.AllOrNothing :=
  ⟨⟨_, rfl, rfl, rfl, not_allOrNothing_of_listenFd rfl (by decide)⟩,
    _, rfl, rfl, rfl, rfl, not_allOrNothing_of_listenFd rfl (by decide)⟩

end Lifecycle

end PPServer.Server
