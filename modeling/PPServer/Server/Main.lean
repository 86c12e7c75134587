import PPServer.EventLoop.Returning
import PPServer.ThreadPool.Joining

/-!
# `main`

The program makes an event loop, a connection manager and a pool of four threads, looks for a port,
makes a server, sets the signal handlers and calls `Run`.  It does not call `Start`, so nothing but
the eventfd is ever watched, no task is queued, and `Run` ends with a signal or not at all.

A signal interrupts the thread at any point.  Before the handlers are set it kills the process.
The handler uses the server that the constructor has put into `instance_`; the destructor leaves it
there.  The connection manager holds no resources, and its table stays empty.  The pool is given no
task; of its threads a run says what they do while the pool is there.
-/

namespace PPServer.Server

open EventLoop Transition
open ThreadPool (Life)

/-- The outcomes of the calls of `IsPortAvailable`. -/
structure PortCalls where
  /-- The descriptor that `socket` returns, `none` if it fails. -/
  socket : Option Int
  inetPton : Bool
  bind : Bool

def PortCalls.available (calls : PortCalls) : Bool :=
  calls.socket.isSome && calls.inetPton && calls.bind

namespace Main

/-- How far `main` has come: it is about to take the step of this name. -/
inductive Point where
  | epollCreate
  | eventfd
  | epollAdd
  /-- The constructor of `ThreadPool` has this many threads more to create. -/
  | createThread (left : Nat)
  /-- This many ports have been tried. -/
  | probe (attempts : Nat)
  | makeServer
  | setSignalHandlers
  /-- It is in `Run`, or about to call it. -/
  | run
  | destroyServer
  | destroyPool (code : Nat)
  | destroyLoop (code : Nat)
  | returned (code : Nat)
  | killed
  /-- The signal handler has used a server that is destroyed. -/
  | fault
  deriving DecidableEq, Repr

inductive Object where
  | unmade
  | alive
  | destroyed
  deriving DecidableEq, Repr

inductive Action where
  | epollCreate (fd : Option Int)
  | eventfd (fd : Option Int)
  | epollAdd (added : Bool)
  | createThread (created : Bool)
  | probe (calls : PortCalls)
  | makeServer
  | setSignalHandlers
  | run (action : LoopAction Empty)
  | destroyServer
  /-- The pool is destroyed, after this life. -/
  | destroyPool (life : Life)
  | destroyLoop
  | signal

end Main

structure Main where
  point : Main.Point := .epollCreate
  /-- The descriptors that the process has open. -/
  openFds : Finset Int := ∅
  epollFd : Int := -1
  eventFd : Int := -1
  /-- The event loop, used by no other thread. -/
  loop : LoopState Unit Empty := .new
  /-- The threads of the pool that have not been joined. -/
  workers : Nat := 0
  /-- `config.port`. -/
  port : UInt16 := 8222
  /-- What `instance_` points to. -/
  server : Main.Object := .unmade
  /-- `running_` of the server. -/
  serverRunning : Bool := false
  handlersSet : Bool := false

namespace Main

/-! ## Constructors -/

/-- The kernel can answer with this descriptor. -/
def Fresh (main : Main) (fd : Option Int) : Prop := ∀ new ∈ fd, 0 ≤ new ∧ new ∉ main.openFds

instance (main : Main) (fd : Option Int) : Decidable (main.Fresh fd) :=
  inferInstanceAs (Decidable (∀ new ∈ fd, _))

def opened (main : Main) (fd : Int) : Main := { main with openFds := insert fd main.openFds }

def closed (main : Main) (fd : Int) : Main := { main with openFds := main.openFds.erase fd }

/-- `EventLoop::EventLoop` up to `eventfd`.  Where it throws, `main` returns 1. -/
def epollCreate (main : Main) : Option Int → Main
  | some fd => { main.opened fd with epollFd := fd, point := .eventfd }
  | none => { main with point := .returned 1 }

def eventfd (main : Main) : Option Int → Main
  | some fd => { main.opened fd with eventFd := fd, point := .epollAdd }
  | none => { main.closed main.epollFd with point := .returned 1 }

def epollAdd (main : Main) (added : Bool) : Main :=
  if added then { main with point := .createThread 4 }
  else { (main.closed main.epollFd).closed main.eventFd with point := .returned 1 }

/-- `CreateThread`, the result of which the constructor of `ThreadPool` ignores. -/
def createThread (main : Main) (left : Nat) (created : Bool) : Main :=
  { main with
    workers := if created then main.workers + 1 else main.workers
    point := if left ≤ 1 then .probe 0 else .createThread (left - 1) }

/-! ## The port -/

/-- `ConnectionManager::IsPortAvailable`. -/
def isPortAvailable (main : Main) (calls : PortCalls) : Bool × Main :=
  match calls.socket with
  | none => (false, main)
  | some sock =>
      if !calls.inetPton then (false, (main.opened sock).closed sock)
      else (calls.bind, (main.opened sock).closed sock)

/-- The port that is asked for next. -/
def portOf (attempts : Nat) : UInt16 := 8222 + UInt16.ofNat attempts

def probe (main : Main) (attempts : Nat) (calls : PortCalls) : Main :=
  let (available, main) := main.isPortAvailable calls
  if available then { main with port := portOf attempts, point := .makeServer }
  else if attempts + 1 < 10 then { main with point := .probe (attempts + 1) }
  else { main with point := .destroyPool 1 }

/-! ## Stopping -/

/-- `EventLoop::Stop`. -/
def stopLoop (main : Main) : Main :=
  { main with
    loop := { main.loop with running := false, eventFd := wakeUp main.loop.eventFd } }

/-- `WebServer::Stop`, with no listening socket and no connections. -/
def stopServer (main : Main) : Main :=
  if !main.serverRunning then main else { main with serverRunning := false }.stopLoop

/-- `SignalHandler`, unless the server is destroyed. -/
def signalHandler (main : Main) : Main :=
  match main.server with
  | .unmade => main
  | .alive => main.stopServer.stopLoop
  | .destroyed => { main with point := .fault }

/-- A signal arrives. -/
def signal (main : Main) : Main :=
  if main.handlersSet then main.signalHandler else { main with point := .killed }

/-- `ThreadPool::~ThreadPool`. -/
def destroyPool (main : Main) (code : Nat) (life : Life) : Option Main :=
  if life.size = main.workers then
    life.destroyed.map fun pool =>
      { main with workers := pool.unjoined, point := .destroyLoop code }
  else none

/-- `EventLoop::~EventLoop`. -/
def destroyLoop (main : Main) (code : Nat) : Main :=
  let stopped := main.stopLoop
  let first := if 0 ≤ main.epollFd then stopped.closed main.epollFd else stopped
  let second := if 0 ≤ main.eventFd then first.closed main.eventFd else first
  { second with point := .returned code }

/-! ## Steps -/

/-- Nothing but the eventfd is in the interest list. -/
def OnlyNotifies : LoopAction Empty → Prop
  | .report batch => ∀ event ∈ batch, event = .notification
  | _ => True

instance (action : LoopAction Empty) : Decidable (OnlyNotifies action) := by
  cases action <;> simp only [OnlyNotifies] <;> infer_instance

/-- A step of `Run`, which is over when the loop thread is outside again. -/
def runLoop (main : Main) (action : LoopAction Empty) : Option Main :=
  if OnlyNotifies action then
    (main.loop.loopStep action).map fun loop =>
      { main with loop, point := if loop.point = .outside then .destroyServer else .run }
  else none

/-- One step; `none` when `main` is not where it could make it. -/
def step (main : Main) (action : Action) : Option Main :=
  match main.point, action with
  | .epollCreate, .epollCreate fd => if main.Fresh fd then some (main.epollCreate fd) else none
  | .eventfd, .eventfd fd => if main.Fresh fd then some (main.eventfd fd) else none
  | .epollAdd, .epollAdd added => some (main.epollAdd added)
  | .createThread left, .createThread created => some (main.createThread left created)
  | .probe attempts, .probe calls =>
      if main.Fresh calls.socket then some (main.probe attempts calls) else none
  | .makeServer, .makeServer => some { main with server := .alive, point := .setSignalHandlers }
  | .setSignalHandlers, .setSignalHandlers => some { main with handlersSet := true, point := .run }
  | .run, .run action => main.runLoop action
  | .destroyServer, .destroyServer =>
      some { main.stopServer with server := .destroyed, point := .destroyPool 0 }
  | .destroyPool code, .destroyPool life => main.destroyPool code life
  | .destroyLoop code, .destroyLoop => some (main.destroyLoop code)
  | .returned _, _ | .killed, _ | .fault, _ => none
  | _, .signal => some main.signal
  | _, _ => none

/-! ## What a step can do -/

/-- The process is over. -/
def Point.Final : Point → Prop
  | .returned _ | .killed | .fault => True
  | .epollCreate | .eventfd | .epollAdd | .createThread _ | .probe _ | .makeServer
  | .setSignalHandlers | .run | .destroyServer | .destroyPool _ | .destroyLoop _ => False

/-- What a signal does, by the handler that is set and the server it would use. -/
inductive Signalled (main : Main) : Main → Prop where
  | killed : main.handlersSet = false → Signalled main { main with point := .killed }
  | unmade : main.handlersSet = true → main.server = .unmade → Signalled main main
  | stopped {eventFd : Nat} {serverRunning : Bool} : main.handlersSet = true →
      main.server = .alive → 0 < eventFd →
      Signalled main
        { main with loop := { main.loop with running := false, eventFd }, serverRunning }
  | fault : main.handlersSet = true → main.server = .destroyed →
      Signalled main { main with point := .fault }

/-- The steps of `main`, each with where it is taken and the state it makes. -/
inductive Steps (main : Main) : Action → Main → Prop where
  | epollCreate {fd : Option Int} : main.point = .epollCreate → main.Fresh fd →
      Steps main (.epollCreate fd) (main.epollCreate fd)
  | eventfd {fd : Option Int} : main.point = .eventfd → main.Fresh fd →
      Steps main (.eventfd fd) (main.eventfd fd)
  | epollAdd {added : Bool} : main.point = .epollAdd →
      Steps main (.epollAdd added) (main.epollAdd added)
  | createThread {left : Nat} {created : Bool} : main.point = .createThread left →
      Steps main (.createThread created) (main.createThread left created)
  | probe {attempts : Nat} {calls : PortCalls} : main.point = .probe attempts →
      main.Fresh calls.socket → Steps main (.probe calls) (main.probe attempts calls)
  | makeServer : main.point = .makeServer →
      Steps main .makeServer { main with server := .alive, point := .setSignalHandlers }
  | setSignalHandlers : main.point = .setSignalHandlers →
      Steps main .setSignalHandlers { main with handlersSet := true, point := .run }
  | goOn {action : LoopAction Empty} {loop : LoopState Unit Empty} : main.point = .run →
      OnlyNotifies action → LoopState.LoopStep main.loop action loop → loop.point ≠ .outside →
      Steps main (.run action) { main with loop, point := .run }
  | leave {action : LoopAction Empty} {loop : LoopState Unit Empty} : main.point = .run →
      LoopState.LoopStep main.loop action loop → loop.point = .outside →
      Steps main (.run action) { main with loop, point := .destroyServer }
  | destroyServer {running : Bool} {eventFd : Nat} {serverRunning : Bool} :
      main.point = .destroyServer →
      Steps main .destroyServer
        { main with
          loop := { main.loop with running, eventFd }
          serverRunning
          server := .destroyed
          point := .destroyPool 0 }
  | destroyPool {code : Nat} {life : Life}
      {pool : ThreadPool.LockedPool life.size Unit Empty} : main.point = .destroyPool code →
      life.size = main.workers → life.destroyed = some pool →
      Steps main (.destroyPool life)
        { main with workers := pool.unjoined, point := .destroyLoop code }
  | destroyLoop {code : Nat} : main.point = .destroyLoop code →
      Steps main .destroyLoop (main.destroyLoop code)
  | signal : ¬main.point.Final → Signalled main next → Steps main .signal next

variable {main next last : Main} {action : Action}

theorem stopServer_eq (main : Main) :
    ∃ running eventFd serverRunning, main.stopServer =
      { main with loop := { main.loop with running, eventFd }, serverRunning } := by
  simp only [stopServer]
  split
  next => exact ⟨main.loop.running, main.loop.eventFd, main.serverRunning, rfl⟩
  next => exact ⟨false, _, false, rfl⟩

theorem stopLoop_stopServer_eq (main : Main) :
    ∃ eventFd serverRunning, 0 < eventFd ∧ main.stopServer.stopLoop =
      { main with loop := { main.loop with running := false, eventFd }, serverRunning } := by
  simp only [stopServer]
  split
  next => exact ⟨_, main.serverRunning, wakeUp_pos _, rfl⟩
  next => exact ⟨_, false, wakeUp_pos _, rfl⟩

theorem signalled_signal (main : Main) : Signalled main main.signal := by
  by_cases set : main.handlersSet = true
  · have handled : main.signal = main.signalHandler := if_pos set
    rw [handled, signalHandler]
    split
    next unmade => exact .unmade set unmade
    next alive =>
        rcases main.stopLoop_stopServer_eq with ⟨eventFd, serverRunning, written, stopped⟩
        exact stopped ▸ .stopped set alive written
    next destroyed => exact .fault set destroyed
  · have handled : main.signal = { main with point := .killed } := if_neg set
    rw [handled]
    exact .killed (by simpa using set)

theorem steps_of_runLoop {action : LoopAction Empty} (point : main.point = .run)
    (taken : main.runLoop action = some next) : Steps main (.run action) next := by
  simp only [runLoop] at taken
  split at taken
  next notifies =>
      rcases Option.map_eq_some_iff.mp taken with ⟨loop, loopTaken, rfl⟩
      have steps := LoopState.loopStep_iff.mp loopTaken
      by_cases outside : loop.point = .outside
      · simpa only [outside, if_true] using Steps.leave point steps outside
      · simpa only [outside, if_false] using Steps.goOn point notifies steps outside
  next => cases taken

theorem steps_of_step (taken : main.step action = some next) : Steps main action next := by
  cases action with
  | epollCreate fd =>
      cases point : main.point <;> simp only [step, point, reduceCtorEq] at taken
      split at taken
      next fresh => exact Option.some.inj taken ▸ .epollCreate point fresh
      next => cases taken
  | eventfd fd =>
      cases point : main.point <;> simp only [step, point, reduceCtorEq] at taken
      split at taken
      next fresh => exact Option.some.inj taken ▸ .eventfd point fresh
      next => cases taken
  | probe calls =>
      cases point : main.point <;> simp only [step, point, reduceCtorEq] at taken
      split at taken
      next fresh => exact Option.some.inj taken ▸ .probe point fresh
      next => cases taken
  | run action =>
      cases point : main.point <;> simp only [step, point, reduceCtorEq] at taken
      exact steps_of_runLoop point taken
  | epollAdd added =>
      cases point : main.point <;> simp only [step, point, reduceCtorEq] at taken
      exact Option.some.inj taken ▸ .epollAdd point
  | createThread created =>
      cases point : main.point <;> simp only [step, point, reduceCtorEq] at taken
      exact Option.some.inj taken ▸ .createThread point
  | makeServer =>
      cases point : main.point <;> simp only [step, point, reduceCtorEq] at taken
      exact Option.some.inj taken ▸ .makeServer point
  | setSignalHandlers =>
      cases point : main.point <;> simp only [step, point, reduceCtorEq] at taken
      exact Option.some.inj taken ▸ .setSignalHandlers point
  | destroyServer =>
      cases point : main.point <;> simp only [step, point, reduceCtorEq] at taken
      rcases main.stopServer_eq with ⟨running, eventFd, serverRunning, stopped⟩
      rw [stopped] at taken
      exact Option.some.inj taken ▸ .destroyServer point
  | destroyPool life =>
      cases point : main.point <;> simp only [step, point, reduceCtorEq] at taken
      rcases Option.ite_none_right_eq_some.mp taken with ⟨size, taken⟩
      rcases Option.map_eq_some_iff.mp taken with ⟨pool, destroyed, rfl⟩
      exact .destroyPool point size destroyed
  | destroyLoop =>
      cases point : main.point <;> simp only [step, point, reduceCtorEq] at taken
      exact Option.some.inj taken ▸ .destroyLoop point
  | signal =>
      have running : ¬main.point.Final := by
        intro final
        cases point : main.point <;> simp_all [step, Point.Final]
      cases point : main.point <;> simp only [step, point, reduceCtorEq] at taken <;>
        exact Option.some.inj taken ▸ .signal running main.signalled_signal

/-! ## Descriptors and threads -/

/-- The event loop has its two descriptors, and no other is open. -/
def HoldsLoop (main : Main) : Prop :=
  0 ≤ main.epollFd ∧ 0 ≤ main.eventFd ∧ main.openFds = {main.epollFd, main.eventFd}

/-- What the process holds at each point. -/
def Holds (main : Main) : Prop :=
  match main.point with
  | .epollCreate | .returned _ => main.openFds = ∅ ∧ main.workers = 0
  | .eventfd => 0 ≤ main.epollFd ∧ main.openFds = {main.epollFd} ∧ main.workers = 0
  | .epollAdd | .destroyLoop _ => main.HoldsLoop ∧ main.workers = 0
  | .createThread _ | .probe _ | .makeServer | .setSignalHandlers | .run | .destroyServer
  | .destroyPool _ => main.HoldsLoop
  | .killed | .fault => True

theorem Holds.epollCreate {fd : Option Int} (holds : main.Holds) (point : main.point = .epollCreate)
    (fresh : main.Fresh fd) : (main.epollCreate fd).Holds := by
  simp only [Holds, point] at holds
  cases fd with
  | none => exact holds
  | some fd =>
      refine ⟨(fresh fd rfl).1, ?_, holds.2⟩
      simp only [Main.epollCreate, opened, holds.1, insert_empty_eq]

theorem Holds.eventfd {fd : Option Int} (holds : main.Holds) (point : main.point = .eventfd)
    (fresh : main.Fresh fd) : (main.eventfd fd).Holds := by
  simp only [Holds, point] at holds
  rcases holds with ⟨isFd, isOpen, none⟩
  cases fd with
  | none =>
      refine ⟨?_, none⟩
      simp only [Main.eventfd, closed, isOpen, Finset.erase_singleton]
  | some fd =>
      refine ⟨⟨isFd, (fresh fd rfl).1, ?_⟩, none⟩
      simp only [Main.eventfd, opened, isOpen, Finset.pair_comm]

theorem HoldsLoop.erase (holds : main.HoldsLoop) :
    (main.openFds.erase main.epollFd).erase main.eventFd = ∅ := by
  rw [holds.2.2, Finset.erase_eq_empty_iff]
  by_cases same : main.eventFd = main.epollFd
  · simp [same]
  · rw [Finset.erase_insert (by simpa using Ne.symm same)]
    exact .inr rfl

/-- The socket of a probe is closed again. -/
theorem isPortAvailable_eq {calls : PortCalls} (fresh : main.Fresh calls.socket) :
    main.isPortAvailable calls = (calls.available, main) := by
  rcases calls with ⟨socket, inetPton, bind⟩
  cases socket with
  | none => rfl
  | some sock =>
      have closedAgain : (main.opened sock).closed sock = main := by
        simp only [opened, closed, Finset.erase_insert (fresh sock rfl).2]
      cases inetPton <;> simp [isPortAvailable, PortCalls.available, closedAgain]

theorem probe_eq {calls : PortCalls} (fresh : main.Fresh calls.socket) (attempts : Nat) :
    main.probe attempts calls =
      if calls.available then { main with port := portOf attempts, point := .makeServer }
      else if attempts + 1 < 10 then { main with point := .probe (attempts + 1) }
      else { main with point := .destroyPool 1 } := by
  simp only [probe, isPortAvailable_eq fresh]

theorem Holds.step (holds : main.Holds) (steps : Steps main action next) : next.Holds := by
  cases steps with
  | epollCreate point fresh => exact holds.epollCreate point fresh
  | eventfd point fresh => exact holds.eventfd point fresh
  | epollAdd point =>
      simp only [Holds, point] at holds
      simp only [Main.epollAdd]
      split
      next => exact holds.1
      next => exact ⟨holds.1.erase, holds.2⟩
  | createThread point =>
      simp only [Holds, point] at holds
      simp only [Main.createThread]
      split <;> split <;> exact holds
  | probe point fresh =>
      simp only [Holds, point] at holds
      rw [probe_eq fresh]
      split
      next => exact holds
      next => split <;> exact holds
  | makeServer point | setSignalHandlers point | goOn point | leave point | destroyServer point =>
      simp only [Holds, point] at holds
      exact holds
  | destroyPool point _ destroyed =>
      simp only [Holds, point] at holds
      exact ⟨holds, Life.unjoined_destroyed destroyed⟩
  | destroyLoop point =>
      simp only [Holds, point] at holds
      rcases holds with ⟨holds, none⟩
      refine ⟨?_, ?_⟩
      · simp only [Main.destroyLoop, stopLoop, holds.1, holds.2.1, if_true, closed, holds.erase]
      · simp only [Main.destroyLoop, stopLoop, holds.1, holds.2.1, if_true, closed, none]
  | signal _ signalled =>
      cases signalled with
      | killed | fault => trivial
      | unmade | stopped => exact holds

theorem keeps_holds : Keeps step (fun _ => True) Holds :=
  fun _ _ _ _ taken holds => holds.step (steps_of_step taken)

variable {labels before after : List Action}

theorem holds_of_run (ran : run step {} labels = some last) : last.Holds :=
  keeps_holds.run ran (fun _ _ => trivial) ⟨rfl, rfl⟩

/-- **`main` leaves nothing behind.**  Whatever fails on the way, and whenever signals arrive, only
the two descriptors of the event loop are open while `main` is in `Run`, and a `main` that returns
has closed each descriptor that it has opened and joined each thread. -/
theorem openFds_of_run (ran : run step {} labels = some last) :
    (last.point = .run → last.openFds = {last.epollFd, last.eventFd}) ∧
      ∀ code, last.point = .returned code → last.openFds = ∅ ∧ last.workers = 0 := by
  have holds := holds_of_run ran
  constructor
  · intro point
    simp only [Holds, point] at holds
    exact holds.2.2
  · intro code point
    simp only [Holds, point] at holds
    exact holds

/-- The first port is taken, and a thread cannot be created. -/
def startsUp : List Action :=
  [.epollCreate (some 3), .eventfd (some 4), .epollAdd true, .createThread true,
    .createThread true, .createThread false, .createThread true, .probe ⟨some 5, true, false⟩,
    .probe ⟨some 5, true, true⟩, .makeServer, .setSignalHandlers]

/-- The three threads exit while the destructor waits for them. -/
def exitInTurn : Life where
  size := 3
  idling := [.work 0]
  closing := [.work 0, .work 0, .call (), .call (), .call (), .call (), .work 0, .work 0, .work 0,
    .work 0, .call (), .work 1, .work 1, .work 1, .work 1, .work 2, .work 2, .work 2, .work 2,
    .call (), .call (), .call ()]

/-- A signal comes while the loop waits. -/
def signalled : List Action :=
  startsUp ++
    [.run .callRun, .run .setRunning, .run .testRunning, .run .enterWait, .signal,
      .run (.report [.notification]), .run .handleTaskNotification, .run .finishEvents,
      .run .finishTimers, .run .swapTasks, .run .finishTasks, .run .testRunning, .destroyServer,
      .destroyPool exitInTurn, .destroyLoop]

theorem openFds_of_run_signalled :
    ∃ last, run step {} signalled = some last ∧ last.point = .returned 0 ∧ last.openFds = ∅ ∧
      last.workers = 0 :=
  ⟨_, rfl, rfl, (openFds_of_run (rfl : run step {} signalled = some _)).2 0 rfl⟩

end Main

end PPServer.Server
