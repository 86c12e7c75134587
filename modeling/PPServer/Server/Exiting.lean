import PPServer.Server.Main

/-!
# How `main` ends

The exit code is 0 after a signal and 1 if the start failed, where a thread that could not be
created is no failure.  A signal before the handlers are set kills the process; one that comes after
the server is destroyed, and so after another, finds `instance_` dangling.  What has been done on
the way tells these ends apart.
-/

namespace PPServer.EventLoop.LoopState

variable {Thread Task : Type} {loop next : LoopState Thread Task} {action : LoopAction Task}

/-- `Run` has not set `running_` yet. -/
def Ready (loop : LoopState Thread Task) : Prop :=
  (loop.point = .outside ∨ loop.point = .entered) ∧ loop.running = false

/-- `Run` has set `running_`, and nobody has unset it. -/
def Looping (loop : LoopState Thread Task) : Prop :=
  loop.point ≠ .outside ∧ loop.point ≠ .entered ∧ loop.running = true

theorem Ready.loopStep (ready : loop.Ready) (steps : LoopStep loop action next) :
    next.point ≠ .outside ∧ (next.Ready ∨ next.Looping) := by
  cases steps with
  | alreadyRunning _ running => exact absurd (ready.2.symm.trans running) Bool.false_ne_true
  | callRun point stopped => exact ⟨by simp, .inl ⟨.inr rfl, stopped⟩⟩
  | setRunning point => exact ⟨by simp, .inr ⟨by simp, by simp, rfl⟩⟩
  | _ point =>
      rcases ready.1 with outside | entered
      · simp [outside] at point
      · simp [entered] at point

theorem Looping.loopStep (looping : loop.Looping) (steps : LoopStep loop action next) :
    next.Looping := by
  rcases looping with ⟨notOutside, notEntered, running⟩
  cases steps with
  | alreadyRunning point => exact absurd point notOutside
  | callRun point => exact absurd point notOutside
  | setRunning point => exact absurd point notEntered
  | leave _ stopped => cases stopped.symm.trans running
  | _ => exact ⟨by simp, by simp, running⟩

end PPServer.EventLoop.LoopState

namespace PPServer.Server.Main

open EventLoop Transition

namespace Action

/-- The outcome of a call of `IsPortAvailable`. -/
def probed : Action → Option Bool
  | .probe calls => some calls.available
  | _ => none

/-- The constructor of `EventLoop` throws. -/
def Throws : Action → Prop
  | .epollCreate none | .eventfd none | .epollAdd false => True
  | _ => False

end Action

/-- The outcomes of the calls of `IsPortAvailable`. -/
def probes (labels : List Action) : List Bool := labels.filterMap Action.probed

variable {labels : List Action} {main next last : Main} {action : Action}

theorem probes_concat (labels : List Action) (action : Action) :
    probes (labels ++ [action]) = probes labels ++ action.probed.toList := by
  rw [probes, List.filterMap_append, probes]
  cases probed : action.probed <;> simp [probed]

/-- The port of the server is the first that was available, of ten. -/
def Found (labels : List Action) (main : Main) : Prop :=
  ∃ attempts < 10, main.port = portOf attempts ∧
    probes labels = List.replicate attempts false ++ [true]

/-- The handlers are not set, and no signal has come. -/
structure Starting (labels : List Action) (main : Main) : Prop where
  handlersSet : main.handlersSet = false
  loop : main.loop = .new
  signal : .signal ∉ labels
  setSignalHandlers : .setSignalHandlers ∉ labels
  destroyServer : .destroyServer ∉ labels

/-- What the labels taken so far have brought about. -/
def Follows (labels : List Action) (main : Main) : Prop :=
  match main.point with
  | .epollCreate | .eventfd | .epollAdd | .createThread _ =>
      Starting labels main ∧ probes labels = []
  | .probe attempts =>
      Starting labels main ∧ attempts < 10 ∧ probes labels = List.replicate attempts false
  | .makeServer => Starting labels main ∧ Found labels main
  | .setSignalHandlers => Starting labels main ∧ Found labels main ∧ main.server = .alive
  | .run =>
      Found labels main ∧ main.handlersSet = true ∧ main.server = .alive ∧
        (main.loop.Ready ∨ main.loop.Looping ∨
          .signal ∈ labels ∧ main.loop.Stopped ∧ main.loop.point ≠ .outside)
  | .destroyServer =>
      Found labels main ∧ main.handlersSet = true ∧ main.server = .alive ∧ .signal ∈ labels
  | .destroyPool code | .destroyLoop code =>
      code = 0 ∧ Found labels main ∧ main.handlersSet = true ∧ .signal ∈ labels ∧
          .destroyServer ∈ labels ∨
        code = 1 ∧ Starting labels main ∧ probes labels = List.replicate 10 false
  | .returned code =>
      code = 0 ∧ Found labels main ∧
          (∃ before, labels = before ++ [.destroyLoop] ∧ .signal ∈ before ∧
            .destroyServer ∈ before) ∨
        code = 1 ∧ .signal ∉ labels ∧
          ∃ before action, labels = before ++ [action] ∧
            (action.Throws ∨ action = .destroyLoop ∧ probes labels = List.replicate 10 false)
  | .killed =>
      ∃ before, labels = before ++ [.signal] ∧ .setSignalHandlers ∉ before ∧
        .destroyServer ∉ before
  | .fault =>
      ∃ before, labels = before ++ [.signal] ∧ .signal ∈ before ∧ .destroyServer ∈ before

/-! ## Steps -/

theorem Found.concat (found : Found labels main) (port : next.port = main.port)
    (unprobed : action.probed = none) : Found (labels ++ [action]) next := by
  rcases found with ⟨attempts, few, isPort, outcomes⟩
  refine ⟨attempts, few, port.trans isPort, ?_⟩
  rw [probes_concat, unprobed, outcomes]
  exact List.append_nil _

theorem Starting.concat (starting : Starting labels main)
    (handlersSet : next.handlersSet = main.handlersSet) (loop : next.loop = main.loop)
    (notSignal : action ≠ .signal) (notSet : action ≠ .setSignalHandlers)
    (notDestroyed : action ≠ .destroyServer) : Starting (labels ++ [action]) next := by
  refine ⟨handlersSet.trans starting.handlersSet, loop.trans starting.loop, ?_, ?_, ?_⟩
  · simpa [starting.signal] using notSignal.symm
  · simpa [starting.setSignalHandlers] using notSet.symm
  · simpa [starting.destroyServer] using notDestroyed.symm

theorem probes_concat_of_none (unprobed : action.probed = none) :
    probes (labels ++ [action]) = probes labels := by
  rw [probes_concat, unprobed]
  exact List.append_nil _

/-- `main` returns 1 where the constructor of `EventLoop` throws. -/
theorem Starting.follows_of_throws (starting : Starting labels main) (throws : action.Throws)
    (point : next.point = .returned 1) : Follows (labels ++ [action]) next := by
  have notSignal : action ≠ .signal := by
    rintro rfl
    exact throws
  rw [Follows, point]
  refine .inr ⟨rfl, ?_, labels, action, rfl, .inl throws⟩
  simpa [starting.signal] using notSignal.symm

theorem Starting.epollCreate {fd : Option Int} (starting : Starting labels main)
    (unprobed : probes labels = []) :
    Follows (labels ++ [.epollCreate fd]) (main.epollCreate fd) := by
  cases fd with
  | none => exact starting.follows_of_throws trivial rfl
  | some fd =>
      exact ⟨starting.concat rfl rfl nofun nofun nofun,
        (probes_concat_of_none rfl).trans unprobed⟩

theorem Starting.eventfd {fd : Option Int} (starting : Starting labels main)
    (unprobed : probes labels = []) : Follows (labels ++ [.eventfd fd]) (main.eventfd fd) := by
  cases fd with
  | none => exact starting.follows_of_throws trivial rfl
  | some fd =>
      exact ⟨starting.concat rfl rfl nofun nofun nofun,
        (probes_concat_of_none rfl).trans unprobed⟩

theorem Starting.epollAdd {added : Bool} (starting : Starting labels main)
    (unprobed : probes labels = []) :
    Follows (labels ++ [.epollAdd added]) (main.epollAdd added) := by
  cases added with
  | false => exact starting.follows_of_throws trivial rfl
  | true =>
      exact ⟨starting.concat rfl rfl nofun nofun nofun,
        (probes_concat_of_none rfl).trans unprobed⟩

theorem Starting.createThread {left : Nat} {created : Bool} (starting : Starting labels main)
    (unprobed : probes labels = []) :
    Follows (labels ++ [.createThread created]) (main.createThread left created) := by
  have still : Starting (labels ++ [.createThread created]) (main.createThread left created) :=
    starting.concat rfl rfl nofun nofun nofun
  have none : probes (labels ++ [.createThread created]) = [] :=
    (probes_concat_of_none rfl).trans unprobed
  by_cases isLast : left ≤ 1
  · have point : (main.createThread left created).point = .probe 0 := by
      simp only [Main.createThread, isLast, if_true]
    rw [Follows, point]
    exact ⟨still, by decide, none⟩
  · have point : (main.createThread left created).point = .createThread (left - 1) := by
      simp only [Main.createThread, isLast, if_false]
    rw [Follows, point]
    exact ⟨still, none⟩

theorem Starting.probe {attempts : Nat} {calls : PortCalls} (starting : Starting labels main)
    (few : attempts < 10) (outcomes : probes labels = List.replicate attempts false)
    (fresh : main.Fresh calls.socket) :
    Follows (labels ++ [.probe calls]) (main.probe attempts calls) := by
  have probed : probes (labels ++ [.probe calls]) =
      List.replicate attempts false ++ [calls.available] := by
    rw [probes_concat, outcomes]
    rfl
  rw [probe_eq fresh]
  cases available : calls.available with
  | true =>
      rw [available] at probed
      exact ⟨starting.concat rfl rfl nofun nofun nofun, attempts, few, rfl, probed⟩
  | false =>
      rw [available, ← List.replicate_succ'] at probed
      simp only [Bool.false_eq_true, if_false]
      split
      next more => exact ⟨starting.concat rfl rfl nofun nofun nofun, more, probed⟩
      next enough =>
          have all : attempts + 1 = 10 := Nat.le_antisymm few (Nat.le_of_not_lt enough)
          rw [all] at probed
          exact .inr ⟨rfl, starting.concat rfl rfl nofun nofun nofun, probed⟩

/-- `main` goes on in `Run` until a signal has come. -/
theorem Follows.run {action : LoopAction Empty} {loop : LoopState Unit Empty}
    (follows : Follows labels main) (point : main.point = .run)
    (steps : LoopState.LoopStep main.loop action loop) :
    Follows (labels ++ [.run action])
      { main with loop, point := if loop.point = .outside then .destroyServer else .run } := by
  simp only [Follows, point] at follows
  rcases follows with ⟨found, handlersSet, alive, ready | looping | ⟨signalled, stopped, inside⟩⟩
  · rcases ready.loopStep steps with ⟨inside, goesOn⟩
    rw [if_neg inside]
    exact ⟨found.concat rfl rfl, handlersSet, alive, or_assoc.mp (.inl goesOn)⟩
  · have looping := looping.loopStep steps
    rw [if_neg looping.1]
    exact ⟨found.concat rfl rfl, handlersSet, alive, .inr (.inl looping)⟩
  · have signalled : .signal ∈ labels ++ [.run action] := List.mem_append_left _ signalled
    split
    next => exact ⟨found.concat rfl rfl, handlersSet, alive, signalled⟩
    next inside' =>
        have notCall : action ≠ .callRun := by
          rintro rfl
          cases steps with
          | alreadyRunning outside | callRun outside => exact inside outside
        exact ⟨found.concat rfl rfl, handlersSet, alive,
          .inr (.inr ⟨signalled, stopped.loopStep steps notCall, inside'⟩)⟩

/-- Before the handlers are set a signal kills the process. -/
theorem Starting.signalled (starting : Starting labels main) (signalled : Signalled main next) :
    Follows (labels ++ [.signal]) next := by
  cases signalled with
  | killed => exact ⟨labels, rfl, starting.setSignalHandlers, starting.destroyServer⟩
  | unmade set | stopped set | fault set => cases starting.handlersSet.symm.trans set

theorem Follows.signal (follows : Follows labels main) (running : ¬main.point.Final)
    (signalled : Signalled main next) : Follows (labels ++ [.signal]) next := by
  have came : .signal ∈ labels ++ [.signal] := by simp
  cases point : main.point with
  | returned | killed | fault => exact (running (by rw [point]; trivial)).elim
  | epollCreate | eventfd | epollAdd | createThread | probe | makeServer | setSignalHandlers =>
      simp only [Follows, point] at follows
      exact follows.1.signalled signalled
  | run =>
      simp only [Follows, point] at follows
      rcases follows with ⟨found, handlersSet, alive, goesOn⟩
      cases signalled with
      | killed unset => cases unset.symm.trans handlersSet
      | unmade _ other | fault _ other => cases alive.symm.trans other
      | stopped =>
          simp only [Follows, point]
          refine ⟨found.concat rfl rfl, handlersSet, alive, ?_⟩
          rcases goesOn with ready | looping | ⟨-, stopped, inside⟩
          · exact .inl ⟨ready.1, rfl⟩
          · exact .inr (.inr ⟨came, ⟨looping.2.1, rfl⟩, looping.1⟩)
          · exact .inr (.inr ⟨came, ⟨stopped.1, rfl⟩, inside⟩)
  | destroyServer =>
      simp only [Follows, point] at follows
      rcases follows with ⟨found, handlersSet, alive, -⟩
      cases signalled with
      | killed unset => cases unset.symm.trans handlersSet
      | unmade _ other | fault _ other => cases alive.symm.trans other
      | stopped =>
          simp only [Follows, point]
          exact ⟨found.concat rfl rfl, handlersSet, alive, came⟩
  | destroyPool | destroyLoop =>
      simp only [Follows, point] at follows
      rcases follows with ⟨zero, found, handlersSet, before, destroyed⟩ | ⟨-, starting, -⟩
      · have still : .destroyServer ∈ labels ++ [.signal] := List.mem_append_left _ destroyed
        cases signalled with
        | killed unset => cases unset.symm.trans handlersSet
        | fault => exact ⟨labels, rfl, before, destroyed⟩
        | unmade | stopped =>
            simp only [Follows, point]
            exact .inl ⟨zero, found.concat rfl rfl, handlersSet, came, still⟩
      · exact starting.signalled signalled

theorem destroyLoop_port (main : Main) (code : Nat) : (main.destroyLoop code).port = main.port := by
  simp only [destroyLoop]
  split <;> split <;> rfl

theorem Follows.step (follows : Follows labels main) (steps : Steps main action next) :
    Follows (labels ++ [action]) next := by
  cases steps with
  | epollCreate point =>
      simp only [Follows, point] at follows
      exact follows.1.epollCreate follows.2
  | eventfd point =>
      simp only [Follows, point] at follows
      exact follows.1.eventfd follows.2
  | epollAdd point =>
      simp only [Follows, point] at follows
      exact follows.1.epollAdd follows.2
  | createThread point =>
      simp only [Follows, point] at follows
      exact follows.1.createThread follows.2
  | probe point fresh =>
      simp only [Follows, point] at follows
      exact follows.1.probe follows.2.1 follows.2.2 fresh
  | makeServer point =>
      simp only [Follows, point] at follows
      exact ⟨follows.1.concat rfl rfl nofun nofun nofun, follows.2.concat rfl rfl, rfl⟩
  | setSignalHandlers point =>
      simp only [Follows, point] at follows
      refine ⟨follows.2.1.concat rfl rfl, rfl, follows.2.2, .inl ?_⟩
      rw [follows.1.loop]
      exact ⟨.inl rfl, rfl⟩
  | goOn point notifies steps inside =>
      have goesOn := follows.run point steps
      rwa [if_neg inside] at goesOn
  | leave point steps outside =>
      have leaves := follows.run point steps
      rwa [if_pos outside] at leaves
  | destroyServer point =>
      simp only [Follows, point] at follows
      exact .inl ⟨rfl, follows.1.concat rfl rfl, follows.2.1,
        List.mem_append_left _ follows.2.2.2, by simp⟩
  | destroyPool point =>
      simp only [Follows, point] at follows
      rcases follows with ⟨zero, found, handlersSet, signalled, destroyed⟩ | ⟨one, starting, none⟩
      · exact .inl ⟨zero, found.concat rfl rfl, handlersSet, List.mem_append_left _ signalled,
          List.mem_append_left _ destroyed⟩
      · exact .inr ⟨one, starting.concat rfl rfl nofun nofun nofun,
          (probes_concat_of_none rfl).trans none⟩
  | destroyLoop point =>
      simp only [Follows, point] at follows
      rcases follows with ⟨zero, found, handlersSet, signalled, destroyed⟩ | ⟨one, starting, none⟩
      · exact .inl ⟨zero, found.concat (main.destroyLoop_port _) rfl, labels, rfl, signalled,
          destroyed⟩
      · exact .inr ⟨one, by simpa using starting.signal, labels, .destroyLoop, rfl,
          .inr ⟨rfl, (probes_concat_of_none rfl).trans none⟩⟩
  | signal running signalled => exact follows.signal running signalled

theorem follows_of_run (ran : run step {} labels = some last) : Follows labels last := by
  have start : Follows [] {} := ⟨⟨rfl, rfl, nofun, nofun, nofun⟩, rfl⟩
  exact run_induction start (fun _ _ _ _ follows taken => follows.step (steps_of_step taken)) ran

/-! ## The end of a run -/

/-- The ways in which the process can end, and what has brought each of them about. -/
inductive Exit (labels : List Action) : Point → Prop where
  /-- A signal came while the server was there, and it has been taken down. -/
  | returned {before : List Action} : labels = before ++ [.destroyLoop] → .signal ∈ before →
      .destroyServer ∈ before → true ∈ probes labels → Exit labels (.returned 0)
  /-- The constructor of `EventLoop` threw. -/
  | thrown {before : List Action} {action : Action} : labels = before ++ [action] →
      action.Throws → .signal ∉ labels → Exit labels (.returned 1)
  /-- None of ten ports was available. -/
  | noPort {before : List Action} : labels = before ++ [.destroyLoop] →
      probes labels = List.replicate 10 false → .signal ∉ labels → Exit labels (.returned 1)
  /-- A signal came before the handlers were set. -/
  | killed {before : List Action} : labels = before ++ [.signal] →
      .setSignalHandlers ∉ before → .destroyServer ∉ before → Exit labels .killed
  /-- A second signal came after the server was destroyed. -/
  | fault {before : List Action} : labels = before ++ [.signal] → .signal ∈ before →
      .destroyServer ∈ before → Exit labels .fault

theorem Found.mem_probes (found : Found labels main) : true ∈ probes labels := by
  rcases found with ⟨attempts, -, -, outcomes⟩
  simp [outcomes]

theorem Follows.exit (follows : Follows labels main) (final : main.point.Final) :
    Exit labels main.point := by
  cases point : main.point with
  | returned code =>
      simp only [Follows, point] at follows
      rcases follows with ⟨rfl, found, before, isLast, signalled, destroyed⟩ |
        ⟨rfl, unsignalled, before, action, isLast, throws | ⟨rfl, none⟩⟩
      · exact .returned isLast signalled destroyed found.mem_probes
      · exact .thrown isLast throws unsignalled
      · exact .noPort isLast none unsignalled
  | killed =>
      simp only [Follows, point] at follows
      rcases follows with ⟨before, isLast, unset, kept⟩
      exact .killed isLast unset kept
  | fault =>
      simp only [Follows, point] at follows
      rcases follows with ⟨before, isLast, earlier, destroyed⟩
      exact .fault isLast earlier destroyed
  | _ =>
      rw [point] at final
      exact final.elim

/-- The last label tells the ends apart, or what came before. -/
theorem Exit.unique {point other : Point} (exit : Exit labels point)
    (exitOther : Exit labels other) : point = other := by
  have same {first second : List Action} {action action' : Action}
      (isFirst : labels = first ++ [action]) (isSecond : labels = second ++ [action']) :
      first = second ∧ action = action' :=
    List.append_singleton_inj.mp (isFirst.symm.trans isSecond)
  have atLast {before : List Action} (isLast : labels = before ++ [.signal]) :
      .signal ∈ labels := isLast ▸ List.mem_append_right _ (List.mem_singleton_self _)
  cases exit with
  | returned isLast signalled =>
      have signalled : .signal ∈ labels := isLast ▸ List.mem_append_left _ signalled
      cases exitOther with
      | returned => rfl
      | thrown _ _ unsignalled | noPort _ _ unsignalled => exact absurd signalled unsignalled
      | killed isLast' | fault isLast' => cases (same isLast isLast').2
  | thrown _ _ unsignalled | noPort _ _ unsignalled =>
      have unsignalledBefore {before : List Action} {action : Action}
          (isLast : labels = before ++ [action]) : .signal ∉ before := fun signalled =>
        unsignalled (isLast ▸ List.mem_append_left _ signalled)
      cases exitOther with
      | returned isLast signalled => exact absurd signalled (unsignalledBefore isLast)
      | thrown | noPort => rfl
      | killed isLast | fault isLast => exact absurd (atLast isLast) unsignalled
  | killed isLast _ kept =>
      cases exitOther with
      | returned isLast' => cases (same isLast isLast').2
      | thrown _ _ unsignalled | noPort _ _ unsignalled =>
          exact absurd (atLast isLast) unsignalled
      | killed => rfl
      | fault isLast' _ destroyed => exact absurd ((same isLast isLast').1 ▸ destroyed) kept
  | fault isLast _ destroyed =>
      cases exitOther with
      | returned isLast' => cases (same isLast isLast').2
      | thrown _ _ unsignalled | noPort _ _ unsignalled =>
          exact absurd (atLast isLast) unsignalled
      | killed isLast' _ kept => exact absurd ((same isLast isLast').1 ▸ destroyed) kept
      | fault => rfl

/-- **How `main` ends.**  It returns 0 after a signal and once the server is destroyed, and 1
without one, if the event loop could not be made or no port was available; a signal before the
handlers are set kills it, and a second one finds the server destroyed.  If it returns 0, the port
of the server is the first of ten that was available. -/
theorem exit_of_run (ran : run step {} labels = some last) (final : last.point.Final) :
    (∀ point, last.point = point ↔ Exit labels point) ∧
      (last.point = .returned 0 → Found labels last) := by
  have follows := follows_of_run ran
  have exit := follows.exit final
  refine ⟨fun point => ⟨fun same => same ▸ exit, exit.unique⟩, fun point => ?_⟩
  simp only [Follows, point] at follows
  rcases follows with ⟨-, found, -⟩ | ⟨one, -⟩
  · exact found
  · cases one

/-- A second signal comes while the pool is shut down. -/
def signalledTwice : List Action :=
  signalled.take 24 ++ [.signal]

theorem exit_of_run_signalledTwice :
    ∃ last, run step {} signalledTwice = some last ∧ last.point = .fault ∧
      Exit signalledTwice .fault :=
  ⟨_, rfl, rfl,
    ((exit_of_run (rfl : run step {} signalledTwice = some _) trivial).1 .fault).mp rfl⟩

end PPServer.Server.Main
