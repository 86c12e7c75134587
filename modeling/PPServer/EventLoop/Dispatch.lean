import PPServer.EventLoop.Descriptors
import PPServer.Library.Generations

/-!
# From a batch of events to the callbacks

`Run` hands the events of a batch one by one to `HandleIoEvent`, which looks for a callback under
the descriptor of the event among those that are registered by then.  In between the callbacks,
and other threads, register and remove descriptors.  The registrations are numbered here in the
order in which they are made; the code does not tell them apart.
-/

namespace PPServer.EventLoop

open Generations

/-- `epoll_event`. -/
structure EpollEvent where
  fd : Int
  events : UInt32
  deriving DecidableEq, Repr

/-- What a callback, or another thread, does to the descriptors. -/
inductive RegistryCall (Callback : Type) where
  | addFd (fd : Int) (events : UInt32) (callback : Callback) (epoll : EpollAdd)
  | updateFd (fd : Int) (events : UInt32)
  | removeFd (fd : Int)
  /-- `close`, which the event loop does not see. -/
  | close (fd : Int)

/-- What has happened since `epoll_wait` has returned a batch. -/
inductive DispatchStep (Callback : Type) where
  | call (call : RegistryCall Callback)
  /-- The next event of the batch has its turn. -/
  | dispatch (event : EpollEvent)

/-- The descriptors with their registrations numbered. -/
structure Registry (Callback : Type) where
  descriptors : Descriptors (Numbered Callback)
  registered : Nat
  earlier : ∀ fd registration, descriptors.callbacks.lookup fd = some registration →
    registration.number < registered

variable {Callback : Type}

/-! ## Registering and removing -/

/-- What the call does to the callbacks, if anything. -/
def RegistryCall.change : RegistryCall Callback → Option (Change Int Callback)
  | .addFd fd _ callback .done => some (.insert fd callback)
  | .addFd _ _ _ (.failed _) => none
  | .removeFd fd => some (.erase fd)
  | .updateFd _ _ | .close _ => none

namespace Registry

def table (registry : Registry Callback) : Table Int Callback :=
  ⟨registry.descriptors.callbacks, registry.registered, registry.earlier⟩

def call (registry : Registry Callback) : RegistryCall Callback → Registry Callback
  | .addFd fd events callback .done =>
      { descriptors := registry.descriptors.addFd fd events ⟨registry.registered, callback⟩
        registered := registry.registered + 1
        earlier := (registry.table.apply (.insert fd callback)).earlier }
  | .addFd _ _ _ (.failed _) => registry
  | .updateFd fd events =>
      { registry with descriptors := registry.descriptors.updateFd fd events }
  | .removeFd fd =>
      { descriptors := registry.descriptors.removeFd fd
        registered := registry.registered
        earlier := (registry.table.apply (.erase fd)).earlier }
  | .close fd => { registry with descriptors := registry.descriptors.closed fd }

theorem table_call (registry : Registry Callback) (call : RegistryCall Callback) :
    (registry.call call).table = registry.table.after call.change.toList := by
  cases call with
  | addFd fd events callback epoll => cases epoll <;> rfl
  | updateFd fd events | removeFd fd | close fd => rfl

end Registry

/-! ## The turns of the events -/

/-- What the step does to the callbacks. -/
def DispatchStep.changes : DispatchStep Callback → List (Change Int Callback)
  | .call made => made.change.toList
  | .dispatch _ => []

/-- The event that has its turn. -/
def DispatchStep.event? : DispatchStep Callback → Option EpollEvent
  | .call _ => none
  | .dispatch event => some event

/-- The changes of the callbacks since the batch was collected. -/
def changesOf (steps : List (DispatchStep Callback)) : List (Change Int Callback) :=
  steps.flatMap DispatchStep.changes

/-- The events that have had their turn. -/
def eventsOf (steps : List (DispatchStep Callback)) : List EpollEvent :=
  steps.filterMap DispatchStep.event?

/-- A callback has been called with the event at this position in the batch. -/
structure Delivery (Callback : Type) where
  position : Nat
  event : EpollEvent
  registration : Numbered Callback

namespace Registry

variable {registry : Registry Callback} {steps early late : List (DispatchStep Callback)}
variable {event : EpollEvent} {delivery : Delivery Callback} {eventFd : Int} {start : Nat}

/-- The callback that `HandleIoEvent` calls. -/
def handleIoEvent (registry : Registry Callback) (event : EpollEvent) :
    Option (Numbered Callback) :=
  registry.descriptors.callbacks.lookup event.fd

/-- The callback that `Run` has called with the event.  An event of the eventfd goes to
`HandleTaskNotification`. -/
def dispatch (eventFd : Int) (registry : Registry Callback) (event : EpollEvent) :
    Option (Numbered Callback) :=
  if event.fd = eventFd then none else registry.handleIoEvent event

/-- Which callbacks `Run` has called with the events of a batch, from a position on. -/
def deliveries (eventFd : Int) :
    Registry Callback → Nat → List (DispatchStep Callback) → List (Delivery Callback)
  | _, _, [] => []
  | registry, position, .call call :: steps =>
      deliveries eventFd (registry.call call) position steps
  | registry, position, .dispatch event :: steps =>
      (registry.dispatch eventFd event).toList.map (⟨position, event, ·⟩) ++
        deliveries eventFd registry (position + 1) steps

def after (registry : Registry Callback) (steps : List (DispatchStep Callback)) :
    Registry Callback :=
  steps.foldl
    (fun registry step =>
      match step with
      | .call call => registry.call call
      | .dispatch _ => registry)
    registry

theorem table_after (registry : Registry Callback) (steps : List (DispatchStep Callback)) :
    (registry.after steps).table = registry.table.after (changesOf steps) := by
  induction steps generalizing registry with
  | nil => rfl
  | cons step steps ih =>
      rw [changesOf, List.flatMap_cons, Table.after_append]
      cases step with
      | call call =>
          rw [DispatchStep.changes, ← table_call]
          exact ih (registry.call call)
      | dispatch event =>
          rw [DispatchStep.changes, Table.after_nil]
          exact ih registry

/-- A delivery is what the turn of an event has come to. -/
theorem mem_deliveries_iff :
    delivery ∈ deliveries eventFd registry start steps ↔
      ∃ early late, steps = early ++ .dispatch delivery.event :: late ∧
        delivery.position = start + (eventsOf early).length ∧
        (registry.after early).dispatch eventFd delivery.event = some delivery.registration := by
  induction steps generalizing registry start with
  | nil => simp [deliveries]
  | cons step steps ih =>
      cases step with
      | call call =>
          rw [deliveries, ih]
          constructor
          · rintro ⟨early, late, rfl, position, delivered⟩
            exact ⟨.call call :: early, late, rfl, position, delivered⟩
          · rintro ⟨early, late, whole, position, delivered⟩
            cases early with
            | nil => cases whole
            | cons first early =>
                obtain ⟨rfl, rfl⟩ := List.cons.inj whole
                exact ⟨early, late, rfl, position, delivered⟩
      | dispatch event =>
          rw [deliveries, List.mem_append, ih]
          constructor
          · rintro (now | ⟨early, late, rfl, position, delivered⟩)
            · rcases List.mem_map.mp now with ⟨registration, delivered, rfl⟩
              exact ⟨[], steps, rfl, rfl, Option.mem_toList.mp delivered⟩
            · refine ⟨.dispatch event :: early, late, rfl, ?_, delivered⟩
              rw [position, Nat.add_right_comm]
              rfl
          · rintro ⟨early, late, whole, position, delivered⟩
            cases early with
            | nil =>
                obtain ⟨same, rfl⟩ := List.cons.inj whole
                obtain rfl : event = delivery.event := by simpa using same
                have here : start = delivery.position := position.symm
                exact .inl (List.mem_map.mpr ⟨_, Option.mem_toList.mpr delivered, by rw [here]⟩)
            | cons first early =>
                obtain ⟨rfl, rfl⟩ := List.cons.inj whole
                refine .inr ⟨early, late, rfl, ?_, delivered⟩
                rw [position, Nat.add_right_comm]
                rfl

/-! ## Deliveries and registrations -/

theorem position_le_of_mem (member : delivery ∈ deliveries eventFd registry start steps) :
    start ≤ delivery.position := by
  rcases mem_deliveries_iff.mp member with ⟨early, late, -, position, -⟩
  exact position ▸ Nat.le_add_right _ _

/-- No event is delivered twice. -/
theorem deliveries_increasing (eventFd : Int) (registry : Registry Callback) (start : Nat)
    (steps : List (DispatchStep Callback)) :
    (deliveries eventFd registry start steps).Pairwise (·.position < ·.position) := by
  induction steps generalizing registry start with
  | nil => exact .nil
  | cons step steps ih =>
      cases step with
      | call call => exact ih (registry.call call) start
      | dispatch event =>
          rw [deliveries]
          refine List.pairwise_append.mpr ⟨?_, ih registry (start + 1), ?_⟩
          · cases registry.dispatch eventFd event with
            | none => exact .nil
            | some registration => exact List.pairwise_singleton _ _
          · intro first isFirst second isSecond
            rcases List.mem_map.mp isFirst with ⟨registration, -, rfl⟩
            exact position_le_of_mem isSecond

theorem positions_nodup (eventFd : Int) (registry : Registry Callback)
    (steps : List (DispatchStep Callback)) :
    ((deliveries eventFd registry 0 steps).map (·.position)).Nodup := by
  refine List.Pairwise.map _ ?_ (deliveries_increasing eventFd registry 0 steps)
  exact fun first second before => Nat.ne_of_lt before

/-- Only events of the batch are delivered. -/
theorem event_of_mem (member : delivery ∈ deliveries eventFd registry 0 steps) :
    (eventsOf steps)[delivery.position]? = some delivery.event := by
  rcases mem_deliveries_iff.mp member with ⟨early, late, rfl, position, -⟩
  rw [position, Nat.zero_add, eventsOf, List.filterMap_append, ← eventsOf]
  simp [DispatchStep.event?]

/-- Steps between which no event has had its turn do not begin with one. -/
theorem eq_nil_of_no_turn {rest tail : List (DispatchStep Callback)}
    (follows : .dispatch event :: late = rest ++ tail)
    (position : (eventsOf early).length = (eventsOf (early ++ rest)).length) : rest = [] := by
  cases rest with
  | nil => rfl
  | cons step rest =>
      obtain ⟨rfl, -⟩ := List.cons.inj follows
      simp [eventsOf, DispatchStep.event?] at position

/-- The turn of an event is known by its position. -/
theorem early_unique {otherEarly otherLate : List (DispatchStep Callback)}
    {other : EpollEvent}
    (same : early ++ .dispatch event :: late = otherEarly ++ .dispatch other :: otherLate)
    (position : (eventsOf early).length = (eventsOf otherEarly).length) :
    early = otherEarly := by
  rcases List.append_eq_append_iff.mp same with ⟨rest, rfl, follows⟩ | ⟨rest, rfl, follows⟩
  · rw [eq_nil_of_no_turn follows position, List.append_nil]
  · rw [eq_nil_of_no_turn follows position.symm, List.append_nil]

/-- Each event goes at most once to a callback, and only to the one that was registered when the
batch was collected; it goes to none if that one has been removed. -/
structure DeliversOwn (eventFd : Int) (registry : Registry Callback)
    (steps : List (DispatchStep Callback)) : Prop where
  genuine : ∀ delivery ∈ deliveries eventFd registry 0 steps,
    (eventsOf steps)[delivery.position]? = some delivery.event
  once : ((deliveries eventFd registry 0 steps).map (·.position)).Nodup
  own : ∀ delivery ∈ deliveries eventFd registry 0 steps,
    registry.descriptors.callbacks.lookup delivery.event.fd = some delivery.registration
  dropped : ∀ early event late, steps = early ++ .dispatch event :: late →
    .call (.removeFd event.fd) ∈ early →
    ∀ delivery ∈ deliveries eventFd registry 0 steps,
      delivery.position ≠ (eventsOf early).length

/-- The descriptor has been registered since the batch was collected, and not removed again. -/
def Reregistered (fd : Int) (steps : List (DispatchStep Callback)) : Prop :=
  Renewed fd (changesOf steps)

theorem lookup_after (registry : Registry Callback) (steps : List (DispatchStep Callback))
    (fd : Int) :
    (registry.after steps).descriptors.callbacks.lookup fd =
      (registry.table.after (changesOf steps)).entries.lookup fd := by
  rw [← table_after]
  rfl

/-- A delivery is made under the descriptor of its event, which is not the eventfd. -/
theorem dispatch_eq_some_iff {registration : Numbered Callback} :
    registry.dispatch eventFd event = some registration ↔
      event.fd ≠ eventFd ∧ registry.descriptors.callbacks.lookup event.fd = some registration := by
  rw [dispatch]
  split
  next inside => simp [inside]
  next outside => simp [outside, handleIoEvent]

theorem mem_changesOf_of_removeFd {fd : Int} (removed : .call (.removeFd fd) ∈ steps) :
    .erase fd ∈ changesOf steps :=
  List.mem_flatMap.mpr ⟨_, removed, by simp [DispatchStep.changes, RegistryCall.change]⟩

/-- **Events reach their own registrations** exactly if no descriptor has been registered anew
when an event on it has its turn. -/
theorem deliversOwn_iff (eventFd : Int) (registry : Registry Callback)
    (steps : List (DispatchStep Callback)) :
    registry.DeliversOwn eventFd steps ↔
      ∀ early event late, steps = early ++ .dispatch event :: late → event.fd ≠ eventFd →
        ¬Reregistered event.fd early := by
  constructor
  · rintro delivers early event late whole outside renewed
    rcases lookup_of_renewed registry.table renewed with ⟨registration, found, recent⟩
    have member : ⟨(eventsOf early).length, event, registration⟩ ∈
        deliveries eventFd registry 0 steps := by
      refine mem_deliveries_iff.mpr ⟨early, late, whole, (Nat.zero_add _).symm, ?_⟩
      rw [dispatch_eq_some_iff, lookup_after]
      exact ⟨outside, found⟩
    exact absurd (registry.earlier _ _ (delivers.own _ member)) (Nat.not_lt.mpr recent)
  · intro notRenewed
    refine ⟨fun _ => event_of_mem, positions_nodup eventFd registry steps, ?own, ?dropped⟩
    case own =>
      intro delivery member
      rcases mem_deliveries_iff.mp member with ⟨early, late, whole, -, delivered⟩
      rw [dispatch_eq_some_iff, lookup_after] at delivered
      have kept := notRenewed early delivery.event late whole delivered.1
      exact (same_entry_iff registry.table).mpr kept _ delivered.2
    case dropped =>
      intro early event late whole removed delivery member position
      rcases mem_deliveries_iff.mp member with ⟨before, rest, split, same, delivered⟩
      rw [Nat.zero_add] at same
      obtain rfl := early_unique (whole.symm.trans split) (position.symm.trans same)
      obtain ⟨isEvent, -⟩ := List.cons.inj (List.append_cancel_left (whole.symm.trans split))
      obtain rfl : event = delivery.event := by simpa using isEvent
      rw [dispatch_eq_some_iff, lookup_after] at delivered
      have kept := notRenewed early delivery.event late whole delivered.1
      have gone := (lookup_of_not_renewed registry.table kept).1
        (mem_changesOf_of_removeFd removed)
      rw [gone] at delivered
      cases delivered.2

/-- Two registered descriptors. -/
def twoClients : Registry Nat :=
  ((⟨{}, 0, by simp⟩ : Registry Nat).call (.addFd 7 epollRead 1 .done)).call
    (.addFd 8 epollRead 2 .done)

/-- The callback of the first event removes the second descriptor and registers it again, and the
second event goes to the new registration. -/
theorem not_deliversOwn_reregistered :
    ¬twoClients.DeliversOwn 4
      [.dispatch ⟨7, epollIn⟩, .call (.removeFd 8), .call (.addFd 8 epollRead 3 .done),
        .dispatch ⟨8, epollIn⟩] := by
  intro delivers
  have delivered : ⟨1, ⟨8, epollIn⟩, ⟨2, 3⟩⟩ ∈ deliveries 4 twoClients 0
      [.dispatch ⟨7, epollIn⟩, .call (.removeFd 8), .call (.addFd 8 epollRead 3 .done),
        .dispatch ⟨8, epollIn⟩] := by
    refine mem_deliveries_iff.mpr ⟨[.dispatch ⟨7, epollIn⟩, .call (.removeFd 8),
      .call (.addFd 8 epollRead 3 .done)], [], rfl, rfl, ?_⟩
    exact dispatch_eq_some_iff.mpr ⟨by decide, Finmap.lookup_insert _⟩
  have own := delivers.own _ delivered
  have registered : twoClients.descriptors.callbacks.lookup 8 = some ⟨1, 2⟩ :=
    Finmap.lookup_insert _
  cases own.symm.trans registered

end Registry

end PPServer.EventLoop
