import PPServer.Http.Results
import PPServer.Library.Transition
import PPServer.Net.Connection

/-!
# Trying to parse a request

`TryParseHttpRequest` gives all of `read_buffer_` to the parser of the connection, and takes a
success for a request.  `Parse` succeeds too where more data is needed, and on a parser that is
done.  After a failure the bytes stay in `read_buffer_`, and the next call gives them to the parser
again.
-/

namespace PPServer.Net

open Http Transition

/-- A connection with its parser. -/
structure ParsingConnection where
  connection : Connection
  httpParser : HttpParser := {}
  /-- All that has been appended to `read_buffer_`. -/
  appended : Bytes := []
  /-- All that `Parse` has been given. -/
  given : Bytes := []

/-- What follows a success of `Parse`. -/
def Connection.requestParsed (conn : Connection) : Connection :=
  { conn with
    readBuffer := []
    effects := if conn.hasReadCallback then conn.effects ++ [.readCallback] else conn.effects }

namespace ParsingConnection

def new (socketFd : Int) (now : Nat) : ParsingConnection := { connection := .new socketFd now }

def append (conn : ParsingConnection) (data : Bytes) : ParsingConnection :=
  { conn with
    connection := { conn.connection with readBuffer := conn.connection.readBuffer ++ data }
    appended := conn.appended ++ data }

def setReadCallback (conn : ParsingConnection) : ParsingConnection :=
  { conn with connection := { conn.connection with hasReadCallback := true } }

/-- The parser has been given the read buffer, and is left as `httpParser`. -/
def give (conn : ParsingConnection) (httpParser : HttpParser) : ParsingConnection :=
  { conn with httpParser, given := conn.given ++ conn.connection.readBuffer }

/-- `TryParseHttpRequest`, with `Parse` given up after `fuel` passes of its loop.  There is no
outcome if it does not return by then. -/
def tryParseHttpRequest (fuel : Nat) (conn : ParsingConnection) :
    Option (Bool × ParsingConnection) :=
  if conn.connection.bufferMutexHeld then none
  else if conn.connection.readBuffer = [] then some (false, conn)
  else
    match HttpParser.parseOutcome fuel conn.httpParser conn.connection.readBuffer with
    | none => none
    | some (result, httpParser) =>
        if result.success then
          some (true,
            { conn.give httpParser with connection := conn.connection.requestParsed })
        else some (false, conn.give httpParser)

inductive ParsingAction where
  | append (data : Bytes)
  | setReadCallback
  | tryParseHttpRequest (fuel : Nat)

def parsingStep (conn : ParsingConnection) : ParsingAction → Option ParsingConnection
  | .append data => some (conn.append data)
  | .setReadCallback => some conn.setReadCallback
  | .tryParseHttpRequest fuel => (conn.tryParseHttpRequest fuel).map Prod.snd

variable {conn after : ParsingConnection} {value : Bool} {fuel : Nat}
variable {result : ParseResult} {httpParser : HttpParser}

/-! ## Invariant -/

structure Invariant (conn : ParsingConnection) : Prop where
  parser : conn.httpParser.Invariant
  settled : conn.httpParser.Settled
  /-- The parser has read what it was given, or keeps it in its buffer. -/
  parsed : conn.httpParser.state ≠ .error → ∃ read,
    conn.httpParser.totalBytesParsed = read.length % sizeModulus ∧
      conn.given = read ++ conn.httpParser.buffer
  waiting : conn.httpParser.state ≠ .error →
    conn.appended = conn.given ++ conn.connection.readBuffer
  /-- Some bytes have been given and are still there to be given again. -/
  refused : conn.httpParser.state = .error →
    conn.appended.length < conn.given.length + conn.connection.readBuffer.length

/-- How a call returns. -/
inductive Tried (conn : ParsingConnection) : Bool → ParsingConnection → Prop where
  | empty : conn.connection.readBuffer = [] → Tried conn false conn
  | parsed {result : ParseResult} {httpParser : HttpParser} :
      conn.connection.readBuffer ≠ [] →
      HttpParser.Parses conn.httpParser conn.connection.readBuffer result httpParser →
      httpParser.state ≠ .error →
      Tried conn true { conn.give httpParser with connection := conn.connection.requestParsed }
  | refused {result : ParseResult} {httpParser : HttpParser} :
      conn.connection.readBuffer ≠ [] →
      HttpParser.Parses conn.httpParser conn.connection.readBuffer result httpParser →
      httpParser.state = .error →
      Tried conn false (conn.give httpParser)

theorem Invariant.tried (invariant : conn.Invariant)
    (returns : conn.tryParseHttpRequest fuel = some (value, after)) : Tried conn value after := by
  simp only [tryParseHttpRequest] at returns
  split at returns
  next => cases returns
  next =>
    split at returns
    next empty =>
      cases returns
      exact .empty empty
    next nonempty =>
      split at returns
      next => cases returns
      next result httpParser outcome =>
        have parses : HttpParser.Parses conn.httpParser _ result httpParser :=
          HttpParser.parses_of_outcome outcome
        have success := parses.success_iff nonempty invariant.parser invariant.settled
        split at returns
        next succeeds =>
          cases returns
          exact .parsed nonempty parses (success.mp succeeds)
        next fails =>
          cases returns
          have failed : ¬httpParser.state ≠ .error := fails ∘ success.mpr
          exact .refused nonempty parses (Classical.not_not.mp failed)

theorem invariant_new (socketFd : Int) (now : Nat) : (new socketFd now).Invariant where
  parser := .fresh
  settled := HttpParser.settled_fresh
  parsed := fun _ => ⟨[], rfl, rfl⟩
  waiting := fun _ => rfl
  refused := fun failed => by cases failed

theorem Invariant.append (invariant : conn.Invariant) (data : Bytes) :
    (conn.append data).Invariant where
  parser := invariant.parser
  settled := invariant.settled
  parsed := invariant.parsed
  waiting := by
    intro alive
    have waiting := invariant.waiting alive
    simp [ParsingConnection.append, waiting]
  refused := by
    intro failed
    have refused := invariant.refused failed
    simp only [ParsingConnection.append, List.length_append]
    omega

theorem Invariant.alive (invariant : conn.Invariant)
    (nonempty : conn.connection.readBuffer ≠ [])
    (parses : HttpParser.Parses conn.httpParser conn.connection.readBuffer result httpParser)
    (alive : httpParser.state ≠ .error) : conn.httpParser.state ≠ .error := fun error =>
  alive (parses.error nonempty invariant.parser invariant.settled error)

/-- What a call of `Parse` is given it reads, but for what stays in its buffer. -/
theorem Invariant.parsed_give (invariant : conn.Invariant)
    (nonempty : conn.connection.readBuffer ≠ [])
    (parses : HttpParser.Parses conn.httpParser conn.connection.readBuffer result httpParser)
    (alive : httpParser.state ≠ .error) :
    ∃ read, httpParser.totalBytesParsed = read.length % sizeModulus ∧
      conn.given ++ conn.connection.readBuffer = read ++ httpParser.buffer := by
  rcases invariant.parsed (invariant.alive nonempty parses alive) with ⟨read, counted, given⟩
  have feeds : HttpParser.Feeds conn.httpParser [conn.connection.readBuffer] httpParser :=
    .cons parses (.nil _)
  rcases feeds.exists_further (by simpa using nonempty) invariant.parser invariant.settled alive
    with ⟨further, furtherCounted, taken⟩
  refine ⟨read ++ further, ?_, ?_⟩
  · rw [furtherCounted, counted, Nat.mod_add_mod, List.length_append]
  · rw [given, List.append_assoc, List.append_assoc, ← taken, List.flatten_singleton]

theorem Tried.invariant (tried : Tried conn value after) (invariant : conn.Invariant) :
    after.Invariant := by
  cases tried with
  | empty => exact invariant
  | parsed nonempty parses alive =>
      rcases parses.invariant invariant.parser invariant.settled with ⟨isParser, settled⟩
      have waiting := invariant.waiting (invariant.alive nonempty parses alive)
      exact
        { parser := isParser
          settled
          parsed := invariant.parsed_give nonempty parses
          waiting := fun _ => by simp [give, Connection.requestParsed, waiting]
          refused := fun failed => absurd failed alive }
  | refused nonempty parses failed =>
      rcases parses.invariant invariant.parser invariant.settled with ⟨isParser, settled⟩
      have unread := List.length_pos_of_ne_nil nonempty
      refine
        { parser := isParser
          settled
          parsed := fun alive => absurd failed alive
          waiting := fun alive => absurd failed alive
          refused := fun _ => ?_ }
      simp only [give, List.length_append]
      by_cases error : conn.httpParser.state = .error
      · have refused := invariant.refused error
        omega
      · rw [invariant.waiting error, List.length_append]
        omega

theorem keeps_invariant : Keeps parsingStep (fun _ => True) Invariant := by
  intro conn action next _ taken invariant
  cases action with
  | append data =>
      cases taken
      exact invariant.append data
  | setReadCallback =>
      cases taken
      exact
        { parser := invariant.parser
          settled := invariant.settled
          parsed := invariant.parsed
          waiting := invariant.waiting
          refused := invariant.refused }
  | tryParseHttpRequest fuel =>
      rcases Option.map_eq_some_iff.mp taken with ⟨⟨value, after⟩, returns, rfl⟩
      exact (invariant.tried returns).invariant invariant

/-! ## What a call reports -/

/-- The call has taken the parser to `COMPLETE`. -/
def Completes (before after : ParsingConnection) : Prop :=
  before.httpParser.state ≠ .complete ∧ after.httpParser.state = .complete

/-- The call reports a request exactly if it has completed one. -/
structure ReportsWhole (before : ParsingConnection) (value : Bool) (after : ParsingConnection) :
    Prop where
  returned : value = true ↔ Completes before after
  /-- The read callback, if there is one, is called. -/
  fired : after.connection.effects = before.connection.effects ++ [.readCallback] ↔
    before.connection.hasReadCallback = true ∧ Completes before after

/-- Each byte has been given to the parser once, or waits in the read buffer; and what the parser
was given it has read, or keeps in its buffer. -/
structure Accounted (conn : ParsingConnection) : Prop where
  once : ∃ fresh, conn.appended = conn.given ++ fresh ∧ fresh <:+ conn.connection.readBuffer
  parsed : conn.httpParser.state ≠ .error → ∃ read,
    conn.httpParser.totalBytesParsed = read.length % sizeModulus ∧
      conn.given = read ++ conn.httpParser.buffer

/-- There is nothing to parse; or the parser has not come to an end, and the bytes of the read
buffer take it to one. -/
def Conclusive (conn : ParsingConnection) : Prop :=
  conn.connection.readBuffer = [] ∨
    conn.httpParser.state ≠ .complete ∧ conn.httpParser.state ≠ .error ∧
      conn.httpParser.view.Concludes conn.connection.readBuffer

theorem Accounted.length_le (accounted : conn.Accounted) :
    conn.given.length ≤ conn.appended.length := by
  rcases accounted.once with ⟨fresh, equal, -⟩
  rw [equal, List.length_append]
  exact Nat.le_add_right _ _

theorem accounted_of_alive (invariant : conn.Invariant) (alive : conn.httpParser.state ≠ .error) :
    conn.Accounted :=
  ⟨⟨_, invariant.waiting alive, List.suffix_rfl⟩, invariant.parsed⟩

theorem reportsWhole_parsed_iff {httpParser : HttpParser} :
    ReportsWhole conn true
        { conn.give httpParser with connection := conn.connection.requestParsed } ↔
      conn.httpParser.state ≠ .complete ∧ httpParser.state = .complete := by
  constructor
  · intro reports
    exact reports.returned.mp rfl
  · intro completes
    refine ⟨iff_of_true rfl completes, ?_⟩
    cases hasCallback : conn.connection.hasReadCallback <;>
      simp [Connection.requestParsed, hasCallback, Completes, give, completes]

theorem reportsWhole_of_not_completes
    (same : after.connection.effects = conn.connection.effects)
    (incomplete : ¬Completes conn after) : ReportsWhole conn false after := by
  refine ⟨iff_of_false Bool.false_ne_true incomplete, iff_of_false ?_ fun both => incomplete both.2⟩
  simp [same]

/-- What is refused a second time has been given twice. -/
theorem accounted_refused_iff {httpParser : HttpParser} (invariant : conn.Invariant)
    (failed : httpParser.state = .error) :
    (conn.give httpParser).Accounted ↔ conn.httpParser.state ≠ .error := by
  constructor
  · intro accounted error
    have given := accounted.length_le
    have refused := invariant.refused error
    simp only [give, List.length_append] at given
    omega
  · intro alive
    refine ⟨⟨[], ?_, List.nil_suffix⟩, fun going => absurd failed going⟩
    simp [give, invariant.waiting alive]

/-- One call does as it should exactly if it is conclusive. -/
theorem Tried.meets_iff (tried : Tried conn value after) (invariant : conn.Invariant)
    (accounted : conn.Accounted) :
    ReportsWhole conn value after ∧ after.Accounted ↔ conn.Conclusive := by
  cases tried with
  | empty none =>
      refine iff_of_true ⟨reportsWhole_of_not_completes rfl ?_, accounted⟩ (.inl none)
      exact fun completes => completes.1 completes.2
  | @parsed result httpParser nonempty parses alive =>
      have concludes := parses.concludes_iff nonempty invariant.parser invariant.settled
      have isAccounted := accounted_of_alive
        ((Tried.parsed nonempty parses alive).invariant invariant) alive
      rw [and_iff_left isAccounted, reportsWhole_parsed_iff, Conclusive, or_iff_right nonempty,
        concludes, or_iff_left alive, and_iff_right (invariant.alive nonempty parses alive)]
  | @refused result httpParser nonempty parses failed =>
      have concludes := parses.concludes_iff nonempty invariant.parser invariant.settled
      have reports : ReportsWhole conn false (conn.give httpParser) :=
        reportsWhole_of_not_completes rfl fun completes => by
          have complete : httpParser.state = .complete := completes.2
          simp [failed] at complete
      have going : conn.httpParser.state ≠ .complete := fun complete => by
        have stays := parses.complete nonempty invariant.parser invariant.settled complete
        simp [failed] at stays
      rw [and_iff_right reports, accounted_refused_iff invariant failed, Conclusive,
        or_iff_right nonempty, concludes, and_iff_right going,
        and_iff_left (.inr failed : httpParser.state = .complete ∨ _)]

/-! ## Runs -/

theorem accounted_new (socketFd : Int) (now : Nat) : (new socketFd now).Accounted :=
  accounted_of_alive (invariant_new socketFd now) (by simp [new])

theorem Accounted.append (accounted : conn.Accounted) (data : Bytes) :
    (conn.append data).Accounted := by
  rcases accounted.once with ⟨fresh, equal, waits⟩
  refine ⟨⟨fresh ++ data, ?_, List.suffix_append_self_iff.mpr waits⟩, accounted.parsed⟩
  simp [ParsingConnection.append, equal]

/-- The condition that a step meets. -/
def ConclusiveStep (conn : ParsingConnection) (action : ParsingAction) : Prop :=
  ∀ fuel, action = .tryParseHttpRequest fuel → conn.Conclusive

variable {socketFd : Int} {now : Nat} {actions : List ParsingAction}

theorem invariant_of_visits (visits : Visits parsingStep (new socketFd now) actions after) :
    after.Invariant := by
  rcases visits with ⟨before, -, ran⟩
  exact keeps_invariant.run ran (fun _ _ => trivial) (invariant_new socketFd now)

/-- A conclusive step loses no byte and gives none twice. -/
theorem Accounted.step {action : ParsingAction} (accounted : conn.Accounted)
    (invariant : conn.Invariant) (conclusive : conn.ConclusiveStep action)
    (taken : parsingStep conn action = some after) : after.Accounted := by
  cases action with
  | append data =>
      cases taken
      exact accounted.append data
  | setReadCallback =>
      cases taken
      exact ⟨accounted.once, accounted.parsed⟩
  | tryParseHttpRequest fuel =>
      rcases Option.map_eq_some_iff.mp taken with ⟨⟨value, after⟩, returns, rfl⟩
      have meets := (invariant.tried returns).meets_iff invariant accounted
      exact (meets.mpr (conclusive fuel rfl)).2

/-- **Whether `TryParseHttpRequest` reports whole requests only.**  In a run of appended bytes and
calls that return, each call reports a request exactly if it has completed one, and no byte is given
to the parser twice or lost, exactly if every call finds nothing in the read buffer, or a parser
that has not come to an end and bytes that take it to one. -/
theorem reports_whole_iff (socketFd : Int) (now : Nat) (actions : List ParsingAction) :
    ((∀ current fuel next, Takes parsingStep (new socketFd now) actions current
        (.tryParseHttpRequest fuel) next →
          ∀ value, current.tryParseHttpRequest fuel = some (value, next) →
            ReportsWhole current value next) ∧
      ∀ visited, Visits parsingStep (new socketFd now) actions visited → visited.Accounted) ↔
    ∀ current action next, Takes parsingStep (new socketFd now) actions current action next →
      current.ConclusiveStep action := by
  constructor
  · intro meets current action next takes fuel isTry
    subst isTry
    rcases meets with ⟨reports, accounted⟩
    rcases Option.map_eq_some_iff.mp takes.taken with ⟨⟨value, after⟩, returns, rfl⟩
    have invariant := invariant_of_visits takes.visits
    apply ((invariant.tried returns).meets_iff invariant (accounted current takes.visits)).mp
    exact ⟨reports current fuel after takes value returns, accounted after takes.visits_next⟩
  · intro conclusive
    have both : ∀ visited, Visits parsingStep (new socketFd now) actions visited →
        visited.Invariant ∧ visited.Accounted := by
      refine forall_visits_of_takes ⟨invariant_new socketFd now, accounted_new socketFd now⟩ ?_
        conclusive
      intro current action next taken holds isConclusive
      exact ⟨keeps_invariant current action next trivial taken holds.1,
        holds.2.step holds.1 isConclusive taken⟩
    constructor
    · intro current fuel next takes value returns
      rcases both current takes.visits with ⟨invariant, accounted⟩
      have meets := (invariant.tried returns).meets_iff invariant accounted
      exact (meets.mpr (conclusive current _ next takes fuel rfl)).1
    · exact fun visited visits => (both visited visits).2

/-- A request line alone is reported, and what is refused is given to the parser with every call. -/
theorem reports_partial_gives_twice :
    (∃ after, ((new 5 0).append (bytes "GET / HTTP/1.1\r\n")).tryParseHttpRequest 3 =
        some (true, after) ∧ after.httpParser.state = .headers ∧
      ¬ReportsWhole ((new 5 0).append (bytes "GET / HTTP/1.1\r\n")) true after) ∧
    ∃ after, Visits parsingStep (new 5 0) [.append (bytes "x\r\n"), .tryParseHttpRequest 1,
        .tryParseHttpRequest 1] after ∧
      after.given = bytes "x\r\nx\r\n" ∧ ¬after.Accounted := by
  constructor
  · refine ⟨_, rfl, by decide, fun reports => ?_⟩
    exact absurd (reports.returned.mp rfl).2 (by decide)
  · refine ⟨_, visits_last rfl, by decide, fun accounted => ?_⟩
    exact absurd accounted.length_le (by decide)

end ParsingConnection

end PPServer.Net
