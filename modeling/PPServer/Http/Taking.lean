import PPServer.Http.HeaderLines
import PPServer.Http.Termination

/-!
# Taking the request away

`GetRequest` can be called in every state, and leaves the parser without its request until the next
`Reset`.  The state stays as it is, and so does what the next call of `Parse` does first.
-/

namespace PPServer.Http

variable {line rest : Bytes}

/-- The data begin with a whole line. -/
def FirstLine (data line rest : Bytes) : Prop := data = line ++ crlf ++ rest ∧ CRLFFree line

theorem not_firstLine_of_free {data : Bytes} (free : CRLFFree data) :
    ¬FirstLine data line rest := by
  intro first
  rcases first with ⟨rfl, -⟩
  exact free ⟨line, rest, rfl⟩

/-- There is only one first line. -/
theorem firstLine_iff {other otherRest : Bytes} (free : CRLFFree line) :
    FirstLine (line ++ cr :: lf :: rest) other otherRest ↔ other = line ∧ otherRest = rest := by
  constructor
  · intro first
    rcases first with ⟨equal, otherFree⟩
    have same : line ++ cr :: lf :: rest = other ++ cr :: lf :: otherRest := by simpa using equal
    rcases Delimiter.line_unique cr_ne_lf free otherFree same with ⟨rfl, rfl⟩
    exact ⟨rfl, rfl⟩
  · intro same
    rcases same with ⟨rfl, rfl⟩
    exact ⟨by simp, free⟩

namespace Reader

variable {reader : Reader} {text : Bytes}

/-! ## A reader without a request -/

/-- A request line that is accepted has to be written into the request. -/
theorem readAll_request_fault_iff (phase : reader.phase = .line .request [])
    (missing : reader.request = none) :
    (reader.readAll text).phase = .fault ↔
      ∃ line rest, FirstLine text line rest ∧ (requestLineOf line).isSome := by
  cases Delimiter.begins cr_ne_lf text with
  | unended free => simp [readAll_openLine phase free, not_firstLine_of_free free]
  | @line line rest free =>
      rw [readAll_line_append phase free, endLine, missing]
      cases accepted : requestLineOf line with
      | none => simp [readAll_failed, firstLine_iff free, accepted]
      | some parts => simp [readAll_fault, firstLine_iff free, accepted]

/-- The empty line looks for the framing in the request, and a header is put into it. -/
theorem readAll_header_fault_iff (phase : reader.phase = .line .header [])
    (missing : reader.request = none) :
    (reader.readAll text).phase = .fault ↔
      ∃ line rest, FirstLine text line rest ∧ (line = [] ∨ colon ∈ line) := by
  cases Delimiter.begins cr_ne_lf text with
  | unended free => simp [readAll_openLine phase free, not_firstLine_of_free free]
  | @line line rest free =>
      rw [readAll_line_append phase free, endLine, missing, headerOf_eq]
      by_cases empty : line = []
      · apply iff_of_true
        · simp [empty, readAll_fault]
        · exact ⟨line, rest, (firstLine_iff free).mpr ⟨rfl, rfl⟩, .inl empty⟩
      · by_cases named : colon ∈ line
        · simp [empty, named, readAll_fault, firstLine_iff free]
        · simp [empty, named, readAll_failed, firstLine_iff free]

/-- Data of any length have to be appended to the body. -/
theorem readAll_data_fault_iff (data : (∃ size, reader.phase = .body size) ∨
      ∃ size, reader.phase = .chunkData size)
    (missing : reader.request = none) : (reader.readAll text).phase = .fault ↔ text ≠ [] := by
  constructor
  · intro fault empty
    rw [empty, readAll_nil] at fault
    simp [fault] at data
  · exact readAll_missing data missing

/-- After the line with its size, the data of a chunk are appended to the body. -/
theorem readAll_chunkSize_fault_iff (phase : reader.phase = .line (.chunkSize false) [])
    (missing : reader.request = none) :
    (reader.readAll text).phase = .fault ↔
      ∃ line rest size, FirstLine text line rest ∧ stoul line 16 = .ok size ∧ size ≠ 0 ∧
        rest ≠ [] := by
  cases Delimiter.begins cr_ne_lf text with
  | unended free => simp [readAll_openLine phase free, not_firstLine_of_free free]
  | @line line rest free =>
      rw [readAll_line_append phase free, endLine]
      cases read : stoul line 16 with
      | error error => simp [readAll_failed, firstLine_iff free, read]
      | ok size =>
          by_cases last : size = 0
          · simp [last, readAll_complete, firstLine_iff free, read]
          · simp [last, readAll_data_fault_iff, missing, firstLine_iff free, read]

theorem read_request_none (missing : reader.request = none) (byte : Byte) :
    (reader.read byte).request = none := by
  have ended (kind : LineKind) (line : Bytes) : (reader.endLine kind line).request = none := by
    simp only [endLine, missing]
    split
    next => split <;> simp_all
    next => split <;> (try split) <;> simp_all
    next => split <;> (try split) <;> simp_all
  simp only [read]
  split
  next => split <;> simp [ended, missing]
  next => simp [missing]
  all_goals simp [readData, missing]

theorem readAll_request_none (missing : reader.request = none) (text : Bytes) :
    (reader.readAll text).request = none := by
  induction text generalizing reader with
  | nil => exact missing
  | cons byte text ih => exact ih (read_request_none missing byte)

end Reader

namespace HttpParser

variable {parser next after : HttpParser} {data : Bytes} {result : ParseResult}

/-- The call `Parse(data)` is carried out to a use of a missing request. -/
def Faults (parser : HttpParser) (data : Bytes) : Prop :=
  ∃ fuel fault, parse fuel parser data = some (.error fault)

/-- What the call `Parse(data)` does first makes use of the request. -/
def NeedsRequest (parser : HttpParser) (data : Bytes) : Prop :=
  match parser.state with
  | .startLine => ∃ line rest, FirstLine data line rest ∧ (requestLineOf line).isSome
  | .headers => ∃ line rest, FirstLine data line rest ∧ (line = [] ∨ colon ∈ line)
  | .body => data ≠ []
  | .chunkedBody =>
      if parser.chunkSizeParsed then data ≠ []
      else
        ∃ line rest size, FirstLine data line rest ∧ stoul line 16 = .ok size ∧ size ≠ 0 ∧
          rest ≠ []
  | .complete | .error => False

/-- A call faults exactly if its reader does. -/
theorem faults_iff_feed (invariant : parser.Invariant) (nonempty : data ≠ []) :
    Faults parser data ↔ (parser.view.feed data).phase = .fault := by
  have faults : Faults parser data ↔
      ∃ fault, Loop.Returns parsePass (enter parser data) (.error fault) := by
    simp only [Faults, parse_of_nonempty nonempty, Loop.Returns]
    exact exists_comm
  rw [faults]
  cases parse_outcome invariant data with
  | forever inside runs =>
      apply iff_of_false
      · intro faults
        rcases faults with ⟨fault, faults⟩
        exact runs ⟨_, faults⟩
      · intro phase
        rcases inside with ⟨kind, seen, other, -⟩
        rw [phase] at other
        cases other
  | faults fault phase faults => exact iff_of_true ⟨fault, faults⟩ phase
  | returns result after notInside notFault returns returned =>
      apply iff_of_false _ notFault
      intro faults
      rcases faults with ⟨fault, faults⟩
      cases returns.unique faults

/-- A parser without a request faults exactly on data that need it. -/
theorem feed_fault_iff (settled : parser.Settled) (missing : parser.request = none) :
    (parser.view.feed data).phase = .fault ↔ parser.NeedsRequest data := by
  rw [Reader.feed, Reader.settle_phase_fault, NeedsRequest]
  by_cases complete : parser.state = .complete
  · simp [view_of_complete complete, complete, Reader.readAll_complete]
  · have view := view_of_not_complete settled complete
    have request : parser.view.request = none := by rw [view]; exact missing
    cases state : parser.state with
    | startLine => exact Reader.readAll_request_fault_iff (by simp [view, reader, state]) request
    | headers => exact Reader.readAll_header_fault_iff (by simp [view, reader, state]) request
    | body => exact Reader.readAll_data_fault_iff (by simp [view, reader, state]) request
    | chunkedBody =>
        cases parsed : parser.chunkSizeParsed with
        | false =>
            exact Reader.readAll_chunkSize_fault_iff (by simp [view, reader, state, parsed]) request
        | true =>
            exact Reader.readAll_data_fault_iff (by simp [view, reader, state, parsed]) request
    | complete => exact absurd state complete
    | error => simp [Reader.readAll_failed, view, reader, state]

theorem not_firstLine_nil : ¬FirstLine [] line rest := not_firstLine_of_free Delimiter.free_nil

theorem not_needsRequest_nil : ¬parser.NeedsRequest [] := by
  simp only [NeedsRequest, not_firstLine_nil]
  split <;> simp

/-- **When a call works on a missing request.** -/
theorem faults_iff (invariant : parser.Invariant) (settled : parser.Settled) :
    Faults parser data ↔ parser.request = none ∧ parser.NeedsRequest data := by
  by_cases empty : data = []
  · subst empty
    apply iff_of_false
    · simp [Faults, parse]
    · exact fun needs => not_needsRequest_nil needs.2
  · rw [faults_iff_feed invariant empty]
    cases present : parser.request with
    | none => simp [feed_fault_iff settled present]
    | some request =>
        have whole : parser.request.isSome := by rw [present]; rfl
        simp [((equipped_view whole).feed data).2]

/-- A call that returns neither makes a request nor takes one away. -/
theorem Parses.isNone_request (parses : Parses parser data result after)
    (invariant : parser.Invariant) (settled : parser.Settled) :
    after.request.isNone = parser.request.isNone := by
  by_cases empty : data = []
  · subst empty
    rw [(parses_nil_iff.mp parses).2]
  · have view := parses.view empty invariant
    rw [← view_request (parses.invariant invariant settled).2, view, Reader.feed,
      Reader.settle_request]
    cases present : parser.request with
    | none => rw [Reader.readAll_request_none ((view_request settled).trans present)]
    | some request =>
        have whole : parser.request.isSome := by rw [present]; rfl
        simpa using ((equipped_view whole).readAll data).1

/-! ## Sequences of calls -/

/-- The calls of the interface. -/
inductive Call where
  | parse (data : Bytes)
  | getRequest
  | reset
  deriving DecidableEq

/-- Every call of a sequence returns. -/
inductive Calls : HttpParser → List Call → HttpParser → Prop where
  | nil (parser : HttpParser) : Calls parser [] parser
  | parse {parser next after : HttpParser} {data : Bytes} {result : ParseResult}
      {calls : List Call} : Parses parser data result next → Calls next calls after →
      Calls parser (.parse data :: calls) after
  | getRequest {parser after : HttpParser} {calls : List Call} :
      Calls parser.getRequest.2 calls after → Calls parser (.getRequest :: calls) after
  | reset {parser after : HttpParser} {calls : List Call} :
      Calls parser.reset calls after → Calls parser (.reset :: calls) after

/-- Whether the request is gone, after one more call. -/
def Call.taken (taken : Bool) : Call → Bool
  | .parse _ => taken
  | .getRequest => true
  | .reset => false

/-- Since the last `Reset` there was a `GetRequest`. -/
def IsTaken (calls : List Call) : Prop := calls.foldl Call.taken false = true

variable {calls : List Call}

theorem Calls.spec (ran : Calls parser calls after) (reachable : Reachable parser) :
    Reachable after ∧ after.request.isNone = calls.foldl Call.taken parser.request.isNone := by
  induction ran with
  | nil => exact ⟨reachable, rfl⟩
  | parse parses _ ih =>
      have kept := parses.isNone_request reachable.invariant.1 reachable.invariant.2
      rw [List.foldl_cons, Call.taken, ← kept]
      exact ih (reachable.parse parses)
  | getRequest _ ih => exact ih reachable.getRequest
  | reset _ ih => exact ih reachable.reset

/-- No call of the sequence is carried out to a use of a missing request. -/
def NeverMisses (calls : List Call) : Prop :=
  ∀ earlier data later parser, calls = earlier ++ .parse data :: later →
    Calls {} earlier parser → ¬Faults parser data

/-- **When the parser works on a missing request.**  A sequence of calls never comes to it exactly
if every `Parse` between a `GetRequest` and the next `Reset` has data that do not need the
request in the state the parser is in. -/
theorem neverMisses_iff (calls : List Call) :
    NeverMisses calls ↔ ∀ earlier data later parser, calls = earlier ++ .parse data :: later →
      Calls {} earlier parser → IsTaken earlier → ¬parser.NeedsRequest data := by
  have missing {earlier : List Call} {data : Bytes} {parser : HttpParser}
      (ran : Calls {} earlier parser) :
      Faults parser data ↔ IsTaken earlier ∧ parser.NeedsRequest data := by
    rcases ran.spec .fresh with ⟨reachable, taken⟩
    have gone : parser.request = none ↔ IsTaken earlier := by
      rw [← Option.isNone_iff_eq_none, taken]
      rfl
    rw [faults_iff reachable.invariant.1 reachable.invariant.2, gone]
  constructor
  · intro never earlier data later parser split ran taken needs
    exact never earlier data later parser split ran ((missing ran).mpr ⟨taken, needs⟩)
  · intro spared earlier data later parser split ran faults
    rcases (missing ran).mp faults with ⟨taken, needs⟩
    exact spared earlier data later parser split ran taken needs

/-- The request is taken before anything is fed. -/
theorem not_neverMisses_first :
    ¬NeverMisses [.getRequest, .parse (bytes "GET / HTTP/1.1\r\n")] := by
  intro never
  apply never [.getRequest] (bytes "GET / HTTP/1.1\r\n") [] _ rfl (.getRequest (.nil _))
  exact ⟨1, .missingRequest, by decide⟩

end HttpParser

end PPServer.Http
