import PPServer.Http.StageResults

/-!
# What `Parse` reports

The outer loop keeps the result of the last stage, and corrects it only for `COMPLETE`.  So the
result lags behind where the header has just ended: in `BODY` or `CHUNKED_BODY` if the bytes of the
call end with it, and in `ERROR` if its `Content-Length` is refused.  A call on a parser that is
done or has failed does not run a stage, and reports what the constructor of the result left.
-/

namespace PPServer.Http.HttpParser

open Loop

variable {parser after : HttpParser} {data rest : Bytes} {pos : Nat} {lines : List Bytes}
variable {result : ParseResult} {request : HttpRequest} {loop : ParseLoop} {exit : StageExit}

/-- The result agrees with the parser after the call. -/
structure TellsTruth (result : ParseResult) (after : HttpParser) : Prop where
  state : result.state = after.state
  success : result.success = true ↔ after.state ≠ .error
  bytesParsed : result.bytesParsed = after.totalBytesParsed

/-! ## Passes -/

/-- The result of the last stage agrees with the parser, but for `COMPLETE`. -/
structure InStep (loop : ParseLoop) : Prop where
  success : loop.result.success = true
  alive : loop.parser.state ≠ .error
  bytesParsed : loop.result.bytesParsed = loop.parser.totalBytesParsed
  state : loop.result.state = loop.parser.state ∨ loop.parser.state = .complete

theorem finish_keeps (loop : ParseLoop) :
    (finish loop).2.state = loop.parser.state ∧
      (finish loop).2.totalBytesParsed = loop.parser.totalBytesParsed := by
  simp only [finish]
  split <;> exact ⟨rfl, rfl⟩

theorem finish_result (loop : ParseLoop) :
    (finish loop).1 =
      if loop.parser.state = .complete then
        { loop.result with success := true, state := .complete }
      else loop.result := by
  simp only [finish]
  split
  next complete => rw [complete]
  next => rfl

theorem InStep.finish (inStep : InStep loop) :
    TellsTruth (HttpParser.finish loop).1 (HttpParser.finish loop).2 := by
  rcases finish_keeps loop with ⟨state, total⟩
  constructor
  case state =>
    rw [state, finish_result]
    split
    next complete => exact complete.symm
    next going => exact inStep.state.resolve_right going
  case success =>
    rw [state, finish_result]
    refine iff_of_true ?_ inStep.alive
    split
    next => rfl
    next => exact inStep.success
  case bytesParsed =>
    rw [total, finish_result, ← inStep.bytesParsed]
    split <;> rfl

theorem pass_of_failure (active : Active loop) (stage : parseStage loop = .ok exit)
    (failed : exit.result.success = false) :
    parsePass loop = .leave (.ok (exit.result, exit.parser)) := by
  rw [parsePass_active active, stage]
  simp [failed]

/-- The locals of `Parse` after a stage that succeeded. -/
def ParseLoop.goOn (loop : ParseLoop) (exit : StageExit) : ParseLoop where
  parser := loop.advance exit
  pos := exit.pos
  result :=
    { exit.result with
      bytesParsed := (exit.result.bytesParsed + (exit.pos - loop.pos)) % sizeModulus }

theorem pass_of_success (active : Active loop) (stage : parseStage loop = .ok exit)
    (ok : exit.result.success = true) : parsePass loop = .again (loop.goOn exit) := by
  rw [parsePass_active active, stage]
  exact if_neg (by simp [ok])

theorem Told.tells_of_failure (told : Told parser exit) (failed : exit.result.success = false) :
    TellsTruth exit.result exit.parser := by
  have state : exit.parser.state = .error := by
    by_contra alive
    exact absurd (told.success.mpr alive) (by simp [failed])
  exact
    { state := told.state.resolve_right (by simp [state])
      success := by simp [failed, state]
      bytesParsed := told.bytesParsed.trans told.total.symm }

theorem Told.inStep (told : Told loop.parser exit) (ok : exit.result.success = true) :
    InStep (loop.goOn exit) where
  success := ok
  alive := told.success.mp ok
  bytesParsed := by simp only [ParseLoop.goOn, ParseLoop.advance, told.bytesParsed, told.total]
  state := told.state

/-- A call that returns has called no stage that uses a missing request. -/
theorem exists_exit (active : Active loop) {outcome : ParseResult × HttpParser}
    (returns : Returns parsePass loop (.ok outcome)) : ∃ exit, parseStage loop = .ok exit := by
  cases stage : parseStage loop with
  | ok exit => exact ⟨exit, rfl⟩
  | error fault =>
      have pass := parsePass_active active
      rw [stage] at pass
      cases returns.unique (returns_of_leave pass)

/-- What a call returns once its loop has been left. -/
theorem finish_of_returns (inactive : ¬Active loop)
    (returns : Returns parsePass loop (.ok (result, after))) :
    result = (finish loop).1 ∧ after = (finish loop).2 := by
  have left : (result, after) = finish loop :=
    Except.ok.inj (returns.unique (returns_of_leave (parsePass_inactive inactive)))
  rw [← left]
  exact ⟨rfl, rfl⟩

/-- If the loop has been left, the result agrees. -/
theorem InStep.tells (inStep : InStep loop) (inactive : ¬Active loop)
    (returns : Returns parsePass loop (.ok (result, after))) : TellsTruth result after := by
  cases returns.unique (returns_of_leave (parsePass_inactive inactive))
  exact inStep.finish

/-- The stages of the body do not lag behind, and do not leave it except for its end. -/
theorem parseStage_body (inBody : loop.parser.state = .body ∨ loop.parser.state = .chunkedBody)
    (stage : parseStage loop = .ok exit) :
    Told loop.parser exit ∧ (exit.result.success = true →
      (exit.parser.state = .body ∨ exit.parser.state = .chunkedBody) ∨
        exit.parser.state = .complete) := by
  rcases inBody with state | state
  · simp only [parseStage, state] at stage
    rcases parseBody_told state stage with ⟨told, same⟩
    exact ⟨told, fun ok => told.state.imp_left fun equal => .inl (equal.symm.trans (same ok))⟩
  · simp only [parseStage, state] at stage
    rcases parseChunkedBody_told state stage with ⟨told, same⟩
    exact ⟨told, fun ok => told.state.imp_left fun equal => .inr (equal.symm.trans (same ok))⟩

/-- In the body of a request the result agrees with the parser. -/
theorem tells_of_body (inBody : loop.parser.state = .body ∨ loop.parser.state = .chunkedBody)
    (active : Active loop) (returns : Returns parsePass loop (.ok (result, after))) :
    TellsTruth result after := by
  revert inBody active
  refine returns.induction fun loop returns carried inBody active => ?_
  rcases exists_exit active returns with ⟨exit, stage⟩
  rcases parseStage_body inBody stage with ⟨told, stays⟩
  cases success : exit.result.success with
  | false =>
      cases returns.unique (returns_of_leave (pass_of_failure active stage success))
      exact told.tells_of_failure success
  | true =>
      have pass := pass_of_success active stage success
      by_cases nextActive : Active (loop.goOn exit)
      · exact carried _ pass ((stays success).resolve_right nextActive.2.1) nextActive
      · exact (told.inStep success).tells nextActive ((returns_again_iff pass).mp returns)

/-- From a result that says so, success is what the parser shows. -/
theorem success_iff_of_returns (invariant : loop.parser.Invariant)
    (ok : ¬Active loop → loop.result.success = true ∧ loop.parser.state ≠ .error)
    (returns : Returns parsePass loop (.ok (result, after))) :
    result.success = true ↔ after.state ≠ .error := by
  revert invariant ok
  refine returns.induction fun loop returns carried invariant ok => ?_
  by_cases active : Active loop
  · rcases exists_exit active returns with ⟨exit, stage⟩
    have spec := parseStage_spec invariant active
    rw [stage] at spec
    cases success : exit.result.success with
    | false =>
        cases returns.unique (returns_of_leave (pass_of_failure active stage success))
        exact spec.success
    | true =>
        have pass := pass_of_success active stage success
        exact carried _ pass spec.invariant_advance fun _ => ⟨success, spec.success.mp success⟩
  · rcases ok active with ⟨success, alive⟩
    rcases finish_of_returns active returns with ⟨rfl, rfl⟩
    rw [(finish_keeps loop).1, finish_result]
    refine iff_of_true ?_ alive
    split
    next => rfl
    next => exact success

theorem active_enter (nonempty : data ≠ []) (going : parser.state ≠ .complete)
    (alive : parser.state ≠ .error) : Active (enter parser data) :=
  ⟨List.length_pos_of_ne_nil (List.append_ne_nil_of_right_ne_nil _ nonempty), going, alive⟩

/-- Whether a call with data succeeds can be told from the parser after it. -/
theorem Parses.success_iff (parses : Parses parser data result after) (nonempty : data ≠ [])
    (invariant : parser.Invariant) (settled : parser.Settled) :
    result.success = true ↔ after.state ≠ .error := by
  have returns := (parses_iff_returns nonempty).mp parses
  by_cases complete : after.state = .complete
  · have told := (parses.spec nonempty invariant).1.complete complete
    exact iff_of_true told.1 (by simp [complete])
  · by_cases error : parser.state = .error
    · have failed := parses.error nonempty invariant settled error
      have inactive : ¬Active (enter parser data) := fun active => active.2.2 error
      have going : (enter parser data).parser.state ≠ .complete := by simp [enter, error]
      rcases finish_of_returns inactive returns with ⟨rfl, rfl⟩
      rw [finish_result, if_neg going]
      exact iff_of_false (by simp [enter]) (by simp [failed])
    · have going : parser.state ≠ .complete := fun wasComplete => complete <| by
        have inactive : ¬Active (enter parser data) := fun active => active.2.1 wasComplete
        rcases finish_of_returns inactive returns with ⟨rfl, rfl⟩
        rw [(finish_keeps _).1]
        exact wasComplete
      exact success_iff_of_returns (invariant.enter data)
        (absurd (active_enter nonempty going error)) returns

/-! ## The end of the header -/

/-- The header has ended, and the result of the call does not show it: the header is refused, or it
selects a body of which not a byte is there. -/
def Lags (table : HttpRequest) (rest : Bytes) : Prop :=
  table.framing = .invalid ∨ rest = [] ∧ table.framing ≠ .none

/-- Whether the result lags behind can be told from where the stage has left the parser. -/
theorem Ended.lags_iff {table : HttpRequest} (ended : Ended parser exit table.framing)
    (rest : Bytes) :
    Lags table rest ↔
      exit.parser.state = .error ∨ rest = [] ∧ exit.parser.state ≠ .complete := by
  rw [Lags, ended.state]
  cases table.framing <;> simp [nextState]

theorem active_goOn_iff (invariant : loop.parser.Invariant) (active : Active loop)
    (stage : parseStage loop = .ok exit) :
    Active (loop.goOn exit) ↔
      loop.parser.buffer.drop exit.pos ≠ [] ∧ exit.parser.state ≠ .complete ∧
        exit.parser.state ≠ .error := by
  have spec := parseStage_spec invariant active
  rw [stage] at spec
  have buffer : (loop.goOn exit).parser.buffer = loop.parser.buffer := spec.buffer
  have unread : (loop.goOn exit).pos < loop.parser.buffer.length ↔
      loop.parser.buffer.drop exit.pos ≠ [] := by
    rw [ne_eq, List.drop_eq_nil_iff, Nat.not_le]
    rfl
  rw [Active, buffer, unread]
  rfl

/-- With a body to come, the result of the header stage is only kept if no byte follows. -/
theorem Ended.tells_iff_of_body {framing : Framing} (ended : Ended loop.parser exit framing)
    (inBody : exit.parser.state = .body ∨ exit.parser.state = .chunkedBody)
    (invariant : loop.parser.Invariant) (active : Active loop)
    (stage : parseStage loop = .ok exit)
    (returns : Returns parsePass loop (.ok (result, after))) :
    TellsTruth result after ↔ loop.parser.buffer.drop exit.pos ≠ [] := by
  have nextActive := active_goOn_iff invariant active stage
  have alive : exit.parser.state ≠ .error := by rcases inBody with state | state <;> simp [state]
  have going : exit.parser.state ≠ .complete := by rcases inBody with state | state <;> simp [state]
  rw [returns_again_iff (pass_of_success active stage (ended.success.mpr alive))] at returns
  by_cases more : loop.parser.buffer.drop exit.pos = []
  · refine iff_of_false (fun tells => ?_) (by simpa using more)
    have inactive : ¬Active (loop.goOn exit) := fun stays => (nextActive.mp stays).1 more
    rcases finish_of_returns inactive returns with ⟨isResult, isAfter⟩
    rw [finish_result, if_neg (show (loop.goOn exit).parser.state ≠ _ from going)] at isResult
    have same : exit.result.state = exit.parser.state := by
      have told := tells.state
      rwa [isResult, isAfter, (finish_keeps _).1] at told
    rw [ended.resultState] at same
    rcases inBody with state | state <;> simp [state] at same
  · exact iff_of_true (tells_of_body inBody (nextActive.mpr ⟨more, going, alive⟩) returns) more

theorem Ended.tells_iff {table : HttpRequest} (ended : Ended loop.parser exit table.framing)
    (invariant : loop.parser.Invariant) (active : Active loop)
    (stage : parseStage loop = .ok exit)
    (returns : Returns parsePass loop (.ok (result, after))) :
    TellsTruth result after ↔ ¬Lags table (loop.parser.buffer.drop exit.pos) := by
  have nextActive := active_goOn_iff invariant active stage
  rw [ended.lags_iff]
  have state := ended.state
  cases framing : table.framing with
  | none =>
      have complete : exit.parser.state = .complete := by rw [state, framing]; rfl
      have told : Told loop.parser exit :=
        ⟨ended.total, ended.bytesParsed, ended.success, .inr complete⟩
      have ok : exit.result.success = true := ended.success.mpr (by simp [complete])
      refine iff_of_true ((told.inStep ok).tells ?_
        ((returns_again_iff (pass_of_success active stage ok)).mp returns)) (by simp [complete])
      exact fun stays => (nextActive.mp stays).2.1 complete
  | invalid =>
      have error : exit.parser.state = .error := by rw [state, framing]; rfl
      have failed : exit.result.success = false := by
        rw [← Bool.not_eq_true, ended.success, error]
        simp
      cases returns.unique (returns_of_leave (pass_of_failure active stage failed))
      refine iff_of_false (fun tells => ?_) (by simp [error])
      have same := tells.state
      rw [ended.resultState, error] at same
      cases same
  | length size =>
      have inBody : exit.parser.state = .body := by rw [state, framing]; rfl
      rw [ended.tells_iff_of_body (.inl inBody) invariant active stage returns]
      simp [inBody]
  | chunked =>
      have inBody : exit.parser.state = .chunkedBody := by rw [state, framing]; rfl
      rw [ended.tells_iff_of_body (.inr inBody) invariant active stage returns]
      simp [inBody]

/-- A stage that waits for the end of a line is the last one of a call that returns. -/
theorem Told.tells_of_waiting (told : Told loop.parser exit) (invariant : loop.parser.Invariant)
    (active : Active loop) (stage : parseStage loop = .ok exit)
    (returns : Returns parsePass loop (.ok (result, after))) (ok : exit.result.success = true)
    (waiting : exit.parser.state = .startLine ∨ exit.parser.state = .headers)
    (free : CRLFFree (loop.parser.buffer.drop exit.pos)) : TellsTruth result after := by
  rw [returns_again_iff (pass_of_success active stage ok)] at returns
  apply (told.inStep ok).tells ?_ returns
  intro stays
  have spec := parseStage_spec invariant active
  rw [stage] at spec
  have buffer : (loop.goOn exit).parser.buffer = loop.parser.buffer := spec.buffer
  have line : ∃ kind, (loop.goOn exit).parser.reader.phase = .line kind [] := by
    rcases waiting with state | state
    · exact ⟨.request, by simp [reader, ParseLoop.goOn, ParseLoop.advance, state]⟩
    · exact ⟨.header, by simp [reader, ParseLoop.goOn, ParseLoop.advance, state]⟩
  rcases line with ⟨kind, phase⟩
  exact not_terminates_of_stuck stays ⟨kind, phase, buffer ▸ free⟩ ⟨_, returns⟩

/-- From the header on, the result agrees unless a header that makes it lag behind is there. -/
theorem tells_iff_of_headers (invariant : loop.parser.Invariant)
    (state : loop.parser.state = .headers) (active : Active loop)
    (returns : Returns parsePass loop (.ok (result, after))) :
    TellsTruth result after ↔ ∀ lines rest request,
      HeaderAt loop.parser.buffer loop.pos lines rest → loop.parser.request = some request →
        ¬Lags (lines.foldl HttpRequest.withHeaderLine request) rest := by
  rcases exists_exit active returns with ⟨exit, stage⟩
  have isHeaders : loop.parser.parseHeaders loop.parser.buffer loop.pos = .ok exit := by
    simpa [parseStage, state] using stage
  have lagsIff (lines : List Bytes) (rest : Bytes) (request : HttpRequest)
      (here : HeaderAt loop.parser.buffer loop.pos lines rest)
      (present : loop.parser.request = some request) :
      exit.parser.state ≠ .headers ∧ exit.result.state = .headers ∧
      (Lags (lines.foldl HttpRequest.withHeaderLine request) rest ↔
        exit.parser.state = .error ∨ loop.parser.buffer.drop exit.pos = [] ∧
          exit.parser.state ≠ .complete) := by
    rcases here.ended state present isHeaders with ⟨remains, ended⟩
    rw [remains]
    exact ⟨ended.state_ne_headers, ended.resultState, ended.lags_iff rest⟩
  cases headersExit state isHeaders with
  | waits told ok waiting unended =>
      refine iff_of_true (told.tells_of_waiting invariant active stage returns ok (.inr waiting)
        unended) fun lines rest request here present _ => ?_
      exact (lagsIff lines rest request here present).1 waiting
  | refuses told failed =>
      cases returns.unique (returns_of_leave (pass_of_failure active stage failed))
      have tells := told.tells_of_failure failed
      refine iff_of_true tells fun lines rest request here present _ => ?_
      rcases lagsIff lines rest request here present with ⟨left, lags, -⟩
      exact left (tells.state.symm.trans lags)
  | @ends lines rest request here present =>
      rcases here.ended state present isHeaders with ⟨-, ended⟩
      rw [ended.tells_iff invariant active stage returns, ended.lags_iff]
      constructor
      · intro agrees lines rest request here present lags
        exact agrees ((lagsIff lines rest request here present).2.2.mp lags)
      · intro never lags
        exact never lines rest request here present
          ((lagsIff lines rest request here present).2.2.mpr lags)

/-! ## The request line -/

theorem HeaderAt.of_drop {text : Bytes} (same : data.drop pos = text) :
    HeaderAt data pos lines rest ↔ HeaderAt text 0 lines rest :=
  ⟨fun here => ⟨same ▸ here.text, here.free, here.colons⟩,
    fun here => ⟨same.trans here.text, here.free, here.colons⟩⟩

/-- After the request line the header stage decides, if a byte follows. -/
theorem ReadsLine.tells_iff {parts : Method × Bytes × Version} {text : Bytes}
    (reads : ReadsLine loop.parser loop.parser.buffer exit parts text)
    (told : Told loop.parser exit) (invariant : loop.parser.Invariant) (active : Active loop)
    (stage : parseStage loop = .ok exit)
    (returns : Returns parsePass loop (.ok (result, after))) :
    TellsTruth result after ↔ ∀ lines rest request, HeaderAt text 0 lines rest →
      loop.parser.request = some request →
        ¬Lags (lines.foldl HttpRequest.withHeaderLine (request.withRequestLine parts)) rest := by
  have spec := parseStage_spec invariant active
  rw [stage] at spec
  have buffer : (loop.goOn exit).parser.buffer = loop.parser.buffer := spec.buffer
  have remains : (loop.goOn exit).parser.buffer.drop (loop.goOn exit).pos = text := by
    rw [buffer]
    exact reads.remains
  have nextActive := active_goOn_iff invariant active stage
  rw [returns_again_iff (pass_of_success active stage reads.success)] at returns
  rcases reads.request with ⟨old, present, read⟩
  by_cases more : text = []
  · subst more
    refine iff_of_true ((told.inStep reads.success).tells ?_ returns) ?_
    · exact fun stays => (nextActive.mp stays).1 reads.remains
    · intro lines rest request here
      have empty := here.text
      simp [headerText] at empty
  · have stays : Active (loop.goOn exit) :=
      nextActive.mpr ⟨by rwa [reads.remains], by simp [reads.state], by simp [reads.state]⟩
    rw [tells_iff_of_headers spec.invariant_advance reads.state stays returns]
    simp only [HeaderAt.of_drop remains]
    constructor
    · intro never lines rest request here isOld
      rw [present] at isOld
      cases isOld
      exact never lines rest _ here read
    · intro never lines rest request here isNew
      have same : request = old.withRequestLine parts := by
        have both := isNew.symm.trans read
        simpa using both
      rw [same]
      exact never lines rest old here present

/-- From the request line on, the result agrees unless a header that makes it lag behind is
there. -/
theorem tells_iff_of_startLine (invariant : loop.parser.Invariant)
    (state : loop.parser.state = .startLine) (active : Active loop)
    (returns : Returns parsePass loop (.ok (result, after))) :
    TellsTruth result after ↔ ∀ line parts text lines rest request,
      loop.parser.buffer.drop loop.pos = line ++ cr :: lf :: text → CRLFFree line →
      requestLineOf line = some parts → HeaderAt text 0 lines rest →
      loop.parser.request = some request →
        ¬Lags (lines.foldl HttpRequest.withHeaderLine (request.withRequestLine parts)) rest := by
  rcases exists_exit active returns with ⟨exit, stage⟩
  have isStartLine : loop.parser.parseStartLine loop.parser.buffer loop.pos = .ok exit := by
    simpa [parseStage, state] using stage
  have told := parseStartLine_told state isStartLine
  generalize unread : loop.parser.buffer.drop loop.pos = text
  cases Delimiter.begins cr_ne_lf text with
  | unended free =>
      rw [← unread] at free
      have waits :
          exit.result.success = true ∧ exit.parser = loop.parser ∧ exit.pos = loop.pos := by
        rw [parseStartLine, findCRLF_of_free free] at isStartLine
        cases isStartLine
        exact ⟨rfl, rfl, rfl⟩
      rcases waits with ⟨ok, sameParser, samePos⟩
      refine iff_of_true (told.tells_of_waiting invariant active stage returns ok
        (.inl (sameParser ▸ state)) (samePos ▸ free)) ?_
      intro line parts text lines rest request split
      exact absurd ⟨line, text, by simp [unread, split]⟩ free
  | @line line rest free =>
      have outcome := parseStartLine_line free unread isStartLine
      cases accepted : requestLineOf line with
      | none =>
          rw [accepted] at outcome
          cases returns.unique (returns_of_leave (pass_of_failure active stage outcome))
          refine iff_of_true (told.tells_of_failure outcome) ?_
          intro other parts otherText lines rest request split otherFree otherAccepted
          rw [← (Delimiter.line_unique cr_ne_lf free otherFree split).1, accepted] at otherAccepted
          cases otherAccepted
      | some parts =>
          rw [accepted] at outcome
          rw [outcome.tells_iff told invariant active stage returns]
          constructor
          · intro never other otherParts otherText lines rest request split otherFree
              otherAccepted here present
            rcases Delimiter.line_unique cr_ne_lf free otherFree split with ⟨rfl, rfl⟩
            rw [accepted] at otherAccepted
            cases otherAccepted
            exact never lines rest request here present
          · intro never lines rest request here present
            exact never line parts _ lines rest request rfl free accepted here present

/-! ## Calls -/

/-- The bytes of a call end the header of the request: with the lines that were missing its table is
`table`, and `rest` follows the empty line. -/
inductive CompletesHeader (parser : HttpParser) : Bytes → HttpRequest → Bytes → Prop where
  | headerLines {lines : List Bytes} {request : HttpRequest} {rest : Bytes} :
      parser.state = .headers → parser.request = some request →
      (∀ line ∈ lines, CRLFFree line) → (∀ line ∈ lines, colon ∈ line) →
      CompletesHeader parser (headerText lines ++ rest)
        (lines.foldl HttpRequest.withHeaderLine request) rest
  | requestLine {line : Bytes} {parts : Method × Bytes × Version} {lines : List Bytes}
      {request : HttpRequest} {rest : Bytes} :
      parser.state = .startLine → parser.request = some request →
      CRLFFree line → requestLineOf line = some parts →
      (∀ line ∈ lines, CRLFFree line) → (∀ line ∈ lines, colon ∈ line) →
      CompletesHeader parser (line ++ crlf ++ (headerText lines ++ rest))
        (lines.foldl HttpRequest.withHeaderLine (request.withRequestLine parts)) rest

/-- A call whose result keeps up with the parser. -/
structure KeepsUp (parser : HttpParser) (data : Bytes) : Prop where
  alive : parser.state ≠ .error
  /-- Nothing has been counted, or the count has come back to zero. -/
  uncounted : parser.state = .complete → parser.totalBytesParsed = 0
  header : ∀ table rest, CompletesHeader parser data table rest → ¬Lags table rest

theorem keepsUp_of_body (inBody : parser.state = .body ∨ parser.state = .chunkedBody) :
    KeepsUp parser data := by
  refine ⟨?_, ?_, fun table rest completes => ?_⟩
  · rcases inBody with state | state <;> simp [state]
  · rcases inBody with state | state <;> simp [state]
  · cases completes <;> rcases inBody with other | other <;> simp_all

theorem enter_drop (settled : parser.Settled) (going : parser.state ≠ .complete)
    (alive : parser.state ≠ .error) :
    (enter parser data).parser.buffer.drop (enter parser data).pos = data := by
  simp [enter, settled going alive]

theorem keepsUp_iff_of_headers (state : parser.state = .headers) :
    KeepsUp parser data ↔ ∀ lines rest request, HeaderAt data 0 lines rest →
      parser.request = some request →
        ¬Lags (lines.foldl HttpRequest.withHeaderLine request) rest := by
  constructor
  · intro keepsUp lines rest request here present
    apply keepsUp.header
    have whole : data = headerText lines ++ rest := here.text
    rw [whole]
    exact .headerLines state present here.free here.colons
  · intro never
    refine ⟨by simp [state], by simp [state], fun table rest completes => ?_⟩
    cases completes with
    | requestLine other => simp [state] at other
    | @headerLines lines request rest _ present free colons =>
        exact never lines rest request ⟨rfl, free, colons⟩ present

theorem keepsUp_iff_of_startLine (state : parser.state = .startLine) :
    KeepsUp parser data ↔ ∀ line parts text lines rest request,
      data = line ++ cr :: lf :: text → CRLFFree line → requestLineOf line = some parts →
      HeaderAt text 0 lines rest → parser.request = some request →
        ¬Lags (lines.foldl HttpRequest.withHeaderLine (request.withRequestLine parts)) rest := by
  constructor
  · intro keepsUp line parts text lines rest request split free accepted here present
    apply keepsUp.header
    have whole : data = line ++ crlf ++ (headerText lines ++ rest) := by
      have equal := here.text
      rw [List.drop_zero] at equal
      simp [split, equal]
    rw [whole]
    exact .requestLine state present free accepted here.free here.colons
  · intro never
    refine ⟨by simp [state], by simp [state], fun table rest completes => ?_⟩
    cases completes with
    | headerLines other => simp [state] at other
    | @requestLine line parts lines request rest _ present free accepted linesFree colons =>
        exact never line parts _ lines rest request (by simp) free accepted
          ⟨rfl, linesFree, colons⟩ present

/-- A call on a parser that does not run a stage. -/
theorem tells_iff_of_inactive (inactive : ¬Active (enter parser data))
    (returns : Returns parsePass (enter parser data) (.ok (result, after))) :
    TellsTruth result after ↔ parser.state = .complete ∧ parser.totalBytesParsed = 0 := by
  rcases finish_of_returns inactive returns with ⟨isResult, isAfter⟩
  rcases finish_keeps (enter parser data) with ⟨state, total⟩
  rw [← isAfter] at state total
  rw [finish_result] at isResult
  by_cases complete : parser.state = .complete
  · rw [if_pos (show (enter parser data).parser.state = _ from complete)] at isResult
    have isComplete : after.state = .complete := state.trans complete
    constructor
    · intro tells
      refine ⟨complete, ?_⟩
      have counted := tells.bytesParsed
      rw [isResult, total] at counted
      exact counted.symm
    · intro zero
      rw [isResult]
      exact ⟨isComplete.symm, by simp [isComplete], (total.trans zero.2).symm⟩
  · rw [if_neg (show (enter parser data).parser.state ≠ _ from complete)] at isResult
    refine iff_of_false (fun tells => ?_) fun zero => complete zero.1
    have same := tells.state
    have failed := tells.success
    rw [isResult] at same failed
    rw [← same] at failed
    simp [enter] at failed

/-- **Whether `ParseResult` tells the truth.**  After a call with data that returns, the result
agrees with the parser exactly if the parser was not in `ERROR`, nor in `COMPLETE` with bytes
counted, and the bytes of the call do not end a header that is refused for its `Content-Length` or
selects a body of which none of them is. -/
theorem tells_truth_iff (reachable : Reachable parser) (nonempty : data ≠ [])
    (parses : Parses parser data result after) :
    TellsTruth result after ↔ KeepsUp parser data := by
  rcases reachable.invariant with ⟨invariant, settled⟩
  have returns := (parses_iff_returns nonempty).mp parses
  have entered : (enter parser data).parser.Invariant := invariant.enter data
  cases state : parser.state with
  | startLine =>
      have going : parser.state ≠ .complete := by simp [state]
      have alive : parser.state ≠ .error := by simp [state]
      have active := active_enter nonempty going alive
      rw [tells_iff_of_startLine entered state active returns, enter_drop settled going alive,
        keepsUp_iff_of_startLine state]
      rfl
  | headers =>
      have going : parser.state ≠ .complete := by simp [state]
      have alive : parser.state ≠ .error := by simp [state]
      have active := active_enter nonempty going alive
      rw [tells_iff_of_headers entered state active returns, keepsUp_iff_of_headers state]
      simp only [HeaderAt.of_drop (enter_drop settled going alive)]
      rfl
  | body =>
      have active : Active (enter parser data) :=
        active_enter nonempty (by simp [state]) (by simp [state])
      exact iff_of_true (tells_of_body (.inl state) active returns) (keepsUp_of_body (.inl state))
  | chunkedBody =>
      have active : Active (enter parser data) :=
        active_enter nonempty (by simp [state]) (by simp [state])
      exact iff_of_true (tells_of_body (.inr state) active returns) (keepsUp_of_body (.inr state))
  | complete =>
      rw [tells_iff_of_inactive (fun active => active.2.1 state) returns]
      constructor
      · intro zero
        refine ⟨by simp [state], fun _ => zero.2, fun table rest completes => ?_⟩
        cases completes <;> simp_all
      · intro keepsUp
        exact ⟨state, keepsUp.uncounted state⟩
  | error =>
      rw [tells_iff_of_inactive (fun active => active.2.2 state) returns]
      exact iff_of_false (by simp [state]) fun keepsUp => keepsUp.alive state

theorem tells_truth_iff_get :
    ∃ result after, Parses {} (bytes "GET /a HTTP/1.1\r\nHost: b\r\n\r\n") result after ∧
      (TellsTruth result after ↔ KeepsUp {} (bytes "GET /a HTTP/1.1\r\nHost: b\r\n\r\n")) := by
  have returned :
      (parseOutcome 4 {} (bytes "GET /a HTTP/1.1\r\nHost: b\r\n\r\n")).isSome := by decide
  exact ⟨_, _, parses_get 4 returned, tells_truth_iff .fresh (by decide) (parses_get 4 returned)⟩

/-- After a header that announces a body the result says `HEADERS`, and the parser is in `BODY`. -/
theorem lags_behind_contentLength :
    ∃ result after, Parses {} (bytes "PUT /a HTTP/1.1\r\nContent-Length: 3\r\n\r\n") result after ∧
      result.state = .headers ∧ after.state = .body ∧ ¬TellsTruth result after := by
  refine ⟨_, _, parses_get 4 (by decide), by decide, by decide, fun tells => ?_⟩
  exact absurd tells.state (by decide)

end PPServer.Http.HttpParser
