import PPServer.Http.HeaderLines
import PPServer.Http.Lengths

/-!
# What the stages report

Each stage fills in a `ParseResult` before or after it changes the state.  In most cases the result
agrees with the state it leaves (`Told`).  The header stage does not touch the result once it has
come to the empty line, so its result says `HEADERS` wherever the end of the header leads
(`Ended`).
-/

namespace PPServer.Http.HttpParser

open Loop

variable {parser next : HttpParser} {data rest : Bytes} {pos : Nat} {lines : List Bytes}
variable {result : ParseResult} {request : HttpRequest} {exit : StageExit}

/-- What a stage returns that does not lag behind. -/
structure Told (parser : HttpParser) (exit : StageExit) : Prop where
  total : exit.parser.totalBytesParsed = parser.totalBytesParsed
  bytesParsed : exit.result.bytesParsed = parser.totalBytesParsed
  success : exit.result.success = true ↔ exit.parser.state ≠ .error
  state : exit.result.state = exit.parser.state ∨ exit.parser.state = .complete

theorem parseStartLine_told (state : parser.state = .startLine)
    (stage : parser.parseStartLine data pos = .ok exit) : Told parser exit := by
  unfold parseStartLine at stage
  split at stage
  next => cases stage; exact ⟨rfl, rfl, by simp [state], .inl rfl⟩
  next =>
      dsimp only at stage
      split at stage
      next => cases stage; exact ⟨rfl, rfl, by simp [handleError], .inl rfl⟩
      next =>
          split at stage
          next => cases stage; exact ⟨rfl, rfl, by simp [handleError], .inl rfl⟩
          next =>
              split at stage
              next => cases stage; exact ⟨rfl, rfl, by simp [handleError], .inl rfl⟩
              next =>
                  split at stage <;> cases stage
                  exact ⟨rfl, rfl, by simp [transitionTo], .inl rfl⟩

theorem parseBody_told (state : parser.state = .body)
    (stage : parser.parseBody data pos = .ok exit) :
    Told parser exit ∧ (exit.result.success = true → exit.result.state = .body) := by
  simp only [parseBody] at stage
  split at stage
  next => cases stage
  next =>
      split at stage <;> cases stage
      · exact ⟨⟨rfl, rfl, by simp [transitionTo], .inr rfl⟩, fun _ => state⟩
      · exact ⟨⟨rfl, rfl, by simp [state], .inl rfl⟩, fun _ => state⟩

theorem parseChunkedBody_told (state : parser.state = .chunkedBody)
    (stage : parser.parseChunkedBody data pos = .ok exit) :
    Told parser exit ∧ (exit.result.success = true → exit.result.state = .chunkedBody) := by
  refine total_induction (chunkedPass_decreases _ _)
    (fun loop outcome => loop.1.state = .chunkedBody →
      loop.1.totalBytesParsed = parser.totalBytesParsed → outcome = .ok exit →
        Told parser exit ∧ (exit.result.success = true → exit.result.state = .chunkedBody))
    ?_ ?_ _ state rfl stage
  · rintro ⟨current, pos⟩ outcome leaves inChunks total rfl
    dsimp only at inChunks total
    have waits : Told parser ⟨⟨true, parser.state, parser.totalBytesParsed, []⟩, current, pos⟩ :=
      ⟨total, rfl, by simp [inChunks], .inl (state.trans inChunks.symm)⟩
    simp only [chunkedPass] at leaves
    split at leaves
    next =>
        split at leaves
        next =>
            split at leaves
            next => cases leaves; exact ⟨waits, fun _ => state⟩
            next =>
                split at leaves
                next =>
                    split at leaves <;> cases leaves
                    exact ⟨⟨total, rfl, by simp [transitionTo], .inr rfl⟩, fun _ => state⟩
                next =>
                    cases leaves
                    exact ⟨⟨total, total, by simp [handleError], .inl rfl⟩, fun ok => by cases ok⟩
        next => split at leaves <;> (try split at leaves) <;> (try split at leaves) <;> cases leaves
    next => cases leaves; exact ⟨waits, fun _ => state⟩
  · rintro ⟨current, pos⟩ ⟨following, nextPos⟩ outcome step carried inChunks total isExit
    have kept : following.state = current.state ∧
        following.totalBytesParsed = current.totalBytesParsed := by
      cases chunkStep_of_again step <;> exact ⟨rfl, rfl⟩
    exact carried (kept.1.trans inChunks) (kept.2.trans total) isExit

/-! ### The header stage -/

theorem endHeaders_eq (present : parser.request = some request) :
    parser.endHeaders result pos =
      match request.framing with
      | .none => .ok ⟨result, parser.transitionTo .complete, pos⟩
      | .length size =>
          .ok ⟨result, { parser with contentLength := size }.transitionTo .body, pos⟩
      | .chunked =>
          .ok ⟨result, { parser with chunkedEncoding := true }.transitionTo .chunkedBody, pos⟩
      | .invalid =>
          .ok ⟨{ result with success := false, errorMessage := bytes "Invalid Content-Length" },
            parser.handleError (bytes "Invalid Content-Length header"), pos⟩ := by
  simp only [endHeaders, present, HttpRequest.framing]
  split
  next => cases stoul (request.getHeader (bytes "Content-Length")) 10 <;> rfl
  next => split <;> rfl

/-- Header lines and the empty line after them stand at a position, and then `rest`. -/
structure HeaderAt (data : Bytes) (pos : Nat) (lines : List Bytes) (rest : Bytes) : Prop where
  text : data.drop pos = headerText lines ++ rest
  free : ∀ line ∈ lines, CRLFFree line
  colons : ∀ line ∈ lines, colon ∈ line

/-- The parser with the header lines in its table. -/
def withLines (parser : HttpParser) (request : HttpRequest) (lines : List Bytes) : HttpParser :=
  { parser with request := some (lines.foldl HttpRequest.withHeaderLine request) }

theorem withLines_nil (present : parser.request = some request) :
    parser.withLines request [] = parser := by
  rw [withLines, List.foldl_nil, ← present]

theorem inside_of_line {line : Bytes} (text : data.drop pos = line ++ cr :: lf :: rest) :
    pos < data.length := by
  have length := congrArg List.length text
  simp at length
  omega

/-- A pass over a header line. -/
theorem headersPass_line {line : Bytes} (free : CRLFFree line) (member : colon ∈ line)
    (text : data.drop pos = line ++ cr :: lf :: rest) (present : parser.request = some request) :
    headersPass data result (parser, pos) =
      .again ({ parser with request := some (request.withHeaderLine line) },
        pos + line.length + 2) := by
  have nonempty : pos + line.length ≠ pos := by
    have positive := List.length_pos_of_mem member
    omega
  have whole := take_line text
  simp only [headersPass, if_pos (inside_of_line text), findCRLF_of_line free text, if_neg nonempty,
    whole, Separator.findIdx?_eq, if_pos member, present, Separator.take_length_before,
    Separator.drop_length_before, HttpRequest.withHeaderLine_of_mem member]
  rfl

/-- The loop reads all header lines and comes to the empty line. -/
theorem total_headersPass (here : HeaderAt data pos lines rest)
    (present : parser.request = some request) :
    total (headersPass data result) _ (headersPass_decreases data result) (parser, pos) =
      (parser.withLines request lines).endHeaders result (pos + (headerText lines).length) := by
  induction lines generalizing parser request pos with
  | nil =>
      have text : data.drop pos = [] ++ cr :: lf :: rest := by simpa [headerText] using here.text
      rw [withLines_nil present]
      apply total_of_leave
      simp only [headersPass, if_pos (inside_of_line text),
        findCRLF_of_line Delimiter.free_nil text]
      simp [headerText]
  | cons line lines ih =>
      rcases here with ⟨text, free, colons⟩
      rw [List.forall_mem_cons] at free colons
      have atLine : data.drop pos = line ++ cr :: lf :: (headerText lines ++ rest) := by
        simpa [headerText] using text
      rw [total_of_again (headersPass_line free.1 colons.1 atLine present)]
      rw [ih ⟨drop_after_line atLine, free.2, colons.2⟩ rfl]
      congr 1
      simp [headerText]
      omega

/-- What the header stage can return: it waits for the end of a line, it refuses a line without
colon, or it has come to the empty line. -/
inductive HeadersExit (parser : HttpParser) (data : Bytes) (pos : Nat) (exit : StageExit) :
    Prop where
  | waits : Told parser exit → exit.result.success = true → exit.parser.state = .headers →
      CRLFFree (data.drop exit.pos) → HeadersExit parser data pos exit
  | refuses : Told parser exit → exit.result.success = false → HeadersExit parser data pos exit
  | ends {lines : List Bytes} {rest : Bytes} {request : HttpRequest} :
      HeaderAt data pos lines rest → parser.request = some request →
      HeadersExit parser data pos exit

theorem headersPass_leave_exit (state : parser.state = .headers)
    (leaves : headersPass data ⟨true, parser.state, parser.totalBytesParsed, []⟩ (parser, pos) =
      .leave (.ok exit)) : HeadersExit parser data pos exit := by
  have waits (free : CRLFFree (data.drop pos)) : HeadersExit parser data pos
      ⟨⟨true, parser.state, parser.totalBytesParsed, []⟩, parser, pos⟩ :=
    .waits ⟨rfl, rfl, by simp [state], .inl rfl⟩ rfl state free
  simp only [headersPass] at leaves
  split at leaves
  next =>
      split at leaves
      next absent => cases leaves; exact waits (free_of_findCRLF absent)
      next lineEnd found =>
          split at leaves
          next empty =>
              subst empty
              simp only [Pass.leave.injEq] at leaves
              rcases line_of_findCRLF found with ⟨text, -⟩
              cases present : parser.request with
              | none => simp [endHeaders, present] at leaves
              | some request =>
                  have here : HeaderAt data lineEnd [] (data.drop (lineEnd + 2)) :=
                    ⟨by simpa [headerText] using text, by simp, by simp⟩
                  exact .ends here present
          next =>
              split at leaves
              next =>
                  cases leaves
                  exact .refuses ⟨rfl, rfl, by simp [handleError], .inl rfl⟩ rfl
              next => split at leaves <;> cases leaves
  next read =>
      cases leaves
      rw [List.drop_eq_nil_of_le (Nat.le_of_not_lt read)] at waits
      exact waits Delimiter.free_nil

/-- A header line that was read is put in front. -/
theorem HeadersExit.of_line {nextPos : Nat} (step : HeaderStep data parser pos next nextPos)
    (isExit : HeadersExit next data nextPos exit) : HeadersExit parser data pos exit := by
  cases step with
  | @line lineEnd colonPos request unread found nonempty hasColon present =>
      cases isExit with
      | waits told success state unended =>
          have waiting : Told parser exit :=
            ⟨told.total, told.bytesParsed, told.success, told.state⟩
          exact .waits waiting success state unended
      | refuses told failed =>
          exact .refuses ⟨told.total, told.bytesParsed, told.success, told.state⟩ failed
      | @ends lines rest read here =>
          rcases line_of_findCRLF found with ⟨text, free⟩
          have member : colon ∈ (data.drop pos).take (lineEnd - pos) := by
            rw [Separator.findIdx?_eq] at hasColon
            exact (Option.ite_none_right_eq_some.mp hasColon).1
          have whole : HeaderAt data pos ((data.drop pos).take (lineEnd - pos) :: lines) rest :=
            { text := by
                rw [here.text] at text
                simpa [headerText] using text
              free := List.forall_mem_cons.mpr ⟨free, here.free⟩
              colons := List.forall_mem_cons.mpr ⟨member, here.colons⟩ }
          exact .ends whole present

theorem headersExit (state : parser.state = .headers)
    (stage : parser.parseHeaders data pos = .ok exit) : HeadersExit parser data pos exit := by
  refine total_induction (headersPass_decreases _ _)
    (fun loop outcome => loop.1.state = .headers →
      loop.1.totalBytesParsed = parser.totalBytesParsed → outcome = .ok exit →
        HeadersExit loop.1 data loop.2 exit) ?_ ?_ _ state rfl stage
  · rintro ⟨current, pos⟩ outcome leaves inHeaders total rfl
    rw [state, ← inHeaders, ← total] at leaves
    exact headersPass_leave_exit inHeaders leaves
  · rintro ⟨current, pos⟩ ⟨following, nextPos⟩ outcome step carried inHeaders total isExit
    have headerStep := headerStep_of_again step
    have kept : following.state = current.state ∧
        following.totalBytesParsed = current.totalBytesParsed := by
      cases headerStep
      exact ⟨rfl, rfl⟩
    exact (carried (kept.1.trans inHeaders) (kept.2.trans total) isExit).of_line headerStep

/-- Where the end of a header with this framing leads. -/
def nextState : Framing → ParseState
  | .none => .complete
  | .length _ => .body
  | .chunked => .chunkedBody
  | .invalid => .error

/-- The stage has come to the end of a header with this framing, but its result still says
`HEADERS`. -/
structure Ended (parser : HttpParser) (exit : StageExit) (framing : Framing) : Prop where
  total : exit.parser.totalBytesParsed = parser.totalBytesParsed
  bytesParsed : exit.result.bytesParsed = parser.totalBytesParsed
  success : exit.result.success = true ↔ exit.parser.state ≠ .error
  resultState : exit.result.state = .headers
  state : exit.parser.state = nextState framing

theorem Ended.state_ne_headers {framing : Framing} (ended : Ended parser exit framing) :
    exit.parser.state ≠ .headers := by
  rw [ended.state]
  cases framing <;> simp [nextState]

theorem HeaderAt.ended (here : HeaderAt data pos lines rest) (state : parser.state = .headers)
    (present : parser.request = some request)
    (stage : parser.parseHeaders data pos = .ok exit) :
    data.drop exit.pos = rest ∧
      Ended parser exit (lines.foldl HttpRequest.withHeaderLine request).framing := by
  rw [parseHeaders, total_headersPass here present, endHeaders_eq rfl] at stage
  have remains : data.drop (pos + (headerText lines).length) = rest := by
    rw [← List.drop_drop, here.text, List.drop_left]
  cases framing : (lines.foldl HttpRequest.withHeaderLine request).framing <;>
    rw [framing] at stage <;> cases stage <;> refine ⟨remains, rfl, rfl, ?_, state, rfl⟩ <;>
    simp [transitionTo, handleError]

/-! ### The request line -/

/-- The stage has read an accepted request line. -/
structure ReadsLine (parser : HttpParser) (data : Bytes) (exit : StageExit)
    (parts : Method × Bytes × Version) (rest : Bytes) : Prop where
  remains : data.drop exit.pos = rest
  success : exit.result.success = true
  state : exit.parser.state = .headers
  request : ∃ request, parser.request = some request ∧
    exit.parser.request = some (request.withRequestLine parts)

theorem parseStartLine_line {line : Bytes} (free : CRLFFree line)
    (text : data.drop pos = line ++ cr :: lf :: rest)
    (stage : parser.parseStartLine data pos = .ok exit) :
    match requestLineOf line with
    | none => exit.result.success = false
    | some parts => ReadsLine parser data exit parts rest := by
  have whole := take_line text
  have remains := drop_after_line text
  simp only [parseStartLine, findCRLF_of_line free text, whole] at stage
  rw [requestLineOf]
  cases extracted : extractRequestLine line with
  | none =>
      rw [extracted] at stage
      cases stage
      rfl
  | some words =>
      rcases words with ⟨method, path, version⟩
      rw [extracted] at stage
      dsimp only at stage ⊢
      split at stage
      next unsupported =>
          cases stage
          rw [if_neg (by simp_all)]
      next validMethod =>
          split at stage
          next unsupported =>
              cases stage
              rw [if_neg (by simp_all)]
          next validVersion =>
              rw [if_pos (by simp_all)]
              split at stage
              next => cases stage
              next request present =>
                  cases stage
                  exact ⟨remains, rfl, rfl, request, present, rfl⟩

end PPServer.Http.HttpParser
