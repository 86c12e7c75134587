import PPServer.Http.Reader

/-!
# The stage functions follow the reader

`HttpParser.reader` is the reader that has read everything the parser has consumed.
What the unread bytes will make of it when the call is over is the `verdict` of a
position in the buffer.  Each stage function moves the position and the parser
without changing the verdict; `StageSpec` also records what the outer loop needs to
know about the progress made.
-/

namespace PPServer.Http

open Loop

namespace HttpParser

/-- The reader that has read what the parser has consumed. -/
def reader (parser : HttpParser) : Reader where
  phase :=
    match parser.state with
    | .startLine => .line .request []
    | .headers => .line .header []
    | .body => .body (parser.contentLength - (parser.request.map (·.body.length)).getD 0)
    | .chunkedBody =>
        if parser.chunkSizeParsed then .chunkData parser.currentChunkSize
        else .line (.chunkSize false) []
    | .complete => .complete []
    | .error => .failed
  request := parser.request
  chunked := parser.chunkedEncoding

/-- What holds of the members of a parser whenever a stage function runs. -/
structure Invariant (parser : HttpParser) : Prop where
  /-- `content_length_ - body.size()` does not wrap. -/
  body : parser.state = .body → ∀ request, parser.request = some request →
    request.body.length ≤ parser.contentLength
  fits : parser.contentLength < sizeModulus
  head : parser.state = .startLine ∨ parser.state = .headers →
    parser.chunkSizeParsed = false ∧
      ∀ request, parser.request = some request → request.body = []
  chunk : parser.state = .chunkedBody →
    parser.chunkedEncoding = true ∧
      (parser.chunkSizeParsed = true → 0 < parser.currentChunkSize)
  counted : parser.totalBytesParsed < sizeModulus

/-- The reader at the end of the call, if `data` is the buffer and the bytes from
`pos` on are unread. -/
def verdict (parser : HttpParser) (data : Bytes) (pos : Nat) : Reader :=
  parser.reader.feed (data.drop pos)

/-- A line is to be read, and the unread bytes do not contain its end. -/
def Stuck (parser : HttpParser) (data : Bytes) (pos : Nat) : Prop :=
  ∃ kind, parser.reader.phase = .line kind [] ∧ CRLFFree (data.drop pos)

/-- What the return of a stage function called with `data` and `pos` says. -/
structure Advances (parser : HttpParser) (data : Bytes) (pos : Nat) (exit : StageExit) :
    Prop where
  buffer : exit.parser.buffer = parser.buffer
  total : exit.parser.totalBytesParsed = parser.totalBytesParsed
  invariant : exit.parser.Invariant
  verdict : exit.parser.verdict data exit.pos = parser.verdict data pos
  forward : pos ≤ exit.pos
  inside : exit.pos ≤ data.length
  success : exit.result.success = true ↔ exit.parser.state ≠ .error
  progress : exit.result.success = true →
    pos < exit.pos ∨ exit.parser.state = .complete ∨
      (exit.parser = parser ∧ exit.pos = pos ∧ (pos < data.length → parser.Stuck data pos))

def StageSpec (parser : HttpParser) (data : Bytes) (pos : Nat) :
    Except Fault StageExit → Prop
  | .error _ => (parser.verdict data pos).phase = .fault
  | .ok exit => Advances parser data pos exit

variable {parser next : HttpParser} {data : Bytes} {pos lineEnd : Nat}
variable {result : ParseResult} {request : HttpRequest}

/-! ## Lines at a position -/

theorem drop_after_line {line rest : Bytes} (text : data.drop pos = line ++ cr :: lf :: rest) :
    data.drop (pos + line.length + 2) = rest := by
  have split : line ++ cr :: lf :: rest = (line ++ [cr, lf]) ++ rest := by simp
  have length : line.length + 2 = (line ++ [cr, lf]).length := by simp
  rw [Nat.add_assoc, ← List.drop_drop, text, split, length, List.drop_left]

theorem take_line {line rest : Bytes} (text : data.drop pos = line ++ rest) :
    (data.drop pos).take (pos + line.length - pos) = line := by
  rw [text, Nat.add_sub_cancel_left, List.take_left]

theorem line_of_findCRLF (found : findCRLF data pos = some lineEnd) :
    data.drop pos =
        (data.drop pos).take (lineEnd - pos) ++ cr :: lf :: data.drop (lineEnd + 2) ∧
      CRLFFree ((data.drop pos).take (lineEnd - pos)) := by
  rw [findCRLF_eq, Option.map_eq_some_iff] at found
  rcases found with ⟨⟨line, rest⟩, division, rfl⟩
  rcases (Delimiter.cut_eq_some_iff cr_ne_lf).mp division with ⟨equal, free⟩
  rw [take_line equal, drop_after_line equal]
  exact ⟨equal, free⟩

theorem findCRLF_of_line {line rest : Bytes} (free : CRLFFree line)
    (text : data.drop pos = line ++ cr :: lf :: rest) :
    findCRLF data pos = some (pos + line.length) := by
  rw [findCRLF_eq, (Delimiter.cut_eq_some_iff cr_ne_lf).mpr ⟨text, free⟩]
  rfl

theorem free_of_findCRLF (absent : findCRLF data pos = none) : CRLFFree (data.drop pos) := by
  rw [findCRLF_eq, Option.map_eq_none_iff] at absent
  exact Delimiter.cut_eq_none_iff.mp absent

/-- The line at a position decides how the verdict goes on. -/
theorem verdict_line {kind : LineKind} (phase : parser.reader.phase = .line kind [])
    (found : findCRLF data pos = some lineEnd) :
    parser.verdict data pos =
      (parser.reader.endLine kind ((data.drop pos).take (lineEnd - pos))).feed
        (data.drop (lineEnd + 2)) := by
  rcases line_of_findCRLF found with ⟨equal, free⟩
  rw [verdict, Reader.feed, equal, Reader.readAll_line_append phase free, ← equal]
  rfl

/-- The line at a position is empty only if its end is at the position. -/
theorem line_eq_nil_iff (found : findCRLF data pos = some lineEnd) :
    (data.drop pos).take (lineEnd - pos) = [] ↔ lineEnd = pos := by
  have bounds := findCRLF_bounds found
  rw [← List.length_eq_zero_iff, List.length_take, List.length_drop]
  omega

/-- A stage that stops for want of a line end. -/
theorem Advances.stuck {kind : LineKind} (invariant : parser.Invariant)
    (phase : parser.reader.phase = .line kind []) (alive : parser.state ≠ .error)
    (inside : pos ≤ data.length) (absent : findCRLF data pos = none)
    (success : result.success = true) : Advances parser data pos ⟨result, parser, pos⟩ where
  buffer := rfl
  total := rfl
  invariant := invariant
  verdict := rfl
  forward := Nat.le_refl _
  inside := inside
  success := iff_of_true success alive
  progress := fun _ => .inr (.inr ⟨rfl, rfl, fun _ => ⟨kind, phase, free_of_findCRLF absent⟩⟩)

/-- A stage that finds nothing unread. -/
theorem Advances.done (invariant : parser.Invariant) (alive : parser.state ≠ .error)
    (inside : pos ≤ data.length) (read : ¬pos < data.length) (success : result.success = true) :
    Advances parser data pos ⟨result, parser, pos⟩ where
  buffer := rfl
  total := rfl
  invariant := invariant
  verdict := rfl
  forward := Nat.le_refl _
  inside := inside
  success := iff_of_true success alive
  progress := fun _ => .inr (.inr ⟨rfl, rfl, fun unread => absurd unread read⟩)

/-- A stage that has read a whole line. -/
theorem Advances.of_line {kind : LineKind} (phase : parser.reader.phase = .line kind [])
    (found : findCRLF data pos = some lineEnd)
    (follows : next.reader =
      parser.reader.endLine kind ((data.drop pos).take (lineEnd - pos)))
    (buffer : next.buffer = parser.buffer)
    (total : next.totalBytesParsed = parser.totalBytesParsed) (invariant : next.Invariant)
    (success : result.success = true ↔ next.state ≠ .error) :
    Advances parser data pos ⟨result, next, lineEnd + 2⟩ where
  buffer := buffer
  total := total
  invariant := invariant
  verdict := by rw [verdict_line phase found, ← follows]; rfl
  forward := by have := findCRLF_bounds found; dsimp only; omega
  inside := (findCRLF_bounds found).2
  success := success
  progress := fun _ => .inl (by have := findCRLF_bounds found; dsimp only; omega)

/-- A stage whose line needs the request that is missing. -/
theorem StageSpec.fault_of_line {kind : LineKind}
    (phase : parser.reader.phase = .line kind [])
    (found : findCRLF data pos = some lineEnd)
    (faults : (parser.reader.endLine kind ((data.drop pos).take (lineEnd - pos))).phase =
      .fault) (fault : Fault) : StageSpec parser data pos (.error fault) := by
  rw [StageSpec, verdict_line phase found, Reader.feed, Reader.readAll_fault faults,
    Reader.settle_phase_fault]
  exact faults

/-- A stage that has body data to store and no request to store it in. -/
theorem StageSpec.fault_of_missing
    (needed : (∃ missing, parser.reader.phase = .body missing) ∨
      ∃ missing, parser.reader.phase = .chunkData missing)
    (absent : parser.request = none) (unread : pos < data.length) (fault : Fault) :
    StageSpec parser data pos (.error fault) := by
  have nonempty : data.drop pos ≠ [] := mt List.drop_eq_nil_iff.mp (Nat.not_le.mpr unread)
  rw [StageSpec, verdict, Reader.feed, Reader.settle_phase_fault]
  exact Reader.readAll_missing needed absent nonempty

/-- A pass of an inner loop that moves the position on can be put in front. -/
theorem StageSpec.after {nextPos : Nat} {outcome : Except Fault StageExit}
    (spec : StageSpec next data nextPos outcome) (buffer : next.buffer = parser.buffer)
    (total : next.totalBytesParsed = parser.totalBytesParsed)
    (verdict : next.verdict data nextPos = parser.verdict data pos)
    (further : pos < nextPos) : StageSpec parser data pos outcome := by
  cases outcome with
  | error fault =>
      rw [StageSpec] at spec ⊢
      rw [← verdict, spec]
  | ok exit =>
      exact
        { buffer := spec.buffer.trans buffer
          total := spec.total.trans total
          invariant := spec.invariant
          verdict := spec.verdict.trans verdict
          forward := Nat.le_trans (Nat.le_of_lt further) spec.forward
          inside := spec.inside
          success := spec.success
          progress := fun _ => .inl (Nat.lt_of_lt_of_le further spec.forward) }

/-! ## Keeping the invariant -/

theorem Invariant.handleError (invariant : parser.Invariant) (message : Bytes) :
    (parser.handleError message).Invariant where
  body := by simp [HttpParser.handleError]
  fits := invariant.fits
  head := by simp [HttpParser.handleError]
  chunk := by simp [HttpParser.handleError]
  counted := invariant.counted

/-- In `COMPLETE` only the two bounds are left to be kept. -/
theorem Invariant.complete (invariant : parser.Invariant)
    (state : next.state = .complete) (length : next.contentLength = parser.contentLength)
    (total : next.totalBytesParsed = parser.totalBytesParsed) : next.Invariant where
  body := by simp [state]
  fits := length ▸ invariant.fits
  head := by simp [state]
  chunk := by simp [state]
  counted := total ▸ invariant.counted

@[simp] theorem reader_handleError (parser : HttpParser) (message : Bytes) :
    (parser.handleError message).reader = { parser.reader with phase := .failed } := rfl

/-! ## `ParseStartLine` -/

theorem parseStartLine_spec (invariant : parser.Invariant)
    (state : parser.state = .startLine) (inside : pos ≤ data.length) :
    StageSpec parser data pos (parser.parseStartLine data pos) := by
  have phase : parser.reader.phase = .line .request [] := by simp [reader, state]
  have alive : parser.state ≠ .error := by simp [state]
  unfold parseStartLine
  split
  next absent => exact .stuck invariant phase alive inside absent rfl
  next lineEnd found =>
      dsimp only
      -- Whatever is wrong with the line, the stage fails as the reader does.
      have rejected (result : ParseResult) (failure : result.success = false)
          (message : Bytes)
          (invalid : requestLineOf ((data.drop pos).take (lineEnd - pos)) = none) :
          Advances parser data pos ⟨result, parser.handleError message, lineEnd + 2⟩ := by
        refine .of_line phase found ?_ rfl rfl (invariant.handleError message) ?_
        · simp [Reader.endLine, invalid]
        · simp [failure, handleError]
      split
      next malformed => exact rejected _ rfl _ (by simp [requestLineOf, malformed])
      next method path version parts =>
          split
          next unsupported => exact rejected _ rfl _ (by
            simp_all [requestLineOf])
          next supported =>
              split
              next unsupported => exact rejected _ rfl _ (by
                simp_all [requestLineOf])
              next supportedVersion =>
                  have valid : requestLineOf ((data.drop pos).take (lineEnd - pos)) =
                      some (stringToMethod method, path, stringToVersion version) := by
                    simp_all [requestLineOf]
                  split
                  next missing =>
                      refine StageSpec.fault_of_line phase found ?_ _
                      simp [Reader.endLine, valid, reader, missing]
                  next request present =>
                      have head := invariant.head (.inl state)
                      refine Advances.of_line phase found ?_ rfl rfl ?_ ?_
                      · simp [Reader.endLine, valid, reader, present, transitionTo,
                          HttpRequest.withRequestLine]
                      · exact
                          { body := by simp [transitionTo]
                            fits := invariant.fits
                            head := fun _ => ⟨head.1, by
                              simpa [transitionTo] using head.2 request present⟩
                            chunk := by simp [transitionTo]
                            counted := invariant.counted }
                      · simp [transitionTo]

/-! ## `ParseHeaders` -/

theorem reader_headers (state : parser.state = .headers) :
    parser.reader = ⟨.line .header [], parser.request, parser.chunkedEncoding⟩ := by
  simp [reader, state]

/-- The empty line leaves the stage as the reader ends the header. -/
theorem endHeaders_spec (invariant : parser.Invariant) (state : parser.state = .headers)
    (success : result.success = true) (found : findCRLF data pos = some lineEnd)
    (empty : lineEnd = pos) :
    StageSpec parser data pos (parser.endHeaders result (lineEnd + 2)) := by
  have phase : parser.reader.phase = .line .header [] := by simp [reader, state]
  have line : (data.drop pos).take (lineEnd - pos) = [] := (line_eq_nil_iff found).mpr empty
  have head := invariant.head (.inr state)
  unfold endHeaders
  split
  next missing =>
      refine StageSpec.fault_of_line phase found ?_ _
      simp [Reader.endLine, line, reader, missing]
  next request present =>
      dsimp only
      have body : request.body = [] := head.2 request present
      have endLine : parser.reader.endLine .header ((data.drop pos).take (lineEnd - pos)) =
          parser.reader.endHeader request := by
        simp [Reader.endLine, line, reader_headers state, present]
      split
      next given =>
          split
          next length read =>
              have selected : request.framing = .length length := by
                simp [HttpRequest.framing, given, read]
              refine Advances.of_line phase found ?_ rfl rfl ?_ ?_
              · rw [endLine, Reader.endHeader, selected]
                simp [reader, transitionTo, present, body]
              · exact
                  { body := by
                      simp [transitionTo, present, body]
                    fits := stoul_lt read
                    head := by simp [transitionTo]
                    chunk := by simp [transitionTo]
                    counted := invariant.counted }
              · simp [transitionTo, success]
          next error read =>
              have selected : request.framing = .invalid := by
                simp [HttpRequest.framing, given, read]
              refine Advances.of_line phase found ?_ rfl rfl (invariant.handleError _) ?_
              · rw [endLine, Reader.endHeader, selected, reader_handleError]
              · simp [handleError]
      next absent =>
          have noLength : request.getHeader (bytes "Content-Length") = [] := by
            simpa using absent
          split
          next chunked =>
              have selected : request.framing = .chunked := by
                simp [HttpRequest.framing, noLength, chunked]
              refine Advances.of_line phase found ?_ rfl rfl ?_ ?_
              · rw [endLine, Reader.endHeader, selected]
                simp [reader, transitionTo, head.1]
              · exact
                  { body := by simp [transitionTo]
                    fits := invariant.fits
                    head := by simp [transitionTo]
                    chunk := by simp [transitionTo, head.1]
                    counted := invariant.counted }
              · simp [transitionTo, success]
          next plain =>
              have selected : request.framing = .none := by
                simp [HttpRequest.framing, noLength, plain]
              refine Advances.of_line phase found ?_ rfl rfl (invariant.complete rfl rfl rfl) ?_
              · rw [endLine, Reader.endHeader, selected]
                simp [reader, transitionTo]
              · simp [transitionTo, success]

/-- One pass over the header lines: either the stage ends here, or the rest of the
loop decides. -/
theorem headersPass_leave (invariant : parser.Invariant) (state : parser.state = .headers)
    (inside : pos ≤ data.length) (success : result.success = true)
    {outcome : Except Fault StageExit}
    (step : headersPass data result (parser, pos) = .leave outcome) :
    StageSpec parser data pos outcome := by
  have phase : parser.reader.phase = .line .header [] := by simp [reader, state]
  simp only [headersPass] at step
  split at step
  next unread =>
      split at step
      next absent =>
          cases step
          exact Advances.stuck invariant phase (by simp [state]) inside absent success
      next lineEnd found =>
          split at step
          next empty =>
              cases step
              exact endHeaders_spec invariant state success found empty
          next nonempty =>
              have notEmpty := mt (line_eq_nil_iff found).mp nonempty
              split at step
              next malformed =>
                  cases step
                  refine Advances.of_line phase found ?_ rfl rfl (invariant.handleError _) ?_
                  · simp [Reader.endLine, notEmpty, headerOf, malformed]
                  · simp [handleError]
              next colonPos colon =>
                  split at step
                  next missing =>
                      cases step
                      refine StageSpec.fault_of_line phase found ?_ _
                      simp [Reader.endLine, notEmpty, headerOf, colon, reader, missing]
                  next => cases step
  next read =>
      cases step
      exact Advances.done invariant (by simp [state]) inside read success

theorem HeaderStep.keeps {nextPos : Nat} (step : HeaderStep data parser pos next nextPos)
    (invariant : parser.Invariant) (state : parser.state = .headers) :
    next.Invariant ∧ next.state = .headers ∧ nextPos ≤ data.length ∧ pos < nextPos ∧
      next.buffer = parser.buffer ∧ next.totalBytesParsed = parser.totalBytesParsed := by
  rcases invariant.head (.inr state) with ⟨unparsed, bodyless⟩
  cases step with
  | line unread found nonempty colon present =>
      have bounds := findCRLF_bounds found
      refine ⟨?_, state, bounds.2, Nat.lt_add_right 1 (Nat.lt_succ_of_le bounds.1), rfl, rfl⟩
      exact
        { body := by simp [state]
          fits := invariant.fits
          head := fun _ => ⟨unparsed, by simpa using bodyless _ present⟩
          chunk := by simp [state]
          counted := invariant.counted }

theorem HeaderStep.verdict {nextPos : Nat} (step : HeaderStep data parser pos next nextPos)
    (state : parser.state = .headers) :
    next.verdict data nextPos = parser.verdict data pos := by
  have phase : parser.reader.phase = .line .header [] := by simp [reader, state]
  cases step with
  | line unread found nonempty colon present =>
      have notEmpty := mt (line_eq_nil_iff found).mp nonempty
      rw [verdict_line phase found]
      simp [Reader.endLine, notEmpty, headerOf, colon, reader, state, present,
        HttpParser.verdict]

theorem headersLoop_spec (invariant : parser.Invariant) (state : parser.state = .headers)
    (inside : pos ≤ data.length) (success : result.success = true) :
    StageSpec parser data pos
      (total (headersPass data result) _ (headersPass_decreases data result) (parser, pos)) := by
  have spec := total_induction (headersPass_decreases data result)
    (fun loop outcome => loop.1.Invariant → loop.1.state = .headers →
      loop.2 ≤ data.length → StageSpec loop.1 data loop.2 outcome)
    (fun loop outcome step invariant state inside =>
      headersPass_leave invariant state inside success step)
    (fun loop next outcome step spec invariant state inside => by
      have taken := headerStep_of_again step
      rcases taken.keeps invariant state with
        ⟨nextInvariant, nextState, nextInside, further, buffer, total⟩
      exact (spec nextInvariant nextState nextInside).after buffer total (taken.verdict state)
        further)
    (parser, pos)
  exact spec invariant state inside

theorem parseHeaders_spec (invariant : parser.Invariant) (state : parser.state = .headers)
    (inside : pos ≤ data.length) :
    StageSpec parser data pos (parser.parseHeaders data pos) :=
  headersLoop_spec invariant state inside rfl

/-! ## `ParseBody` -/

theorem sizeSub_of_le {left right : Nat} (ordered : right ≤ left) (fits : left < sizeModulus) :
    sizeSub left right = left - right := by
  simp only [sizeSub]
  have small : right % sizeModulus = right := Nat.mod_eq_of_lt (by omega)
  have sum : left + (sizeModulus - right) = (left - right) + sizeModulus := by omega
  rw [small, sum, Nat.add_mod_right, Nat.mod_eq_of_lt (by omega)]

theorem parseBody_spec (invariant : parser.Invariant) (state : parser.state = .body)
    (unread : pos < data.length) :
    StageSpec parser data pos (parser.parseBody data pos) := by
  have length : (data.drop pos).length = data.length - pos := List.length_drop
  have nonempty : data.drop pos ≠ [] := mt List.drop_eq_nil_iff.mp (Nat.not_le.mpr unread)
  unfold parseBody
  dsimp only
  split
  next missing =>
      refine StageSpec.fault_of_missing (.inl ⟨parser.contentLength, ?_⟩) missing unread _
      simp [reader, state, missing]
  next request present =>
      have bounded := invariant.body state request present
      have phase : parser.reader.phase =
          .body (parser.contentLength - request.body.length) := by
        simp [reader, state, present]
      rw [sizeSub_of_le bounded invariant.fits]
      split
      next enough =>
          refine
            { buffer := rfl
              total := rfl
              invariant := invariant.complete rfl rfl rfl
              verdict := ?_
              forward := Nat.le_add_right _ _
              inside := by dsimp only; omega
              success := by simp [transitionTo]
              progress := fun _ => .inr (.inl rfl) }
          rw [verdict, verdict, Reader.feed, Reader.feed,
            Reader.readAll_body_ge phase present (by omega) nonempty]
          simp [reader, transitionTo, Reader.readAll_complete, List.drop_drop]
      next short =>
          refine
            { buffer := rfl
              total := rfl
              invariant :=
                { body := fun _ after equal => ?_
                  fits := invariant.fits
                  head := by simp [state]
                  chunk := by simp [state]
                  counted := invariant.counted }
              verdict := ?_
              forward := Nat.le_add_right _ _
              inside := by dsimp only; omega
              success := by simp [state]
              progress := fun _ => .inl (by dsimp only; omega) }
          · cases equal
            simp only [HttpRequest.appendBody_body, List.length_append, List.length_take, length]
            omega
          · have takeAll : (data.drop pos).take (data.length - pos) = data.drop pos :=
              List.take_of_length_le (Nat.le_of_eq length)
            have dropAll : data.drop (pos + (data.length - pos)) = [] :=
              List.drop_eq_nil_of_le (by omega)
            rw [verdict, verdict, Reader.feed, Reader.feed,
              Reader.readAll_body_lt phase present (by omega), dropAll, takeAll]
            simp [reader, state, Nat.sub_sub]

/-! ## `ParseChunkedBody` -/

theorem crlf_prefix_iff (data : Bytes) (pos : Nat) :
    (pos + 2 ≤ data.length ∧ data[pos]? = some cr ∧ data[pos + 1]? = some lf) ↔
      crlf <+: data.drop pos := by
  constructor
  · intro found
    rcases found with ⟨inside, first, second⟩
    rw [List.getElem?_eq_some_iff] at first second
    rcases first with ⟨firstInside, first⟩
    rcases second with ⟨secondInside, second⟩
    rw [List.drop_eq_getElem_cons firstInside, List.drop_eq_getElem_cons secondInside, first,
      second]
    exact ⟨_, rfl⟩
  · intro isPrefix
    rcases isPrefix with ⟨rest, equal⟩
    have length := congrArg List.length equal
    have first := congrArg (·[0]?) equal
    have second := congrArg (·[1]?) equal
    simp only [List.length_append, List.length_cons, List.length_nil, List.length_drop] at length
    simp only [List.cons_append, List.getElem?_cons_zero, List.getElem?_drop, Nat.add_zero]
      at first
    simp only [List.cons_append, List.getElem?_cons_succ, List.getElem?_cons_zero,
      List.getElem?_drop] at second
    exact ⟨by omega, first.symm, second.symm⟩

/-- Reading the rest of a chunk that is all in the buffer. -/
theorem verdict_chunk_end (request : HttpRequest) (present : parser.request = some request)
    (phase : parser.reader.phase = .chunkData parser.currentChunkSize)
    (positive : 0 < parser.currentChunkSize)
    (available : parser.currentChunkSize ≤ data.length - pos) :
    parser.verdict data pos =
      Reader.feed
        ⟨.line (.chunkSize true) [],
          some (request.appendBody ((data.drop pos).take parser.currentChunkSize)),
          parser.chunkedEncoding⟩
        (data.drop (pos + parser.currentChunkSize)) := by
  have length : ((data.drop pos).take parser.currentChunkSize).length =
      parser.currentChunkSize := by
    rw [List.length_take, List.length_drop]
    omega
  have nonempty : (data.drop pos).take parser.currentChunkSize ≠ [] := by
    intro empty
    simp [empty] at length
    omega
  conv_lhs =>
    rw [verdict, Reader.feed, ← List.take_append_drop parser.currentChunkSize (data.drop pos)]
  rw [Reader.readAll_append,
    Reader.readAll_chunkData_eq (by rw [phase, length]) present nonempty, List.drop_drop]
  rfl

theorem chunkedPass_leave (invariant : parser.Invariant)
    (state : parser.state = .chunkedBody) (inside : pos ≤ data.length)
    (success : result.success = true) {outcome : Except Fault StageExit}
    (step : chunkedPass data result (parser, pos) = .leave outcome) :
    StageSpec parser data pos outcome := by
  simp only [chunkedPass] at step
  split at step
  next unread =>
      split at step
      next unparsed =>
          have phase : parser.reader.phase = .line (.chunkSize false) [] := by
            simp [reader, state, unparsed]
          split at step
          next absent =>
              cases step
              exact Advances.stuck invariant phase (by simp [state]) inside absent success
          next lineEnd found =>
              split at step
              next size read =>
                  split at step
                  next zero =>
                      cases step
                      refine Advances.of_line phase found ?_ rfl rfl
                        (invariant.complete rfl rfl rfl) ?_
                      · simp [Reader.endLine, read, zero, reader, transitionTo]
                      · simp [transitionTo, success]
                  next => cases step
              next error read =>
                  cases step
                  refine Advances.of_line phase found ?_ rfl rfl (invariant.handleError _) ?_
                  · simp [Reader.endLine, read]
                  · simp [handleError]
      next parsed =>
          split at step
          next missing =>
              cases step
              have flag : parser.chunkSizeParsed = true := by simpa using parsed
              refine StageSpec.fault_of_missing (.inr ⟨parser.currentChunkSize, ?_⟩) missing
                unread _
              simp [reader, state, flag]
          next =>
              split at step
              next => split at step <;> cases step
              next => cases step
  next read =>
      cases step
      exact Advances.done invariant (by simp [state]) inside read success

/-- A pass that goes round again keeps what the stage relies on, and moves forward. -/
theorem ChunkStep.keeps {nextPos : Nat} (step : ChunkStep data parser pos next nextPos)
    (invariant : parser.Invariant) (state : parser.state = .chunkedBody) :
    next.Invariant ∧ next.state = .chunkedBody ∧ nextPos ≤ data.length ∧ pos < nextPos ∧
      next.buffer = parser.buffer ∧ next.totalBytesParsed = parser.totalBytesParsed := by
  rcases invariant.chunk state with ⟨chunked, sized⟩
  have invariantOf (request : Option HttpRequest) (size : Nat) (parsed : Bool)
      (sized : parsed = true → 0 < size) :
      Invariant { parser with request, currentChunkSize := size, chunkSizeParsed := parsed } :=
    { body := by simp [state]
      fits := invariant.fits
      head := by simp [state]
      chunk := fun _ => ⟨chunked, sized⟩
      counted := invariant.counted }
  cases step with
  | sizeLine unparsed found read positive =>
      have bounds := findCRLF_bounds found
      exact ⟨invariantOf _ _ _ fun _ => Nat.pos_of_ne_zero positive, state, bounds.2,
        Nat.lt_add_right 1 (Nat.lt_succ_of_le bounds.1), rfl, rfl⟩
  | endSkipped parsed unread present inside =>
      exact ⟨invariantOf _ _ _ (by simp), state, inside,
        Nat.lt_add_right 1 (Nat.lt_succ_of_le (Nat.le_add_right _ _)), rfl, rfl⟩
  | endKept parsed unread present inside =>
      exact ⟨invariantOf _ _ _ (by simp), state, inside,
        Nat.lt_add_of_pos_right (sized parsed), rfl, rfl⟩
  | part parsed unread present more =>
      refine ⟨?_, state, Nat.le_refl _, unread, rfl, rfl⟩
      rw [parsed]
      exact invariantOf _ _ _ fun _ => by omega

/-- A pass that goes round again leaves the verdict as it is. -/
theorem ChunkStep.verdict {nextPos : Nat} (step : ChunkStep data parser pos next nextPos)
    (invariant : parser.Invariant) (state : parser.state = .chunkedBody) :
    next.verdict data nextPos = parser.verdict data pos := by
  have phase (parsed : parser.chunkSizeParsed = true) :
      parser.reader.phase = .chunkData parser.currentChunkSize := by
    simp [reader, state, parsed]
  have positive := (invariant.chunk state).2
  cases step with
  | sizeLine unparsed found read nonzero =>
      have linePhase : parser.reader.phase = .line (.chunkSize false) [] := by
        simp [reader, state, unparsed]
      rw [verdict_line linePhase found]
      simp [Reader.endLine, read, nonzero, reader, state, HttpParser.verdict]
  | endSkipped parsed unread present inside first second =>
      rcases (crlf_prefix_iff _ _).mp ⟨inside, first, second⟩ with ⟨rest, equal⟩
      have restEqual : data.drop (pos + parser.currentChunkSize + 2) = rest := by
        rw [← List.drop_drop, ← equal]
        rfl
      rw [verdict_chunk_end _ present (phase parsed) (positive parsed) (by omega), ← equal,
        Reader.feed, Reader.readAll_skip]
      simp [HttpParser.verdict, Reader.feed, reader, state, restEqual]
  | endKept parsed unread present inside apart =>
      rw [verdict_chunk_end _ present (phase parsed) (positive parsed) (by omega), Reader.feed,
        Reader.settle_readAll_afterData _ _ (mt (crlf_prefix_iff _ _).mpr apart)]
      simp [HttpParser.verdict, Reader.feed, reader, state]
  | part parsed unread present more =>
      have length : (data.drop pos).length = data.length - pos := List.length_drop
      rw [HttpParser.verdict, HttpParser.verdict, Reader.feed, Reader.feed,
        Reader.readAll_chunkData_lt (phase parsed) present (by omega), List.drop_length,
        Reader.readAll_nil]
      simp [reader, state, parsed]

theorem chunkedLoop_spec (invariant : parser.Invariant)
    (state : parser.state = .chunkedBody) (inside : pos ≤ data.length)
    (success : result.success = true) :
    StageSpec parser data pos
      (total (chunkedPass data result) _ (chunkedPass_decreases data result) (parser, pos)) := by
  have spec := total_induction (chunkedPass_decreases data result)
    (fun loop outcome => loop.1.Invariant → loop.1.state = .chunkedBody →
      loop.2 ≤ data.length → StageSpec loop.1 data loop.2 outcome)
    (fun loop outcome step invariant state inside =>
      chunkedPass_leave invariant state inside success step)
    (fun loop next outcome step spec invariant state inside => by
      have taken := chunkStep_of_again step
      rcases taken.keeps invariant state with
        ⟨nextInvariant, nextState, nextInside, further, buffer, total⟩
      exact (spec nextInvariant nextState nextInside).after buffer total
        (taken.verdict invariant state) further)
    (parser, pos)
  exact spec invariant state inside

theorem parseChunkedBody_spec (invariant : parser.Invariant)
    (state : parser.state = .chunkedBody) (inside : pos ≤ data.length) :
    StageSpec parser data pos (parser.parseChunkedBody data pos) :=
  chunkedLoop_spec invariant state inside rfl

end HttpParser

end PPServer.Http
