import PPServer.Http.Request
import PPServer.Library.Loop

/-!
# `HttpParser`

The parser as the source has it: a buffer that keeps unread bytes between calls, a
position into it, an outer loop that calls one stage function for the current state,
and inner loops in two of the stages.  The inner loops decrease a measure and are
total functions; the outer loop is run with fuel, because nothing makes it leave.

`request_` is a `std::unique_ptr` that `GetRequest` moves out, so it may be empty.
A stage that uses it then has no defined behaviour, which is the outcome
`Fault.missingRequest`.  Allocation failures are not modelled, so no exception
reaches the outer `catch`.
-/

namespace PPServer.Http

open Loop

inductive ParseState where
  | startLine
  | headers
  | body
  | chunkedBody
  | complete
  | error
  deriving DecidableEq, Repr

structure ParseResult where
  success : Bool := false
  state : ParseState := .startLine
  bytesParsed : Nat := 0
  errorMessage : Bytes := []
  deriving DecidableEq, Repr

structure HttpParser where
  state : ParseState := .startLine
  request : Option HttpRequest := some {}
  contentLength : Nat := 0
  chunkedEncoding : Bool := false
  buffer : Bytes := []
  totalBytesParsed : Nat := 0
  currentChunkSize : Nat := 0
  chunkSizeParsed : Bool := false
  /-- The messages `HandleError` has written to `std::cerr`. -/
  errorLog : List Bytes := []
  deriving DecidableEq

/-- A use of `request_` while it is empty. -/
inductive Fault where
  | missingRequest
  deriving DecidableEq, Repr

/-- What a stage function returns, and where it leaves the parser and `pos`. -/
structure StageExit where
  result : ParseResult
  parser : HttpParser
  pos : Nat
  deriving DecidableEq

/-- The difference of two `size_t` values. -/
def sizeSub (left right : Nat) : Nat :=
  (left + (sizeModulus - right % sizeModulus)) % sizeModulus

/-- `ValidateHttpMethod`. -/
def validateHttpMethod (method : Bytes) : Bool :=
  [bytes "GET", bytes "POST", bytes "PUT", bytes "DELETE", bytes "HEAD",
    bytes "OPTIONS", bytes "PATCH", bytes "TRACE", bytes "CONNECT"].contains method

/-- `ValidateHttpVersion`. -/
def validateHttpVersion (version : Bytes) : Bool :=
  [bytes "HTTP/1.0", bytes "HTTP/1.1", bytes "HTTP/2.0"].contains version

/-- `iss >> method >> path >> version`. -/
def extractRequestLine (line : Bytes) : Option (Bytes × Bytes × Bytes) := do
  let (method, stream) ← extractWord line
  let (path, stream) ← extractWord stream
  let (version, _) ← extractWord stream
  return (method, path, version)

namespace HttpParser

def transitionTo (parser : HttpParser) (state : ParseState) : HttpParser :=
  { parser with state }

def handleError (parser : HttpParser) (message : Bytes) : HttpParser :=
  { parser with state := .error, errorLog := parser.errorLog ++ [message] }

def getRequest (parser : HttpParser) : Option HttpRequest × HttpParser :=
  (parser.request, { parser with request := none })

def reset (parser : HttpParser) : HttpParser :=
  { state := .startLine
    request := some {}
    contentLength := 0
    chunkedEncoding := false
    buffer := []
    totalBytesParsed := 0
    currentChunkSize := 0
    chunkSizeParsed := false
    errorLog := parser.errorLog }

/-! ## Stage functions -/

def parseStartLine (parser : HttpParser) (data : Bytes) (pos : Nat) :
    Except Fault StageExit :=
  match findCRLF data pos with
  | none => .ok ⟨⟨true, parser.state, parser.totalBytesParsed, []⟩, parser, pos⟩
  | some lineEnd =>
      let line := (data.drop pos).take (lineEnd - pos)
      let pos := lineEnd + 2
      match extractRequestLine line with
      | none =>
          let parser := parser.handleError (bytes "Malformed request line")
          .ok ⟨⟨false, parser.state, parser.totalBytesParsed,
            bytes "Invalid request line format"⟩, parser, pos⟩
      | some (method, path, version) =>
          if !validateHttpMethod method then
            let parser := parser.handleError (bytes "Unsupported HTTP method: " ++ method)
            .ok ⟨⟨false, parser.state, parser.totalBytesParsed,
              bytes "Unsupported HTTP method"⟩, parser, pos⟩
          else if !validateHttpVersion version then
            let parser := parser.handleError (bytes "Unsupported HTTP version: " ++ version)
            .ok ⟨⟨false, parser.state, parser.totalBytesParsed,
              bytes "Unsupported HTTP version"⟩, parser, pos⟩
          else
            match parser.request with
            | none => .error .missingRequest
            | some request =>
                let request := request.setMethod (stringToMethod method)
                let request := request.setPath path
                let request := request.setVersion (stringToVersion version)
                let parser := { parser with request := some request }.transitionTo .headers
                .ok ⟨⟨true, parser.state, parser.totalBytesParsed, []⟩, parser, pos⟩

/-- The empty line: choose the framing of the body from the header table. -/
def endHeaders (parser : HttpParser) (result : ParseResult) (pos : Nat) :
    Except Fault StageExit :=
  match parser.request with
  | none => .error .missingRequest
  | some request =>
      let contentLength := request.getHeader (bytes "Content-Length")
      let transferEncoding := request.getHeader (bytes "Transfer-Encoding")
      if contentLength ≠ [] then
        match stoul contentLength 10 with
        | .ok length =>
            .ok ⟨result, { parser with contentLength := length }.transitionTo .body, pos⟩
        | .error _ =>
            .ok ⟨{ result with success := false, errorMessage := bytes "Invalid Content-Length" },
              parser.handleError (bytes "Invalid Content-Length header"), pos⟩
      else if transferEncoding = bytes "chunked" then
        .ok ⟨result, { parser with chunkedEncoding := true }.transitionTo .chunkedBody, pos⟩
      else
        .ok ⟨result, parser.transitionTo .complete, pos⟩

/-- One pass of the loop over header lines. -/
def headersPass (data : Bytes) (result : ParseResult) :
    HttpParser × Nat → Pass (HttpParser × Nat) (Except Fault StageExit)
  | (parser, pos) =>
      if pos < data.length then
        match findCRLF data pos with
        | none => .leave (.ok ⟨result, parser, pos⟩)
        | some lineEnd =>
            if lineEnd = pos then
              .leave (parser.endHeaders result (lineEnd + 2))
            else
              let line := (data.drop pos).take (lineEnd - pos)
              let pos := lineEnd + 2
              match line.findIdx? (· == 58) with
              | none =>
                  let parser := parser.handleError (bytes "Malformed header: " ++ line)
                  .leave (.ok ⟨⟨false, parser.state, parser.totalBytesParsed,
                    bytes "Invalid header format"⟩, parser, pos⟩)
              | some colonPos =>
                  let name := trim (line.take colonPos)
                  let value := trim (line.drop (colonPos + 1))
                  match parser.request with
                  | none => .leave (.error .missingRequest)
                  | some request =>
                      .again ({ parser with request := some (request.addHeader name value) }, pos)
      else .leave (.ok ⟨result, parser, pos⟩)

def parseBody (parser : HttpParser) (data : Bytes) (pos : Nat) :
    Except Fault StageExit :=
  let result : ParseResult := ⟨true, parser.state, parser.totalBytesParsed, []⟩
  let bytesRemaining := data.length - pos
  match parser.request with
  | none => .error .missingRequest
  | some request =>
      let bytesNeeded := sizeSub parser.contentLength request.body.length
      if bytesNeeded ≤ bytesRemaining then
        let request := request.appendBody ((data.drop pos).take bytesNeeded)
        let parser := { parser with request := some request }.transitionTo .complete
        .ok ⟨result, parser, pos + bytesNeeded⟩
      else
        let request := request.appendBody ((data.drop pos).take bytesRemaining)
        .ok ⟨result, { parser with request := some request }, pos + bytesRemaining⟩

/-- One pass of the loop over chunk-size lines and chunk data. -/
def chunkedPass (data : Bytes) (result : ParseResult) :
    HttpParser × Nat → Pass (HttpParser × Nat) (Except Fault StageExit)
  | (parser, pos) =>
      if pos < data.length then
        if parser.chunkSizeParsed = false then
          match findCRLF data pos with
          | none => .leave (.ok ⟨result, parser, pos⟩)
          | some lineEnd =>
              let line := (data.drop pos).take (lineEnd - pos)
              let pos := lineEnd + 2
              match stoul line 16 with
              | .ok size =>
                  let parser := { parser with currentChunkSize := size, chunkSizeParsed := true }
                  -- A size of zero ends the body; nothing after its line is read.
                  if size = 0 then .leave (.ok ⟨result, parser.transitionTo .complete, pos⟩)
                  else .again (parser, pos)
              | .error _ =>
                  let parser := parser.handleError (bytes "Invalid chunk size: " ++ line)
                  .leave (.ok ⟨⟨false, parser.state, parser.totalBytesParsed,
                    bytes "Invalid chunk size"⟩, parser, pos⟩)
        else
          let bytesToRead := min parser.currentChunkSize (data.length - pos)
          match parser.request with
          | none => .leave (.error .missingRequest)
          | some request =>
              let request := request.appendBody ((data.drop pos).take bytesToRead)
              let pos := pos + bytesToRead
              let size := parser.currentChunkSize - bytesToRead
              let parser := { parser with request := some request, currentChunkSize := size }
              if size = 0 then
                let parser := { parser with chunkSizeParsed := false }
                -- The CRLF after the data is skipped only when it is in the buffer.
                if pos + 2 ≤ data.length ∧ data[pos]? = some cr ∧ data[pos + 1]? = some lf then
                  .again (parser, pos + 2)
                else .again (parser, pos)
              else .again (parser, pos)
      else .leave (.ok ⟨result, parser, pos⟩)

end HttpParser

theorem findCRLF_bounds {data : Bytes} {pos lineEnd : Nat}
    (found : findCRLF data pos = some lineEnd) :
    pos ≤ lineEnd ∧ lineEnd + 2 ≤ data.length := by
  have member := List.mem_of_find?_eq_some found
  rw [List.mem_range'_1] at member
  omega

namespace HttpParser

/-- What a pass of the header loop that goes round again has done: it has read a header
line. -/
inductive HeaderStep (data : Bytes) (parser : HttpParser) (pos : Nat) :
    HttpParser → Nat → Prop where
  | line {lineEnd colonPos : Nat} {request : HttpRequest} :
      pos < data.length → findCRLF data pos = some lineEnd → lineEnd ≠ pos →
      ((data.drop pos).take (lineEnd - pos)).findIdx? (· == 58) = some colonPos →
      parser.request = some request →
      HeaderStep data parser pos
        { parser with
          request := some (request.addHeader
            (trim (((data.drop pos).take (lineEnd - pos)).take colonPos))
            (trim (((data.drop pos).take (lineEnd - pos)).drop (colonPos + 1)))) }
        (lineEnd + 2)

theorem headerStep_of_again {data : Bytes} {result : ParseResult} {parser : HttpParser} {pos : Nat}
    {loop : HttpParser × Nat} (step : headersPass data result (parser, pos) = .again loop) :
    HeaderStep data parser pos loop.1 loop.2 := by
  simp only [headersPass] at step
  split at step
  next unread =>
      split at step
      next => cases step
      next lineEnd found =>
          split at step
          next => cases step
          next nonempty =>
              split at step
              next => cases step
              next colonPos colon =>
                  split at step
                  next => cases step
                  next request present =>
                      cases step
                      exact .line unread found nonempty colon present
  next => cases step

theorem headersPass_decreases (data : Bytes) (result : ParseResult) :
    Decreases (headersPass data result) fun loop => data.length - loop.2 := by
  intro state next step
  rcases state with ⟨parser, pos⟩
  rcases next with ⟨after, nextPos⟩
  cases headerStep_of_again step with
  | line unread found =>
      have bounds := findCRLF_bounds found
      simp
      omega

/-- What a pass of the chunk loop that goes round again has done. -/
inductive ChunkStep (data : Bytes) (parser : HttpParser) (pos : Nat) :
    HttpParser → Nat → Prop where
  | sizeLine {lineEnd size : Nat} :
      parser.chunkSizeParsed = false → findCRLF data pos = some lineEnd →
      stoul ((data.drop pos).take (lineEnd - pos)) 16 = .ok size → size ≠ 0 →
      ChunkStep data parser pos
        { parser with currentChunkSize := size, chunkSizeParsed := true } (lineEnd + 2)
  /-- The rest of the chunk is in the buffer, and so is the CRLF after it. -/
  | endSkipped {request : HttpRequest} :
      parser.chunkSizeParsed = true → pos < data.length → parser.request = some request →
      pos + parser.currentChunkSize + 2 ≤ data.length →
      data[pos + parser.currentChunkSize]? = some cr →
      data[pos + parser.currentChunkSize + 1]? = some lf →
      ChunkStep data parser pos
        { parser with
          request := some (request.appendBody ((data.drop pos).take parser.currentChunkSize))
          currentChunkSize := 0
          chunkSizeParsed := false }
        (pos + parser.currentChunkSize + 2)
  /-- The rest of the chunk is in the buffer, and is not followed by CRLF. -/
  | endKept {request : HttpRequest} :
      parser.chunkSizeParsed = true → pos < data.length → parser.request = some request →
      pos + parser.currentChunkSize ≤ data.length →
      ¬(pos + parser.currentChunkSize + 2 ≤ data.length ∧
        data[pos + parser.currentChunkSize]? = some cr ∧
        data[pos + parser.currentChunkSize + 1]? = some lf) →
      ChunkStep data parser pos
        { parser with
          request := some (request.appendBody ((data.drop pos).take parser.currentChunkSize))
          currentChunkSize := 0
          chunkSizeParsed := false }
        (pos + parser.currentChunkSize)
  /-- All that is in the buffer is data of the chunk, and more is to come. -/
  | part {request : HttpRequest} :
      parser.chunkSizeParsed = true → pos < data.length → parser.request = some request →
      data.length < pos + parser.currentChunkSize →
      ChunkStep data parser pos
        { parser with
          request := some (request.appendBody (data.drop pos))
          currentChunkSize := parser.currentChunkSize - (data.length - pos) }
        data.length

theorem chunkStep_of_again {data : Bytes} {result : ParseResult} {parser : HttpParser} {pos : Nat}
    {loop : HttpParser × Nat} (step : chunkedPass data result (parser, pos) = .again loop) :
    ChunkStep data parser pos loop.1 loop.2 := by
  simp only [chunkedPass] at step
  split at step
  next unread =>
      split at step
      next unparsed =>
          split at step
          next => cases step
          next lineEnd found =>
              split at step
              next size read =>
                  split at step
                  next => cases step
                  next positive =>
                      cases step
                      exact .sizeLine unparsed found read positive
              next => cases step
      next parsed =>
          have flag : parser.chunkSizeParsed = true := by simpa using parsed
          split at step
          next => cases step
          next request present =>
              split at step
              next ended =>
                  have all : min parser.currentChunkSize (data.length - pos) =
                      parser.currentChunkSize := by omega
                  rw [all, Nat.sub_self] at step
                  split at step
                  next skip =>
                      cases step
                      exact .endSkipped flag unread present skip.1 skip.2.1 skip.2.2
                  next kept =>
                      cases step
                      exact .endKept flag unread present (by omega) kept
              next remains =>
                  cases step
                  have all : min parser.currentChunkSize (data.length - pos) =
                      data.length - pos := by omega
                  have takeAll : (data.drop pos).take (data.length - pos) = data.drop pos :=
                    List.take_of_length_le (Nat.le_of_eq List.length_drop)
                  have toEnd : pos + (data.length - pos) = data.length := by omega
                  rw [all, takeAll, toEnd]
                  exact .part flag unread present (by omega)
  next => cases step

theorem chunkedPass_decreases (data : Bytes) (result : ParseResult) :
    Decreases (chunkedPass data result) fun loop =>
      2 * (data.length - loop.2) + if loop.1.chunkSizeParsed then 1 else 0 := by
  intro state next step
  rcases state with ⟨parser, pos⟩
  rcases next with ⟨after, nextPos⟩
  cases chunkStep_of_again step with
  | sizeLine unparsed found =>
      have bounds := findCRLF_bounds found
      simp [unparsed]
      omega
  | endSkipped parsed | endKept parsed | part parsed =>
      simp [parsed]
      omega

def parseHeaders (parser : HttpParser) (data : Bytes) (pos : Nat) :
    Except Fault StageExit :=
  total (headersPass data ⟨true, parser.state, parser.totalBytesParsed, []⟩) _
    (headersPass_decreases _ _) (parser, pos)

def parseChunkedBody (parser : HttpParser) (data : Bytes) (pos : Nat) :
    Except Fault StageExit :=
  total (chunkedPass data ⟨true, parser.state, parser.totalBytesParsed, []⟩) _
    (chunkedPass_decreases _ _) (parser, pos)

/-! ## The outer loop -/

/-- The locals of `Parse` between two passes of its loop. -/
structure ParseLoop where
  parser : HttpParser
  pos : Nat
  result : ParseResult

/-- The `switch` of the outer loop. -/
def parseStage (loop : ParseLoop) : Except Fault StageExit :=
  match loop.parser.state with
  | .startLine => loop.parser.parseStartLine loop.parser.buffer loop.pos
  | .headers => loop.parser.parseHeaders loop.parser.buffer loop.pos
  | .body => loop.parser.parseBody loop.parser.buffer loop.pos
  | .chunkedBody => loop.parser.parseChunkedBody loop.parser.buffer loop.pos
  | .complete | .error =>
      .ok ⟨loop.result, loop.parser.handleError (bytes "Invalid parser state"), loop.pos⟩

/-- What `Parse` does once its loop condition fails. -/
def finish (loop : ParseLoop) : ParseResult × HttpParser :=
  let result :=
    if loop.parser.state = .complete then
      { loop.result with success := true, state := loop.parser.state }
    else loop.result
  let parser :=
    if 0 < loop.pos then { loop.parser with buffer := loop.parser.buffer.drop loop.pos }
    else loop.parser
  (result, parser)

/-- One pass of the outer loop. -/
def parsePass (loop : ParseLoop) :
    Pass ParseLoop (Except Fault (ParseResult × HttpParser)) :=
  if loop.pos < loop.parser.buffer.length ∧ loop.parser.state ≠ .complete ∧
      loop.parser.state ≠ .error then
    match parseStage loop with
    | .error fault => .leave (.error fault)
    | .ok exit =>
        -- An error return keeps the buffer and the byte count as they were.
        if !exit.result.success then .leave (.ok (exit.result, exit.parser))
        else
          .again
            { parser :=
                { exit.parser with
                  totalBytesParsed :=
                    (exit.parser.totalBytesParsed + (exit.pos - loop.pos)) % sizeModulus }
              pos := exit.pos
              result :=
                { exit.result with
                  bytesParsed :=
                    (exit.result.bytesParsed + (exit.pos - loop.pos)) % sizeModulus } }
  else .leave (.ok (finish loop))

/-- The locals of `Parse` when its loop is entered with a block of data. -/
def enter (parser : HttpParser) (data : Bytes) : ParseLoop :=
  { parser := { parser with buffer := parser.buffer ++ data }, pos := 0, result := {} }

/-- `Parse`, given up after `fuel` passes of its loop. -/
def parse (fuel : Nat) (parser : HttpParser) (data : Bytes) :
    Option (Except Fault (ParseResult × HttpParser)) :=
  if data = [] then
    some (.ok (⟨false, parser.state, parser.totalBytesParsed, bytes "Invalid input data"⟩, parser))
  else run parsePass fuel (enter parser data)

/-- The call `Parse(data)` comes to an end, by returning or in a fault. -/
def Ends (parser : HttpParser) (data : Bytes) : Prop :=
  ∃ fuel outcome, parse fuel parser data = some outcome

/-- The call `Parse(data)` returns `result` and leaves the parser as `after`. -/
def Parses (parser : HttpParser) (data : Bytes) (result : ParseResult)
    (after : HttpParser) : Prop :=
  ∃ fuel, parse fuel parser data = some (.ok (result, after))

/-- Every call of a sequence of `Parse` calls returns. -/
inductive Feeds : HttpParser → List Bytes → HttpParser → Prop where
  | nil (parser : HttpParser) : Feeds parser [] parser
  | cons {parser next after : HttpParser} {piece : Bytes} {pieces : List Bytes}
      {result : ParseResult} :
      Parses parser piece result next → Feeds next pieces after →
      Feeds parser (piece :: pieces) after

/-- What a call returns, if it does so within `fuel` passes. -/
def parseOutcome (fuel : Nat) (parser : HttpParser) (data : Bytes) :
    Option (ParseResult × HttpParser) :=
  match parse fuel parser data with
  | some (.ok outcome) => some outcome
  | _ => none

/-- A sequence of calls, each of them given up after `fuel` passes. -/
def feedAll (fuel : Nat) : HttpParser → List Bytes → Option HttpParser
  | parser, [] => some parser
  | parser, piece :: pieces =>
      match parseOutcome fuel parser piece with
      | some (_, next) => feedAll fuel next pieces
      | none => none

theorem parses_of_outcome {parser : HttpParser} {data : Bytes} {fuel : Nat}
    {exit : ParseResult × HttpParser} (outcome : parseOutcome fuel parser data = some exit) :
    Parses parser data exit.1 exit.2 := by
  simp only [parseOutcome] at outcome
  split at outcome
  next exit returns =>
      cases outcome
      exact ⟨fuel, returns⟩
  next => cases outcome

theorem parses_get {parser : HttpParser} {data : Bytes} (fuel : Nat)
    (returned : (parseOutcome fuel parser data).isSome) :
    Parses parser data ((parseOutcome fuel parser data).get returned).1
      ((parseOutcome fuel parser data).get returned).2 :=
  parses_of_outcome (Option.some_get returned).symm

theorem feeds_get {parser : HttpParser} {pieces : List Bytes} (fuel : Nat)
    (returned : (feedAll fuel parser pieces).isSome) :
    Feeds parser pieces ((feedAll fuel parser pieces).get returned) := by
  have outcome := Option.some_get returned
  generalize (feedAll fuel parser pieces).get returned = after at outcome
  clear returned
  induction pieces generalizing parser with
  | nil =>
      cases outcome
      exact .nil _
  | cons piece pieces ih =>
      rw [feedAll] at outcome
      split at outcome
      next result next returned =>
          have parses := parses_get fuel (by rw [returned]; rfl)
          simp only [returned, Option.get_some] at parses
          exact .cons parses (ih outcome)
      next => cases outcome

/-- The states a parser can be in between two calls of its interface. -/
inductive Reachable : HttpParser → Prop where
  | fresh : Reachable {}
  | parse {parser after : HttpParser} {data : Bytes} {result : ParseResult} :
      Reachable parser → Parses parser data result after → Reachable after
  | getRequest {parser : HttpParser} : Reachable parser → Reachable parser.getRequest.2
  | reset {parser : HttpParser} : Reachable parser → Reachable parser.reset

end HttpParser

end PPServer.Http
