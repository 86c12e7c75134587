import PPServer.Http.Observation

/-!
# Where a request ends

The parser decides three times where a message ends, and each decision has its own
defect.  A body of known length is complete as soon as its last byte has been read,
except that an empty one is never looked at.  The boundary between a message and what
follows it is exact, except for the last CRLF of a chunked message.  And bytes of the
next message that a call has already read are kept, except that `Reset` drops them.
-/

namespace PPServer.Http

namespace Reader

variable {reader : Reader} {text : Bytes}

/-! ## The framing of a request once its header has ended -/

/-- The reader is past the header, or has failed. -/
def AfterHeader (reader : Reader) : Prop :=
  reader.state ≠ .startLine ∧ reader.state ≠ .headers

/-- After the header the request only grows by what is appended to its body. -/
theorem AfterHeader.read (past : reader.AfterHeader) (byte : Byte) :
    (reader.read byte).AfterHeader ∧
      ∃ data, (reader.read byte).request = reader.request.map (·.appendBody data) := by
  have same : ∃ data, reader.request = reader.request.map (·.appendBody data) :=
    ⟨[], by simp⟩
  simp only [Reader.read]
  split
  next kind seen phase =>
      cases kind with
      | request => exact absurd (by simp [state, phase]) past.1
      | header => exact absurd (by simp [state, phase]) past.2
      | chunkSize afterData =>
          split
          next =>
              simp only [endLine]
              split
              next => exact ⟨by simp [AfterHeader, state], same⟩
              next =>
                  refine ⟨?_, by split <;> exact same⟩
                  split <;> (try split) <;> simp [AfterHeader, state]
          next => exact ⟨by simp [AfterHeader, state], same⟩
  next => split <;> exact ⟨by simp [AfterHeader, state], same⟩
  next =>
      simp only [readData]
      split
      next missing => exact ⟨by simp [AfterHeader, state], [], by simp [missing]⟩
      next request present =>
          exact ⟨by split <;> simp [AfterHeader, state], [byte], by simp [present]⟩
  next =>
      simp only [readData]
      split
      next missing => exact ⟨by simp [AfterHeader, state], [], by simp [missing]⟩
      next request present =>
          exact ⟨by split <;> simp [AfterHeader, state], [byte], by simp [present]⟩
  next => exact ⟨by simp [AfterHeader, state], same⟩
  next phase => exact ⟨past, same⟩
  next phase => exact ⟨past, same⟩

theorem AfterHeader.readAll (past : reader.AfterHeader) (text : Bytes) :
    (reader.readAll text).AfterHeader ∧
      ∃ data, (reader.readAll text).request = reader.request.map (·.appendBody data) := by
  induction text generalizing reader with
  | nil => exact ⟨past, [], by simp⟩
  | cons byte text ih =>
      rcases past.read byte with ⟨nextPast, first, appended⟩
      rcases ih nextPast with ⟨stays, others, appends⟩
      refine ⟨stays, first ++ others, ?_⟩
      rw [readAll_cons, appends, appended, Option.map_map]
      congr 1
      funext request
      exact HttpRequest.appendBody_append request first others

/-- What is read after the header does not change the framing. -/
theorem AfterHeader.framing_readAll (past : reader.AfterHeader) (text : Bytes) :
    (reader.readAll text).request.map HttpRequest.framing =
      reader.request.map HttpRequest.framing := by
  rcases (past.readAll text).2 with ⟨data, appends⟩
  rw [appends, Option.map_map]
  rfl

/-- Bytes that take a new reader to the end of a request that is described by a
message without chunks start with a message without chunks. -/
theorem exists_message {surplus : Bytes} {described : Message}
    (unchunked : described.isChunked = false)
    (phase : (readAll {} text).phase = .complete surplus)
    (request : (readAll {} text).request = some described.request) :
    ∃ (message : Message) (rest : Bytes), text = message.text ++ rest ∧
      message.request = described.request := by
  have pastHeader : (readAll {} text).phase.PastHeader := by simp [phase, Phase.PastHeader]
  rcases exists_head pastHeader with ⟨head, rest, rfl⟩
  rw [readAll_append, readAll_head] at phase request
  have past :
      (endHeader ⟨.line .header [], some head.request, false⟩ head.request).AfterHeader := by
    simp only [endHeader]
    split <;> simp [AfterHeader, state]
  have framing : head.request.framing = described.request.framing := by
    have same := past.framing_readAll rest
    rw [request] at same
    have start : (endHeader ⟨.line .header [], some head.request, false⟩ head.request).request =
        some head.request := by
      simp only [endHeader]
      split <;> rfl
    simpa [start, eq_comm] using same
  cases described with
  | bodyless other none =>
      have selects : head.request.framing = .none := framing.trans none
      rw [endHeader, selects] at request
      dsimp only at request
      rw [readAll_complete rfl] at request
      exact ⟨.bodyless head selects, rest, rfl, Option.some.inj request⟩
  | counted other body nonempty hasLength =>
      have selects : head.request.framing = .length body.length :=
        framing.trans hasLength.framing
      rw [endHeader, selects] at phase request
      dsimp only at phase request
      have enough : body.length ≤ rest.length := by
        by_contra short
        rw [readAll_body_lt rfl rfl (Nat.lt_of_not_le short)] at phase
        cases phase
      have restNonempty : rest ≠ [] := by
        intro equal
        subst equal
        exact nonempty (List.eq_nil_of_length_eq_zero (Nat.le_zero.mp enough))
      rw [readAll_body_ge rfl rfl enough restNonempty] at request
      have same : head.request.appendBody (rest.take body.length) =
          other.request.appendBody body := Option.some.inj request
      have sameBody : rest.take body.length = body := by
        simpa using congrArg HttpRequest.body same
      have sameLength : head.HasLength body.length := by
        have value := congrArg (·.getHeader (bytes "Content-Length")) same
        simp only [HttpRequest.getHeader_appendBody] at value
        exact ⟨by rw [value]; exact hasLength.numeral, hasLength.fits⟩
      refine ⟨.counted head body nonempty sameLength, rest.drop body.length, ?_, ?_⟩
      · conv_lhs => rw [← List.take_append_drop body.length rest, sameBody]
        simp [Message.text]
      · rw [sameBody] at same
        exact same
  | chunked other selects chunks => cases unchunked

end Reader

namespace HttpParser

variable {parser next mid after : HttpParser} {head : Head} {body last a b : Bytes}
variable {init : List Bytes} {result : ParseResult}

/-! ## A body of known length -/

theorem Feeds.concat (feeds : Feeds parser init mid) (parses : Parses mid last result after) :
    Feeds parser (init ++ [last]) after := by
  induction feeds with
  | nil => exact .cons parses (.nil _)
  | cons first _ ih => exact .cons first (ih parses)

/-- **Completion with the last byte.**  After calls for exactly the bytes of a head
with a decimal `Content-Length` and of a body of that length, the parser is in
`COMPLETE` and the last call has said so exactly when the body is not empty. -/
theorem last_byte_completes_iff (hasLength : head.HasLength body.length)
    (cut : (init ++ [last]).flatten = head.text ++ body)
    (nonempty : ∀ piece ∈ init ++ [last], piece ≠ []) (feeds : Feeds {} init mid)
    (parses : Parses mid last result after) :
    (after.state = .complete ∧ result.success = true ∧ result.state = .complete) ↔
      0 < body.length := by
  have whole := Reader.readAll_append {} head.text body
  rw [Reader.readAll_head_length hasLength] at whole
  obtain ⟨midInvariant, -, -⟩ :=
    feeds.spec (fun piece member => nonempty piece (by simp [member])) .fresh settled_fresh
  have returned := (parses.spec (nonempty last (by simp)) midInvariant).1
  by_cases empty : body = []
  · have view := (feeds.concat parses).view_of_unchunked nonempty (by rw [cut, whole, empty]; rfl)
    have state : after.state = .body := by
      rw [← view_state view.2.1, view.2.2, cut, whole, empty]
      rfl
    simp [state, empty]
  · rw [Reader.readAll_body_eq rfl rfl empty] at whole
    have view := (feeds.concat parses).view_of_unchunked nonempty (by rw [cut, whole])
    have state : after.state = .complete := by
      rw [← view_state view.2.1, view.2.2, cut, whole]
      rfl
    exact iff_of_true ⟨state, returned.complete state⟩ (List.length_pos_iff.mpr empty)

/-- A head that announces three bytes of body. -/
def postThree : Head where
  requestLine := bytes "POST / HTTP/1.1"
  headerLines := [bytes "Content-Length: 3"]
  requestLine_free := by decide
  requestLine_parts := by decide
  headerLines_free := by decide
  headerLines_parts := by decide

theorem postThree_hasLength : postThree.HasLength 3 :=
  ⟨⟨by decide, by decide, by decide⟩, by decide⟩

theorem last_byte_completes_iff_three :
    ∃ mid result after,
      Feeds {} [postThree.text, bytes "ab"] mid ∧ Parses mid (bytes "c") result after ∧
        ((after.state = .complete ∧ result.success = true ∧ result.state = .complete) ↔
          0 < (bytes "abc").length) := by
  refine ⟨_, _, _, feeds_get 4 (by decide), parses_get 4 (by decide), ?_⟩
  exact last_byte_completes_iff postThree_hasLength (by decide) (by decide)
    (feeds_get 4 (by decide)) (parses_get 4 (by decide))

/-- A head that announces an empty body. -/
def postZero : Head where
  requestLine := bytes "POST / HTTP/1.1"
  headerLines := [bytes "Content-Length: 0"]
  requestLine_free := by decide
  requestLine_parts := by decide
  headerLines_free := by decide
  headerLines_parts := by decide

/-- A request with `Content-Length: 0` stays in `BODY` after its last byte. -/
theorem last_byte_leaves_empty_body :
    postZero.HasLength 0 ∧
      ∃ result after, Parses {} (postZero.text ++ []) result after ∧ after.state = .body :=
  ⟨⟨⟨by decide, by decide, by decide⟩, by decide⟩, _, _, parses_get 4 (by decide),
    by decide⟩

/-! ## The boundary of a message -/

/-- **Exact message boundary.**  One call with a message and anything after it leaves
exactly what comes after it unread, if and only if the message is not chunked. -/
theorem message_boundary_iff (message : Message) (rest : Bytes) :
    (∃ result after, Parses {} (message.text ++ rest) result after ∧
        after.state = .complete ∧ after.buffer = rest) ↔
      message.isChunked = false := by
  have nonempty : message.text ++ rest ≠ [] := by simp [message.text_ne_nil]
  rcases exists_parses_message message rest with ⟨result, after, parses, state, -, buffer⟩
  constructor
  · intro isExact
    rcases isExact with ⟨otherResult, other, otherParses, -, otherBuffer⟩
    rcases parses.unique nonempty otherParses with ⟨-, rfl⟩
    have length := congrArg List.length (buffer.symm.trans otherBuffer)
    by_contra chunked
    simp [Message.unread, chunked] at length
  · intro unchunked
    refine ⟨result, after, parses, state, ?_⟩
    rw [buffer, Message.unread, unchunked]
    rfl

def chunkedGet : Head where
  requestLine := bytes "GET / HTTP/1.1"
  headerLines := [bytes "Transfer-Encoding: chunked"]
  requestLine_free := by decide
  requestLine_parts := by decide
  headerLines_free := by decide
  headerLines_parts := by decide

/-- A chunked message without chunks leaves its last CRLF behind. -/
theorem message_boundary_chunked :
    ¬∃ result after,
      Parses {} ((Message.chunked chunkedGet (by decide) []).text ++ []) result after ∧
        after.state = .complete ∧ after.buffer = [] := by
  intro isExact
  rcases isExact with ⟨result, after, parses, -, buffer⟩
  rcases parses.unique (by decide) (parses_get 4 (by decide)) with ⟨-, rfl⟩
  exact absurd buffer (by decide)

/-! ## Two messages in a row -/

/-- Parse a message, take the request, reset, and parse the next one. -/
def ParsesInTurn (a b : Bytes) (request : HttpRequest) : Prop :=
  ∃ result first, Parses {} a result first ∧ first.state = .complete ∧
    ∃ result after, Parses first.getRequest.2.reset b result after ∧
      after.state = .complete ∧ after.request = some request

/-- **Bytes between two requests.**  Two messages, the second without chunks, arrive as
`a` and `b`, the first of them within `a`.  The second request is parsed as it was sent
exactly when `b` starts with a message for that request: all of the second message, or
what is left of it, if that happens to be one. -/
theorem parses_in_turn_iff (first second : Message)
    (secondUnchunked : second.isChunked = false) (cut : a ++ b = first.text ++ second.text)
    (within : first.text <+: a) (nonempty : b ≠ []) :
    ParsesInTurn a b second.request ↔
      ∃ (message : Message) (rest : Bytes), b = message.text ++ rest ∧
        message.request = second.request := by
  rcases within with ⟨taken, rfl⟩
  rcases exists_parses_message first taken with ⟨result, parser, parses, state, -, -⟩
  constructor
  · intro inTurn
    rcases inTurn with ⟨-, other, -, -, result, after, parsesNext, nextState, nextRequest⟩
    have view := parsesNext.view nonempty (.reset _)
    have settled := (parsesNext.invariant (.reset _) (settled_reset _)).2
    rw [view_reset, Reader.feed] at view
    have phase : (Reader.readAll {} b).phase = .complete after.buffer := by
      rw [← Reader.settle_phase_complete, ← view, view_of_complete nextState]
    have request : (Reader.readAll {} b).request = some second.request := by
      rw [← Reader.settle_request, ← view, view_request settled, nextRequest]
    exact Reader.exists_message secondUnchunked phase request
  · intro whole
    rcases whole with ⟨message, rest, rfl, same⟩
    have view : (HttpParser.view parser.getRequest.2.reset).readAll (message.text ++ rest) =
        ⟨.complete (message.unread ++ rest), some message.request, message.isChunked⟩ := by
      rw [view_reset, message.readAll_text]
    obtain ⟨resultNext, after, parsesNext, stateNext, requestNext, -⟩ :=
      exists_parses_of_complete nonempty (.reset _) (settled_reset _) view
    exact ⟨result, parser, parses, state, resultNext, after, parsesNext, stateNext,
      by rw [requestNext, same]⟩

def plainGet : Head where
  requestLine := bytes "GET / HTTP/1.1"
  headerLines := []
  requestLine_free := by decide
  requestLine_parts := by decide
  headerLines_free := by decide
  headerLines_parts := by decide

/-- The same request after two blanks. -/
def indentedGet : Head where
  requestLine := bytes "  GET / HTTP/1.1"
  headerLines := []
  requestLine_free := by decide
  requestLine_parts := by decide
  headerLines_free := by decide
  headerLines_parts := by decide

/-- The blanks of the second message come with the first one, and are not missed. -/
theorem parses_in_turn_iff_indentedGet :
    ParsesInTurn (plainGet.text ++ bytes "  ") plainGet.text indentedGet.request := by
  apply (parses_in_turn_iff (.bodyless plainGet (by decide)) (.bodyless indentedGet (by decide))
    rfl (by decide) (List.prefix_append _ _) (by decide)).mpr
  exact ⟨.bodyless plainGet (by decide), [], (List.append_nil _).symm, by decide⟩

/-- Two bytes of the second request that arrive with the first one are lost. -/
theorem parses_in_turn_loses_bytes :
    (plainGet.text ++ bytes "GE") ++ bytes "T / HTTP/1.1\r\n\r\n" =
        (Message.bodyless plainGet (by decide)).text ++
          (Message.bodyless plainGet (by decide)).text ∧
      ¬ParsesInTurn (plainGet.text ++ bytes "GE") (bytes "T / HTTP/1.1\r\n\r\n")
        (Message.bodyless plainGet (by decide)).request := by
  refine ⟨by decide, ?_⟩
  intro inTurn
  rcases inTurn with ⟨_, first, parses, -, _, after, parsesNext, state, -⟩
  rcases parses.unique (by decide) (parses_get 4 (by decide)) with ⟨-, rfl⟩
  rcases parsesNext.unique (by decide) (parses_get 4 (by decide)) with ⟨-, rfl⟩
  exact absurd state (by decide)

end HttpParser

end PPServer.Http
