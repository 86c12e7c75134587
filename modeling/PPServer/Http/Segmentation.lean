import PPServer.Http.Grammar
import PPServer.Http.Observation

/-!
# Packet boundaries

The bytes of a connection arrive in pieces, and each piece is one call of `Parse`.
Without chunks the pieces make no difference.  With chunks one kind of cut does: after
the data of a chunk and before its CRLF.  The parser forgets at the end of the call
that the data has ended, and takes the CRLF for an empty size line.
-/

namespace PPServer.Http

/-! ## Where the data of a chunk ends -/

/-- The bytes are the beginning of a chunked message up to the end of the data of one
of its chunks. -/
def EndsData (head : Head) (chunks : List Chunk) (front : Bytes) : Prop :=
  ∃ before chunk rest, chunks = before ++ chunk :: rest ∧
    front = head.text ++ chunkedText before ++ chunk.openText

/-- The pieces are cut between the data of a chunk and the CRLF that ends it. -/
def CutsAfterData (head : Head) (chunks : List Chunk) (pieces : List Bytes) : Prop :=
  ∃ earlier later, pieces = earlier ++ later ∧ EndsData head chunks earlier.flatten

namespace Reader

variable {head : Head} {chunks : List Chunk} {front back : Bytes}

theorem readAll_endsData (framing : head.request.framing = .chunked)
    (ends : EndsData head chunks front) :
    ∃ request, readAll {} front = ⟨.line (.chunkSize true) [], some request, true⟩ := by
  rcases ends with ⟨before, chunk, rest, -, rfl⟩
  exact ⟨_, by rw [readAll_append, readAll_append, readAll_head_chunked framing, readAll_chunks,
    readAll_chunk_openText]⟩

/-- No chunk is read before the end of the header. -/
theorem chunked_readAll_head {more : Bytes} (begins : front ++ more = head.openText ++ [cr]) :
    (readAll {} front).chunked = false := by
  have whole : (readAll {} (front ++ more)).chunked = false := by
    rw [begins, readAll_append, readAll_head_openText, readAll_openLine rfl (by decide)]
  by_contra selected
  rw [Bool.not_eq_false] at selected
  have keeps := ((sound_fresh.readAll front).1.readAll more).2 selected
  rw [← readAll_append, whole] at keeps
  cases keeps

theorem exists_chunk_of_afterData {request : HttpRequest} {chunked : Bool}
    (equal : front ++ back = chunkedText chunks ++ lastChunk)
    (phase : (readAll ⟨.line (.chunkSize false) [], some request, chunked⟩ front).phase =
      .line (.chunkSize true) []) :
    ∃ before chunk rest, chunks = before ++ chunk :: rest ∧
      front = chunkedText before ++ chunk.openText := by
  induction chunks generalizing request front with
  | nil =>
      have line : front ++ back = bytes "0" ++ cr :: lf :: crlf := by
        simpa [chunkedText, lastChunk] using equal
      rcases Delimiter.free_or_exists_of_append_eq cr_ne_lf (by decide) line with
        free | ⟨more, rfl, -⟩
      · rw [readAll_openLine rfl free] at phase
        cases phase
      · have split : bytes "0" ++ cr :: lf :: more = (bytes "0" ++ crlf) ++ more := by simp
        rw [split, readAll_zeroLine (by decide) (by decide)] at phase
        cases phase
  | cons chunk chunks ih =>
      have line : front ++ back =
          chunk.size ++ cr :: lf ::
            (chunk.data ++ (crlf ++ (chunkedText chunks ++ lastChunk))) := by
        simpa [chunkedText, Chunk.text, Chunk.openText] using equal
      have free := free_of_numeral (by decide) chunk.numeral
      rcases Delimiter.free_or_exists_of_append_eq cr_ne_lf free line with
        free | ⟨more, rfl, inData⟩
      · rw [readAll_openLine rfl free] at phase
        cases phase
      -- The size line has been read; `more` begins in the data.
      have split : chunk.size ++ cr :: lf :: more = (chunk.size ++ crlf) ++ more := by simp
      rcases List.append_eq_append_iff.mp inData with ⟨missing, data, -⟩ | ⟨past, rfl, afterData⟩
      · by_cases whole : missing = []
        · refine ⟨[], chunk, chunks, rfl, ?_⟩
          simp [chunkedText, Chunk.openText, data, whole]
        · have short : more.length < chunk.data.length := by
            rw [data, List.length_append]
            have := List.length_pos_iff.mpr whole
            omega
          have read := stoul_numeral (by decide) chunk.numeral chunk.fits
          have positive : chunk.data.length ≠ 0 := by simpa using chunk.nonempty
          rw [split, readAll_append, readAll_sizeLine free read positive,
            readAll_chunkData_lt rfl rfl short] at phase
          cases phase
      · have openText : chunk.size ++ cr :: lf :: (chunk.data ++ past) =
            chunk.openText ++ past := by
          simp [Chunk.openText]
        rw [openText, readAll_append, readAll_chunk_openText] at phase
        rcases past with _ | ⟨first, _ | ⟨second, past⟩⟩
        · exact ⟨[], chunk, chunks, rfl, by simp [chunkedText, Chunk.openText]⟩
        · rcases List.cons.inj afterData with ⟨rfl, -⟩
          rw [readAll_openLine rfl (by decide)] at phase
          cases phase
        · rcases List.cons.inj afterData with ⟨rfl, afterReturn⟩
          rcases List.cons.inj afterReturn with ⟨rfl, rest⟩
          have skip : cr :: lf :: past = crlf ++ past := rfl
          rw [skip, readAll_skip] at phase
          rcases ih rest.symm phase with ⟨before, last, others, rfl, rfl⟩
          exact ⟨chunk :: before, last, others, rfl, by
            simp [chunkedText, Chunk.text, Chunk.openText]⟩

/-- A reader is after the data of a chunk only where the data of a chunk ends. -/
theorem endsData_of_afterData (framing : head.request.framing = .chunked)
    (equal : front ++ back = head.text ++ chunkedText chunks ++ lastChunk)
    (phase : (readAll {} front).phase = .line (.chunkSize true) []) :
    EndsData head chunks front := by
  have selected : (readAll {} front).chunked = true :=
    (sound_fresh.readAll front).1 (by simp [state, phase])
  rw [List.append_assoc, List.append_eq_append_iff] at equal
  rcases equal with ⟨missing, whole, -⟩ | ⟨more, rfl, inBody⟩
  · rcases List.eq_nil_or_concat missing with rfl | ⟨begun, last, rfl⟩
    · rw [List.append_nil] at whole
      rw [← whole, readAll_head_chunked framing] at phase
      cases phase
    · have cutOff : (head.openText ++ [cr]) ++ [lf] = (front ++ begun) ++ [last] := by
        simpa [Head.text] using whole
      rw [chunked_readAll_head (List.append_inj' cutOff rfl).1.symm] at selected
      cases selected
  · rw [readAll_append, readAll_head_chunked framing] at phase
    rcases exists_chunk_of_afterData inBody.symm phase with ⟨before, chunk, rest, split, rfl⟩
    exact ⟨before, chunk, rest, split, by simp⟩

/-- A reader that settling changes, and that is not inside a line, has just read the data
of a chunk. -/
theorem phase_of_not_settled {reader : Reader} (outside : ¬reader.InsideLine)
    (unsettled : reader.settle ≠ reader) : reader.phase = .line (.chunkSize true) [] := by
  simp only [settle] at unsettled
  split at unsettled
  next afterData seen phase =>
      obtain rfl : seen = [] := by
        by_contra some
        exact outside ⟨_, seen, phase, some⟩
      cases afterData with
      | true => exact phase
      | false => exact absurd (by rw [← phase]) unsettled
  next => exact absurd rfl unsettled

end Reader

namespace HttpParser

variable {head : Head} {chunks : List Chunk} {parser next after whole : HttpParser}
variable {front piece text : Bytes} {pieces : List Bytes} {result : ParseResult}

/-! ## Without chunks -/

/-- The views of two runs of calls over the same bytes are the same, so all members
that depend on the bytes are. -/
theorem same_members_of_view (invariant : after.Invariant) (settled : after.Settled)
    (wholeInvariant : whole.Invariant) (wholeSettled : whole.Settled)
    (view : after.view = whole.view)
    (count : whole.state ≠ .error →
      (after.totalBytesParsed + after.buffer.length) % sizeModulus =
        (whole.totalBytesParsed + whole.buffer.length) % sizeModulus) :
    after.state = whole.state ∧ after.request = whole.request ∧
      (whole.state ≠ .error →
        after.buffer = whole.buffer ∧ after.totalBytesParsed = whole.totalBytesParsed) := by
  have state : after.state = whole.state := by
    rw [← view_state settled, view, view_state wholeSettled]
  have request : after.request = whole.request := by
    rw [← view_request settled, view, view_request wholeSettled]
  refine ⟨state, request, fun alive => ?_⟩
  have buffer : after.buffer = whole.buffer := by
    rw [← view_surplus settled (by rwa [state]), view, view_surplus wholeSettled alive]
  refine ⟨buffer, ?_⟩
  have sums := count alive
  have counted := invariant.counted
  have wholeCounted := wholeInvariant.counted
  rw [buffer] at sums
  simp only [sizeModulus] at sums counted wholeCounted
  omega

/-- **Requests without chunks do not depend on packet boundaries.**  If the call with
all the bytes does not enter `CHUNKED_BODY`, the pieces lead to the same state and the
same request, and unless that state is `ERROR` to the same unread bytes and the same
byte count. -/
theorem unchunked_pieces (cut : pieces.flatten = text)
    (nonempty : ∀ piece ∈ pieces, piece ≠ []) (feeds : Feeds {} pieces after)
    (parses : Parses {} text result whole) (never : ¬EntersChunkedBody {} text) :
    after.state = whole.state ∧ after.request = whole.request ∧
      (whole.state ≠ .error →
        after.buffer = whole.buffer ∧ after.totalBytesParsed = whole.totalBytesParsed) := by
  rcases parses.invariant .fresh settled_fresh with ⟨wholeInvariant, wholeSettled⟩
  subst cut
  by_cases empty : pieces.flatten = []
  · -- Then there are no pieces, and both parsers are new.
    rw [empty] at parses
    rcases parses_nil_iff.mp parses with ⟨-, rfl⟩
    cases feeds with
    | nil => exact ⟨rfl, rfl, fun _ => ⟨rfl, rfl⟩⟩
    | @cons _ next _ piece pieces _ _ _ => exact absurd empty (by simp [nonempty piece])
  · have single : Feeds {} [pieces.flatten] whole := .cons parses (.nil whole)
    have singleNonempty : ∀ piece ∈ [pieces.flatten], piece ≠ [] := by simpa using empty
    have unset := parses.chunkedEncoding empty rfl never
    have wholeView := parses.view empty .fresh
    have unchunked : (Reader.readAll {} pieces.flatten).chunked = false := by
      have read := view_chunked wholeSettled
      rwa [wholeView, view_fresh, Reader.feed, Reader.settle_chunked, unset] at read
    rcases feeds.view_of_unchunked nonempty unchunked with ⟨invariant, settled, view⟩
    have sameView : after.view = whole.view := by
      rw [view, wholeView, view_fresh, Reader.feed,
        Reader.settle_of_unchunked (Reader.sound_fresh.readAll _).1 unchunked]
    apply same_members_of_view invariant settled wholeInvariant wholeSettled sameView
    intro alive
    have afterAlive : after.state ≠ .error := by
      rwa [← view_state settled, sameView, view_state wholeSettled]
    rw [feeds.count nonempty .fresh settled_fresh afterAlive,
      single.count singleNonempty .fresh settled_fresh alive]
    simp

/-- A body with a CRLF in it and a surplus byte, cut at the end of the header and
between the bytes of that CRLF. -/
theorem unchunked_pieces_post :
    ∃ after result whole,
      Feeds {} [bytes "POST / HTTP/1.1\r\nContent-Length: 5\r\n\r\n", bytes "a\r",
          bytes "\nbcX"] after ∧
        Parses {} (bytes "POST / HTTP/1.1\r\nContent-Length: 5\r\n\r\na\r\nbcX") result whole ∧
        after.state = whole.state ∧ after.request = whole.request ∧
        (whole.state ≠ .error →
          after.buffer = whole.buffer ∧ after.totalBytesParsed = whole.totalBytesParsed) := by
  have parses : Parses {}
      (bytes "POST / HTTP/1.1\r\nContent-Length: 5\r\n\r\na\r\nbcX") _ _ :=
    parses_get 4 (by decide)
  refine ⟨_, _, _, feeds_get 4 (by decide), parses, ?_⟩
  apply unchunked_pieces (by decide) (by decide) (feeds_get 4 (by decide)) parses
  rw [parses.entersChunkedBody_iff (by decide) .fresh settled_fresh rfl]
  decide

/-! ## With chunks -/

theorem not_endsData_of_settled (framing : head.request.framing = .chunked)
    (plain : (Reader.readAll {} front).settle = Reader.readAll {} front) :
    ¬EndsData head chunks front := by
  intro ends
  rcases Reader.readAll_endsData framing ends with ⟨request, reads⟩
  rw [reads] at plain
  simp [Reader.settle] at plain

/-- A call that starts with the CRLF after the data of a chunk fails, if it
returns. -/
theorem Parses.error_of_afterData {rest : Bytes} {request : HttpRequest}
    (parses : Parses parser piece result after) (nonempty : piece ≠ [])
    (invariant : parser.Invariant) (settled : parser.Settled)
    (view : parser.view = ⟨.line (.chunkSize false) [], some request, true⟩)
    (begins : ∃ later, piece ++ later = crlf ++ rest) : after.state = .error := by
  rcases begins with ⟨later, begins⟩
  rcases parses.spec nonempty invariant with ⟨returned, outside, -⟩
  have afterView := parses.view nonempty invariant
  have afterSettled := (parses.invariant invariant settled).2
  rw [view] at afterView outside
  match piece, nonempty, begins with
  | [first], _, begins =>
      rcases List.cons.inj begins with ⟨rfl, -⟩
      refine absurd ?_ outside
      rw [Reader.feed, Reader.insideLine_settle, Reader.readAll_openLine rfl (by decide)]
      exact ⟨_, _, rfl, by simp⟩
  | first :: second :: tail, _, begins =>
      rcases List.cons.inj begins with ⟨rfl, afterReturn⟩
      rcases List.cons.inj afterReturn with ⟨rfl, -⟩
      have split : cr :: lf :: tail = ([] ++ crlf) ++ tail := rfl
      have noDigits : stoul [] 16 = .error .invalidArgument := by decide
      rw [Reader.feed, split, Reader.readAll_append,
        Reader.readAll_line rfl Delimiter.free_nil] at afterView
      simp only [Reader.endLine, Bool.false_eq_true, false_and, if_false, noDigits] at afterView
      rw [Reader.readAll_failed rfl] at afterView
      rw [← view_state afterSettled, afterView]
      rfl

/-- Where the bytes before them do not end the data of a chunk, pieces are cut after data
if those after the first piece are, or the first piece ends there. -/
theorem cuts_cons_iff (framing : head.request.framing = .chunked)
    (plain : (Reader.readAll {} front).settle = Reader.readAll {} front) :
    (∃ earlier later, piece :: pieces = earlier ++ later ∧
        EndsData head chunks (front ++ earlier.flatten)) ↔
      ∃ earlier later, pieces = earlier ++ later ∧
        EndsData head chunks (front ++ piece ++ earlier.flatten) := by
  constructor
  · intro cutAfterData
    rcases cutAfterData with ⟨earlier, later, split, ends⟩
    rcases List.cons_eq_append_iff.mp split with ⟨rfl, -⟩ | ⟨earlier, rfl, split⟩
    · rw [List.flatten_nil, List.append_nil] at ends
      exact absurd ends (not_endsData_of_settled framing plain)
    · exact ⟨earlier, later, (List.cons.inj split).2, by simpa using ends⟩
  · intro cutAfterData
    rcases cutAfterData with ⟨earlier, later, split, ends⟩
    exact ⟨piece :: earlier, later, by simp [split], by simpa using ends⟩

/-- After a call that has ended with the data of a chunk, the calls for the rest of the
message lead to `ERROR`. -/
theorem Feeds.error_of_endsData (framing : head.request.framing = .chunked)
    (feeds : Feeds parser pieces after) (nonempty : ∀ piece ∈ pieces, piece ≠ [])
    (invariant : parser.Invariant) (settled : parser.Settled)
    (view : parser.view = (Reader.readAll {} front).settle)
    (ends : EndsData head chunks front)
    (equal : front ++ pieces.flatten = (Message.chunked head framing chunks).text) :
    after.state = .error := by
  rcases Reader.readAll_endsData framing ends with ⟨request, reads⟩
  rw [reads] at view
  rcases ends with ⟨before, chunk, rest, rfl, data⟩
  have remaining : pieces.flatten = crlf ++ (chunkedText rest ++ lastChunk) := by
    rw [data, Message.text] at equal
    simpa [chunkedText, Chunk.text, List.append_assoc] using equal
  cases feeds with
  | nil => simp at remaining
  | @cons _ next _ piece pieces _ fails feeds =>
      have first := nonempty piece (by simp)
      rcases fails.invariant invariant settled with ⟨nextInvariant, nextSettled⟩
      have error := fails.error_of_afterData first invariant settled view
        ⟨pieces.flatten, by simpa using remaining⟩
      exact feeds.error (fun piece member => nonempty piece (by simp [member])) nextInvariant
        nextSettled error

/-- The outcome of the calls for the rest of a chunked message, of which `front` has
been read. -/
theorem Feeds.chunked_outcome (framing : head.request.framing = .chunked)
    (feeds : Feeds parser pieces after) (nonempty : ∀ piece ∈ pieces, piece ≠ [])
    (invariant : parser.Invariant) (settled : parser.Settled)
    (view : parser.view = Reader.readAll {} front)
    (plain : (Reader.readAll {} front).settle = Reader.readAll {} front)
    (equal : front ++ pieces.flatten = (Message.chunked head framing chunks).text) :
    (∃ earlier later, pieces = earlier ++ later ∧
        EndsData head chunks (front ++ earlier.flatten)) ∧ after.state = .error ∨
      ¬(∃ earlier later, pieces = earlier ++ later ∧
        EndsData head chunks (front ++ earlier.flatten)) ∧
        after.state = .complete ∧
        after.request = some (head.request.appendBody (chunkedData chunks)) := by
  induction feeds generalizing front with
  | nil parser =>
      right
      constructor
      · intro cutAfterData
        rcases cutAfterData with ⟨earlier, later, none, ends⟩
        rcases List.append_eq_nil_iff.mp none.symm with ⟨rfl, rfl⟩
        rw [List.flatten_nil, List.append_nil] at ends
        exact not_endsData_of_settled framing plain ends
      · have read := (Message.chunked head framing chunks).readAll_text []
        rw [List.flatten_nil, List.append_nil] at equal
        rw [List.append_nil, ← equal, ← view] at read
        rw [← view_state settled, ← view_request settled, read]
        exact ⟨rfl, rfl⟩
  | @cons parser next after piece pieces result parses feeds ih =>
      have first : piece ≠ [] := nonempty piece (by simp)
      have others : ∀ piece ∈ pieces, piece ≠ [] :=
        fun piece member => nonempty piece (by simp [member])
      rcases parses.invariant invariant settled with ⟨nextInvariant, nextSettled⟩
      have outside := (parses.spec first invariant).2.1
      have nextView := parses.view first invariant
      rw [view, Reader.feed, ← Reader.readAll_append] at nextView outside
      rw [Reader.insideLine_settle] at outside
      rw [List.flatten_cons, ← List.append_assoc] at equal
      rw [cuts_cons_iff framing plain]
      by_cases nextPlain : (Reader.readAll {} (front ++ piece)).settle =
          Reader.readAll {} (front ++ piece)
      · exact ih others nextInvariant nextSettled (nextView.trans nextPlain) nextPlain equal
      · -- The call ends after the data of a chunk.
        have ends : EndsData head chunks (front ++ piece) :=
          Reader.endsData_of_afterData framing equal
            (Reader.phase_of_not_settled outside nextPlain)
        exact .inl ⟨⟨[], pieces, rfl, by simpa using ends⟩,
          feeds.error_of_endsData framing others nextInvariant nextSettled nextView ends equal⟩

/-- **Chunked bodies and packet boundaries.**  Given to a new parser in one call, a
chunked message is read to its end.  Given in pieces, calls that all return do the
same exactly when no piece ends between the data of a chunk and the CRLF after it. -/
theorem chunked_pieces_iff (framing : head.request.framing = .chunked)
    (cut : pieces.flatten = (Message.chunked head framing chunks).text)
    (nonempty : ∀ piece ∈ pieces, piece ≠ []) (feeds : Feeds {} pieces after) :
    ((∃ result whole, Parses {} (Message.chunked head framing chunks).text result whole ∧
          whole.state = .complete ∧ after.state = .complete ∧
          whole.request = some (head.request.appendBody (chunkedData chunks)) ∧
          after.request = whole.request) ↔
      ¬CutsAfterData head chunks pieces) := by
  obtain ⟨result, whole, parses, wholeState, wholeRequest, -⟩ :=
    exists_parses_message (Message.chunked head framing chunks) []
  rw [List.append_nil] at parses
  have outcome := feeds.chunked_outcome framing nonempty .fresh settled_fresh
    (view_fresh.trans (Reader.readAll_nil {}).symm) rfl (show [] ++ pieces.flatten = _ from cut)
  simp only [List.nil_append] at outcome
  rcases outcome with ⟨cuts, error⟩ | ⟨uncut, state, request⟩
  · refine iff_of_false ?_ fun uncut => uncut cuts
    intro whole
    rcases whole with ⟨-, -, -, -, complete, -⟩
    rw [error] at complete
    cases complete
  · refine iff_of_true ?_ uncut
    exact ⟨result, whole, parses, wholeState, state, wholeRequest,
      request.trans wholeRequest.symm⟩

/-- A head that selects the chunked framing. -/
def chunkedPost : Head where
  requestLine := bytes "POST /upload HTTP/1.1"
  headerLines := [bytes "Host: a", bytes "Transfer-Encoding: chunked"]
  requestLine_free := by decide
  requestLine_parts := by decide
  headerLines_free := by decide
  headerLines_parts := by decide

def chunkABC : Chunk where
  size := bytes "3"
  data := bytes "abc"
  nonempty := by decide
  numeral := ⟨by decide, by decide, by decide⟩
  fits := by decide

/-- A cut inside the data and one after the CRLF of the chunk. -/
theorem chunked_pieces_iff_abc :
    ∃ after,
      Feeds {} [chunkedPost.text ++ bytes "3\r\na", bytes "bc\r\n", bytes "0\r\n\r\n"] after ∧
      ((∃ result whole,
          Parses {} (Message.chunked chunkedPost (by decide) [chunkABC]).text result whole ∧
          whole.state = .complete ∧ after.state = .complete ∧
          whole.request =
            some (chunkedPost.request.appendBody (chunkedData [chunkABC])) ∧
          after.request = whole.request) ↔
        ¬CutsAfterData chunkedPost [chunkABC]
          [chunkedPost.text ++ bytes "3\r\na", bytes "bc\r\n", bytes "0\r\n\r\n"]) := by
  refine ⟨_, feeds_get 9 (by decide), ?_⟩
  exact chunked_pieces_iff _ (by decide) (by decide) (feeds_get 9 (by decide))

/-- The same message cut after the data of its chunk ends in `ERROR`. -/
theorem chunked_pieces_cut_after_data :
    [chunkedPost.text ++ bytes "3\r\nabc", bytes "\r\n0\r\n\r\n"].flatten =
        (Message.chunked chunkedPost (by decide) [chunkABC]).text ∧
      ∃ after,
        Feeds {} [chunkedPost.text ++ bytes "3\r\nabc", bytes "\r\n0\r\n\r\n"] after ∧
          after.state = .error :=
  ⟨by decide, _, feeds_get 9 (by decide), by decide⟩

end HttpParser

end PPServer.Http
