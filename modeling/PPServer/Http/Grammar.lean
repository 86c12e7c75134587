import PPServer.Http.Reader

/-!
# Requests on the wire

The language the parser is meant to read, as data: heads, chunks and whole messages
that carry the proofs of their own well-formedness, their bytes, and the request each
of them describes.  Nothing here refers to a run of the parser.  The reader meets the
language at `readAll_head` and `Message.readAll_text`; in the other direction,
whatever takes a new reader past the header starts with a head (`exists_head`).
-/

namespace PPServer.Http

/-! ## Heads -/

/-- A request line and header lines that the parser accepts. -/
structure Head where
  requestLine : Bytes
  headerLines : List Bytes
  requestLine_free : CRLFFree requestLine
  requestLine_parts : (requestLineOf requestLine).isSome
  headerLines_free : ∀ line ∈ headerLines, CRLFFree line
  headerLines_parts : ∀ line ∈ headerLines, (headerOf line).isSome

/-- The request with the field of one more header line. -/
def HttpRequest.withHeaderLine (request : HttpRequest) (line : Bytes) : HttpRequest :=
  match headerOf line with
  | some header => request.addHeader header.1 header.2
  | none => request

namespace Head

/-- The head without the empty line that ends it. -/
def openText (head : Head) : Bytes :=
  head.requestLine ++ crlf ++ head.headerLines.flatMap (· ++ crlf)

def text (head : Head) : Bytes := head.openText ++ crlf

/-- The request a head describes. -/
def request (head : Head) : HttpRequest :=
  head.headerLines.foldl HttpRequest.withHeaderLine
    (({} : HttpRequest).withRequestLine
      ((requestLineOf head.requestLine).get head.requestLine_parts))

/-- The `Content-Length` of the head is a plain decimal numeral. -/
structure HasLength (head : Head) (length : Nat) : Prop where
  numeral : IsNumeral 10 (head.request.getHeader (bytes "Content-Length")) length
  fits : length < sizeModulus

end Head

@[simp] theorem HttpRequest.withHeaderLine_body (request : HttpRequest) (line : Bytes) :
    (request.withHeaderLine line).body = request.body := by
  simp only [withHeaderLine]
  split <;> rfl

theorem HttpRequest.foldl_withHeaderLine_body (lines : List Bytes) (request : HttpRequest) :
    (lines.foldl withHeaderLine request).body = request.body := by
  induction lines generalizing request with
  | nil => rfl
  | cons line lines ih => rw [List.foldl_cons, ih, withHeaderLine_body]

@[simp] theorem Head.request_body (head : Head) : head.request.body = [] := by
  rw [Head.request, HttpRequest.foldl_withHeaderLine_body]
  rfl

@[simp] theorem HttpRequest.framing_appendBody (request : HttpRequest) (data : Bytes) :
    (request.appendBody data).framing = request.framing := rfl

/-- A plain numeral is read as the length it denotes. -/
theorem Head.HasLength.framing {head : Head} {length : Nat} (hasLength : head.HasLength length) :
    head.request.framing = .length length := by
  rcases hasLength with ⟨numeral, fits⟩
  simp [HttpRequest.framing, numeral.nonempty, stoul_numeral (by decide) numeral fits]

/-! ## Chunks and messages -/

/-- A chunk that is not the last one: a size line and data of that size. -/
structure Chunk where
  size : Bytes
  data : Bytes
  nonempty : data ≠ []
  numeral : IsNumeral 16 size data.length
  fits : data.length < sizeModulus

namespace Chunk

/-- The chunk up to the end of its data. -/
def openText (chunk : Chunk) : Bytes := chunk.size ++ crlf ++ chunk.data

def text (chunk : Chunk) : Bytes := chunk.openText ++ crlf

end Chunk

/-- The zero chunk and the empty line that end a chunked body. -/
def lastChunk : Bytes := bytes "0" ++ crlf ++ crlf

/-- The contents of a chunked body. -/
def chunkedData (chunks : List Chunk) : Bytes := chunks.flatMap Chunk.data

def chunkedText (chunks : List Chunk) : Bytes := chunks.flatMap Chunk.text

/-- A request in full, with one of the three ways of delimiting its body. -/
inductive Message where
  | bodyless (head : Head) (framing : head.request.framing = .none)
  | counted (head : Head) (body : Bytes) (nonempty : body ≠ [])
      (hasLength : head.HasLength body.length)
  | chunked (head : Head) (framing : head.request.framing = .chunked) (chunks : List Chunk)

namespace Message

def text : Message → Bytes
  | bodyless head _ => head.text
  | counted head body _ _ => head.text ++ body
  | chunked head _ chunks => head.text ++ chunkedText chunks ++ lastChunk

/-- The request a message describes. -/
def request : Message → HttpRequest
  | bodyless head _ => head.request
  | counted head body _ _ => head.request.appendBody body
  | chunked head _ chunks => head.request.appendBody (chunkedData chunks)

def isChunked : Message → Bool
  | bodyless _ _ => false
  | counted _ _ _ _ => false
  | chunked _ _ _ => true

theorem text_ne_nil (message : Message) : message.text ≠ [] := by
  cases message <;> simp [text, Head.text]

/-- What a reader takes for surplus although it belongs to the message. -/
def unread (message : Message) : Bytes := if message.isChunked then crlf else []

end Message

/-! ## Reading a head -/

namespace Reader

variable {chunked : Bool} {request : HttpRequest} {text : Bytes}

theorem readAll_headerLines {lines : List Bytes} (free : ∀ line ∈ lines, CRLFFree line)
    (parts : ∀ line ∈ lines, (headerOf line).isSome) :
    readAll ⟨.line .header [], some request, chunked⟩ (lines.flatMap (· ++ crlf)) =
      ⟨.line .header [], some (lines.foldl HttpRequest.withHeaderLine request), chunked⟩ := by
  induction lines generalizing request with
  | nil => rfl
  | cons line lines ih =>
      rcases Option.isSome_iff_exists.mp (parts line (by simp)) with ⟨header, accepted⟩
      have notEmpty : line ≠ [] := by
        intro equal
        subst equal
        cases accepted
      rw [List.flatMap_cons, readAll_append, readAll_line rfl (free line (by simp))]
      have next : endLine ⟨.line .header [], some request, chunked⟩ .header line =
          ⟨.line .header [], some (request.withHeaderLine line), chunked⟩ := by
        simp [endLine, notEmpty, accepted, HttpRequest.withHeaderLine]
      rw [next, List.foldl_cons]
      exact ih (fun line member => free line (by simp [member]))
        fun line member => parts line (by simp [member])

/-- A head up to its empty line. -/
theorem readAll_head_openText (head : Head) :
    readAll {} head.openText = ⟨.line .header [], some head.request, false⟩ := by
  have requestLine : readAll {} (head.requestLine ++ crlf) =
      ⟨.line .header [],
        some (({} : HttpRequest).withRequestLine
          ((requestLineOf head.requestLine).get head.requestLine_parts)), false⟩ := by
    rw [readAll_line rfl head.requestLine_free]
    rcases Option.isSome_iff_exists.mp head.requestLine_parts with ⟨parts, accepted⟩
    simp [endLine, accepted]
  rw [Head.openText, readAll_append, requestLine,
    readAll_headerLines head.headerLines_free head.headerLines_parts]
  rfl

/-- The empty line that ends a head. -/
theorem readAll_head (head : Head) :
    readAll {} head.text =
      endHeader ⟨.line .header [], some head.request, false⟩ head.request := by
  rw [Head.text, readAll_append, readAll_head_openText, ← List.nil_append crlf,
    readAll_line rfl Delimiter.free_nil]
  rfl

theorem readAll_head_length {head : Head} {length : Nat} (hasLength : head.HasLength length) :
    readAll {} head.text = ⟨.body length, some head.request, false⟩ := by
  rw [readAll_head, endHeader, hasLength.framing]

theorem readAll_head_chunked {head : Head} (framing : head.request.framing = .chunked) :
    readAll {} head.text = ⟨.line (.chunkSize false) [], some head.request, true⟩ := by
  rw [readAll_head, endHeader, framing]

/-! ## Reading chunks and messages -/

theorem free_of_numeral {base value : Nat} {digits : Bytes} (small : base ≤ 36)
    (numeral : IsNumeral base digits value) : CRLFFree digits := by
  intro occurs
  have carriageReturn : cr ∈ digits := occurs.subset (by simp)
  have notSpace := isDigit_not_space small (numeral.isDigit cr carriageReturn)
  simp at notSpace

/-- A size line is followed by data of this size. -/
theorem readAll_sizeLine {line : Bytes} {size : Nat} (free : CRLFFree line)
    (reads : stoul line 16 = .ok size) (positive : size ≠ 0) :
    readAll ⟨.line (.chunkSize false) [], some request, chunked⟩ (line ++ crlf) =
      ⟨.chunkData size, some request, chunked⟩ := by
  rw [readAll_line rfl free]
  simp only [endLine, Bool.false_eq_true, false_and, if_false, reads, positive]

/-- A size line of size zero ends the body. -/
theorem readAll_zeroLine {line rest : Bytes} (free : CRLFFree line)
    (reads : stoul line 16 = .ok 0) :
    readAll ⟨.line (.chunkSize false) [], some request, chunked⟩ (line ++ crlf ++ rest) =
      ⟨.complete rest, some request, chunked⟩ := by
  rw [readAll_append, readAll_line rfl free]
  simp only [endLine, Bool.false_eq_true, false_and, if_false, reads, if_true]
  rw [readAll_complete rfl, List.nil_append]

/-- A line that is read as the size of the data after it, and these data. -/
theorem readAll_sizedData {line data : Bytes} (free : CRLFFree line)
    (reads : stoul line 16 = .ok data.length) (nonempty : data ≠ []) :
    readAll ⟨.line (.chunkSize false) [], some request, chunked⟩ (line ++ crlf ++ data) =
      ⟨.line (.chunkSize true) [], some (request.appendBody data), chunked⟩ := by
  have positive : data.length ≠ 0 := by simpa using nonempty
  rw [readAll_append, readAll_sizeLine free reads positive, readAll_chunkData_eq rfl rfl nonempty]

theorem readAll_chunk_openText (chunk : Chunk) :
    readAll ⟨.line (.chunkSize false) [], some request, chunked⟩ chunk.openText =
      ⟨.line (.chunkSize true) [], some (request.appendBody chunk.data), chunked⟩ :=
  readAll_sizedData (free_of_numeral (by decide) chunk.numeral)
    (stoul_numeral (by decide) chunk.numeral chunk.fits) chunk.nonempty

theorem readAll_chunk (chunk : Chunk) :
    readAll ⟨.line (.chunkSize false) [], some request, chunked⟩ chunk.text =
      ⟨.line (.chunkSize false) [], some (request.appendBody chunk.data), chunked⟩ := by
  rw [Chunk.text, readAll_append, readAll_chunk_openText, ← List.append_nil crlf,
    readAll_skip, readAll_nil]

/-- Pieces of a chunked body that are each read up to the next size line. -/
theorem readAll_flatMap {α : Type} {text data : α → Bytes} (each : ∀ request item,
      readAll ⟨.line (.chunkSize false) [], some request, chunked⟩ (text item) =
        ⟨.line (.chunkSize false) [], some (request.appendBody (data item)), chunked⟩)
    (items : List α) :
    readAll ⟨.line (.chunkSize false) [], some request, chunked⟩ (items.flatMap text) =
      ⟨.line (.chunkSize false) [], some (request.appendBody (items.flatMap data)), chunked⟩ := by
  induction items generalizing request with
  | nil => simp
  | cons item items ih =>
      rw [List.flatMap_cons, readAll_append, each, ih]
      simp

theorem readAll_chunks (chunks : List Chunk) :
    readAll ⟨.line (.chunkSize false) [], some request, chunked⟩ (chunkedText chunks) =
      ⟨.line (.chunkSize false) [], some (request.appendBody (chunkedData chunks)), chunked⟩ :=
  readAll_flatMap (fun _ chunk => readAll_chunk chunk) chunks

/-- The zero chunk ends the body; its empty line is not read. -/
theorem readAll_lastChunk :
    readAll ⟨.line (.chunkSize false) [], some request, chunked⟩ lastChunk =
      ⟨.complete crlf, some request, chunked⟩ :=
  readAll_zeroLine (by decide) (by decide)

end Reader

/-- A new reader takes a message to its end, but for the last CRLF of a chunked one. -/
theorem Message.readAll_text (message : Message) (rest : Bytes) :
    Reader.readAll {} (message.text ++ rest) =
      ⟨.complete (message.unread ++ rest), some message.request, message.isChunked⟩ := by
  rw [Reader.readAll_append]
  cases message with
  | bodyless head framing =>
      rw [text, Reader.readAll_head, Reader.endHeader, framing]
      rw [Reader.readAll_complete rfl]
      rfl
  | counted head body nonempty hasLength =>
      rw [text, Reader.readAll_append, Reader.readAll_head_length hasLength,
        Reader.readAll_body_eq rfl rfl nonempty]
      rw [Reader.readAll_complete rfl]
      rfl
  | chunked head framing chunks =>
      rw [text, Reader.readAll_append, Reader.readAll_append,
        Reader.readAll_head_chunked framing, Reader.readAll_chunks, Reader.readAll_lastChunk]
      rw [Reader.readAll_complete rfl]
      rfl

/-! ## Every accepted header is a head -/

/-- The header has been read and was accepted. -/
def Phase.PastHeader : Phase → Prop
  | .line (.chunkSize _) _ | .body _ | .chunkData _ | .complete _ => True
  | .line .request _ | .line .header _ | .failed | .fault => False

namespace Reader

theorem exists_headerLines {request : HttpRequest} {chunked : Bool} {text : Bytes}
    (past : (readAll ⟨.line .header [], some request, chunked⟩ text).phase.PastHeader) :
    ∃ (lines : List Bytes) (rest : Bytes), text = lines.flatMap (· ++ crlf) ++ crlf ++ rest ∧
      (∀ line ∈ lines, CRLFFree line) ∧ ∀ line ∈ lines, (headerOf line).isSome := by
  induction text using Delimiter.lines_induction cr_ne_lf generalizing request with
  | unended text free =>
      rw [readAll_openLine rfl free] at past
      exact past.elim
  | line line rest free ih =>
      by_cases empty : line = []
      · exact ⟨[], rest, by simp [empty], by simp, by simp⟩
      · rw [readAll_line_append rfl free] at past
        cases header : headerOf line with
        | none =>
            simp only [endLine, empty, if_false, header] at past
            rw [readAll_failed rfl] at past
            exact past.elim
        | some fields =>
            simp only [endLine, empty, if_false, header] at past
            obtain ⟨lines, tail, rfl, linesFree, linesParts⟩ := ih rest le_rfl past
            refine ⟨line :: lines, tail, by simp, ?_, ?_⟩
            · simpa using ⟨free, linesFree⟩
            · simpa [header] using linesParts

/-- Whatever takes a new reader past the header starts with a head. -/
theorem exists_head {text : Bytes} (past : (readAll {} text).phase.PastHeader) :
    ∃ (head : Head) (rest : Bytes), text = head.text ++ rest := by
  cases Delimiter.begins cr_ne_lf text with
  | unended free =>
      rw [readAll_openLine rfl free] at past
      exact past.elim
  | @line line rest free =>
      rw [readAll_line_append rfl free] at past
      cases accepted : requestLineOf line with
      | none =>
          simp only [endLine, accepted] at past
          rw [readAll_failed rfl] at past
          exact past.elim
      | some fields =>
          simp only [endLine, accepted] at past
          rcases exists_headerLines past with ⟨lines, tail, rfl, linesFree, linesParts⟩
          exact
            ⟨{ requestLine := line
               headerLines := lines
               requestLine_free := free
               requestLine_parts := by simp [accepted]
               headerLines_free := linesFree
               headerLines_parts := linesParts },
              tail, by simp [Head.text, Head.openText]⟩

end Reader

end PPServer.Http
