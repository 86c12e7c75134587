import PPServer.Http.BodyViews
import PPServer.Http.HeaderLines
import PPServer.Http.RequestLine
import PPServer.Http.RoundTrip

/-!
# Printing what has been read

A request that the parser has read is printed in another form than it came in: with single spaces
in its first line, without the blanks around its names and values, and with the header lines in the
order of a hash table.  Read again, it is the same request, unless the end of an empty body cannot
be told.
-/

namespace PPServer.Http

open Separator FiniteMap

/-- A name and a value that can be read off the line that `ToString` writes for them. -/
structure IsHeader (name value : Bytes) : Prop where
  noColon : colon ∉ name
  name_trimmed : Trimmed name
  value_trimmed : Trimmed value
  name_free : CRLFFree name
  value_free : CRLFFree value

variable {request : HttpRequest} {order : List (Σ _ : Bytes, Bytes)} {name value line : Bytes}

namespace IsHeader

theorem headerLine_eq (name value : Bytes) :
    headerLine ⟨name, value⟩ = name ++ colon :: 32 :: value := by
  simp [headerLine, show bytes ": " = [58, 32] by decide]

theorem headerOf_headerLine (isHeader : IsHeader name value) :
    headerOf (headerLine ⟨name, value⟩) = some (name, value) := by
  rw [headerLine_eq, headerOf_eq, if_pos (by simp), headerName, headerValue,
    before_append_cons isHeader.noColon, after_append_cons isHeader.noColon,
    trim_of_trimmed isHeader.name_trimmed, trim_blank_cons (by decide) isHeader.value_trimmed]

theorem headerLine_free (isHeader : IsHeader name value) :
    CRLFFree (headerLine ⟨name, value⟩) := by
  rw [headerLine_eq]
  have value_free : CRLFFree ([] ++ 32 :: value) :=
    Delimiter.free_nil.append_cons isHeader.value_free (by decide) (by decide)
  exact isHeader.name_free.append_cons value_free (by decide) (by decide)

/-- What a line is read for. -/
theorem of_line (member : colon ∈ line) (free : CRLFFree line) :
    IsHeader (headerName line) (headerValue line) where
  noColon inName := notMem_before colon line ((trim_isInfix _).subset inName)
  name_trimmed := trimmed_trim _
  value_trimmed := trimmed_trim _
  name_free := free.of_infix ((trim_isInfix _).trans (isPrefix_before colon line).isInfix)
  value_free := by
    have whole := eq_append_of_mem member
    have ends : after colon line <:+ line :=
      ⟨before colon line ++ [colon], by rw [List.append_assoc]; exact whole.symm⟩
    exact free.of_infix ((trim_isInfix _).trans ends.isInfix)

end IsHeader

/-! ## Requests that have been read -/

/-- What the parser has found in a request line and in header lines. -/
structure Legible (request : HttpRequest) : Prop where
  method : request.method ≠ .unknown
  version : request.version ≠ .unknown
  path : IsWord request.path
  headers : ∀ name value, request.headers.lookup name = some value → IsHeader name value
  indexes : Indexes toLower request.headers request.headersLowercase
  bare : request.bare =
    { method := request.method, path := request.path, version := request.version }

/-- Among names that differ only by case, the last one in the order has the value that
`GetHeader` gives for all of them. -/
def HttpRequest.KeepsLatest (request : HttpRequest) (order : List (Σ _ : Bytes, Bytes)) : Prop :=
  ∀ entry, IsLast toLower order entry → request.getHeader entry.1 = entry.2

namespace Legible

theorem withHeaderLine (legible : Legible request) (member : colon ∈ line)
    (free : CRLFFree line) : Legible (request.withHeaderLine line) := by
  rw [HttpRequest.withHeaderLine_of_mem member]
  refine ⟨legible.method, legible.version, legible.path, fun name value found => ?_,
    legible.indexes.insert _ _, legible.bare⟩
  rcases lookup_insert_eq_some_iff.mp found with ⟨rfl, rfl⟩ | ⟨-, earlier⟩
  · exact .of_line member free
  · exact legible.headers name value earlier

theorem foldl_withHeaderLine {lines : List Bytes} (legible : Legible request)
    (members : ∀ line ∈ lines, colon ∈ line) (free : ∀ line ∈ lines, CRLFFree line) :
    Legible (lines.foldl HttpRequest.withHeaderLine request) := by
  induction lines generalizing request with
  | nil => exact legible
  | cons line lines ih =>
      rw [List.forall_mem_cons] at members free
      exact ih (legible.withHeaderLine members.1 free.1) members.2 free.2

/-- The request of a request line alone. -/
theorem of_requestLine {method : Method} {path : Bytes} {version : Version}
    (accepted : requestLineOf line = some (method, path, version)) :
    Legible { method, path, version } := by
  rcases requestLineOf_eq_some_iff.mp accepted with
    ⟨methodText, versionText, more, split, ⟨-, known⟩, -, supported⟩
  have listed : path ∈ words isSpace line := by simp [split]
  exact ⟨known, supported, isSeparator_of_mem_words listed, by simp, indexes_empty toLower, rfl⟩

theorem of_head (head : Head) : Legible head.request := by
  rcases Option.isSome_iff_exists.mp head.requestLine_parts with ⟨parts, accepted⟩
  rw [Head.request]
  simp only [accepted, Option.get_some]
  exact (of_requestLine accepted).foldl_withHeaderLine
    (fun line member => headerOf_isSome_iff.mp (head.headerLines_parts line member))
    head.headerLines_free

/-! ### The lines it is printed on -/

theorem requestLine_printable (legible : Legible request) :
    Printable { method := request.method, path := request.path, version := request.version } where
  method := legible.method
  version := legible.version
  path := legible.path
  noQuery := rfl
  distinct _ member := absurd member Finmap.notMem_empty
  name_plain _ member := absurd member Finmap.notMem_empty
  name_trimmed _ member := absurd member Finmap.notMem_empty
  value_plain := by simp
  value_trimmed := by simp
  noTransferEncoding _ member := absurd member Finmap.notMem_empty
  length := .inl ⟨fun _ member => absurd member Finmap.notMem_empty, rfl⟩

theorem requestLineOf_requestLine (legible : Legible request) :
    requestLineOf (requestLine request) =
      some (request.method, request.path, request.version) :=
  legible.requestLine_printable.requestLineOf

theorem isHeader_of_mem (legible : Legible request) (isOrder : request.headers.IsOrder order)
    {entry : Σ _ : Bytes, Bytes} (member : entry ∈ order) : IsHeader entry.1 entry.2 :=
  legible.headers _ _ (mem_of_mem_order isOrder member)

/-- The head of the text. -/
def printed (legible : Legible request) (isOrder : request.headers.IsOrder order) : Head where
  requestLine := requestLine request
  headerLines := order.map headerLine
  requestLine_free := legible.requestLine_printable.requestLine_free
  requestLine_parts := by simp [legible.requestLineOf_requestLine]
  headerLines_free := by
    simp only [List.forall_mem_map]
    exact fun entry member => (legible.isHeader_of_mem isOrder member).headerLine_free
  headerLines_parts := by
    simp only [List.forall_mem_map]
    intro entry member
    rw [(legible.isHeader_of_mem isOrder member).headerOf_headerLine]
    rfl

theorem toString_eq (legible : Legible request) (isOrder : request.headers.IsOrder order)
    (data : Bytes) :
    (request.appendBody data).toString order =
      (legible.printed isOrder).text ++ (request.body ++ data) := by
  have noQuery : request.queryString = [] := congrArg HttpRequest.queryString legible.bare
  have lines : HttpRequest.headerText order =
      (order.map headerLine).flatMap (· ++ crlf) := by
    simp [HttpRequest.headerText, List.flatMap_map, headerLine]
  simp [HttpRequest.toString, HttpRequest.appendBody, Head.text, Head.openText, printed,
    requestLine, noQuery, lines, HttpRequest.getMethodString, HttpRequest.getVersionString]

/-- The lines of a table, read one after another, are entered in both tables. -/
theorem foldl_headerLine {entries : List (Σ _ : Bytes, Bytes)}
    (headers : ∀ entry ∈ entries, IsHeader entry.1 entry.2) (start : HttpRequest) :
    (entries.map headerLine).foldl HttpRequest.withHeaderLine start =
      { start with
        headers := start.headers.insertAll entries
        headersLowercase := entries.foldl
          (fun index entry => index.insert (toLower entry.1) entry.2) start.headersLowercase } := by
  induction entries generalizing start with
  | nil => rfl
  | cons entry entries ih =>
      rw [List.forall_mem_cons] at headers
      have first : start.withHeaderLine (headerLine entry) = start.addHeader entry.1 entry.2 := by
        rw [HttpRequest.withHeaderLine, headers.1.headerOf_headerLine]
      rw [List.map_cons, List.foldl_cons, first, ih headers.2]
      rfl

/-- The request of the head that is printed: its index is made in the order of the lines. -/
theorem printed_request (legible : Legible request) (isOrder : request.headers.IsOrder order) :
    (legible.printed isOrder).request =
      { request with
        body := []
        headersLowercase :=
          order.foldl (fun index entry => index.insert (toLower entry.1) entry.2) ∅ } := by
  have parts : (requestLineOf (legible.printed isOrder).requestLine).get
      (legible.printed isOrder).requestLine_parts =
        (request.method, request.path, request.version) := by
    simp [printed, legible.requestLineOf_requestLine]
  have headers : StringMap.insertAll ∅ order = request.headers := isOrder.insertAll_empty
  have others := legible.bare
  rw [Head.request, parts,
    show (legible.printed isOrder).headerLines = order.map headerLine from rfl,
    foldl_headerLine fun entry member => legible.isHeader_of_mem isOrder member]
  rcases request with ⟨method, path, version, queryString, table, index, body, params, parsed⟩
  simp only [HttpRequest.bare, HttpRequest.mk.injEq] at others
  simp_all [HttpRequest.withRequestLine, HttpRequest.setMethod, HttpRequest.setPath,
    HttpRequest.setVersion]

/-- The head that is printed is one of the same request exactly if the order is faithful. -/
theorem printed_request_eq_iff (legible : Legible request)
    (isOrder : request.headers.IsOrder order) (empty : request.body = []) :
    (legible.printed isOrder).request = request ↔ request.KeepsLatest order := by
  have latest : request.KeepsLatest order ↔
      ∀ entry, IsLast toLower order entry →
        request.headersLowercase.lookup (toLower entry.1) = some entry.2 := by
    refine forall_congr' fun entry => imp_congr_right fun isLast => ?_
    have listed : entry ∈ order := by
      rcases isLast with ⟨front, back, rfl, -⟩
      simp
    have member := Finmap.mem_iff.mpr ⟨_, mem_of_mem_order isOrder listed⟩
    rcases Finmap.mem_iff.mp (legible.indexes.covers _ member) with ⟨found, lookup⟩
    simp [HttpRequest.getHeader, lookup]
  rw [legible.printed_request isOrder, latest, ← legible.indexes.foldl_eq_iff isOrder]
  constructor
  · exact fun same => congrArg HttpRequest.headersLowercase same
  · intro same
    rw [same, ← empty]

end Legible

/-! ## Reading it again -/

namespace Reader

variable {reader : Reader} {text : Bytes}

def bodyLength (reader : Reader) : Nat :=
  (reader.request.map fun request => request.body.length).getD 0

theorem endLine_bodyLength (kind : LineKind) (line : Bytes) :
    (reader.endLine kind line).bodyLength = reader.bodyLength := by
  simp only [endLine, endHeader]
  cases kind <;> dsimp only <;> repeat' split
  all_goals simp_all [bodyLength, HttpRequest.withRequestLine, HttpRequest.setMethod,
    HttpRequest.setPath, HttpRequest.setVersion, HttpRequest.addHeader]

theorem readData_bodyLength (byte : Byte) (phase : Phase) :
    (reader.readData byte phase).bodyLength ≤ reader.bodyLength + 1 := by
  simp only [readData]
  split <;> simp_all [bodyLength]

/-- A byte adds at most itself to the body, and nothing if it belongs to a line. -/
theorem read_bodyLength (reader : Reader) (byte : Byte) :
    (reader.read byte).bodyLength ≤ reader.bodyLength + 1 ∧
      ((∃ kind seen, reader.phase = .line kind seen) →
        (reader.read byte).bodyLength = reader.bodyLength) := by
  simp only [Reader.read]
  split
  next kind seen phase =>
      split
      next => simp [endLine_bodyLength]
      next => simp [bodyLength]
  next phase => split <;> simp_all [bodyLength]
  next phase => exact ⟨readData_bodyLength _ _, by simp [phase]⟩
  next phase => exact ⟨readData_bodyLength _ _, by simp [phase]⟩
  next phase => simp [bodyLength]
  next phase => simp [bodyLength]
  next phase => simp [bodyLength]

theorem readAll_bodyLength (reader : Reader) (text : Bytes) :
    (reader.readAll text).bodyLength ≤ reader.bodyLength + text.length := by
  induction text generalizing reader with
  | nil => simp
  | cons byte text ih =>
      have first := (reader.read_bodyLength byte).1
      have rest := ih (reader.read byte)
      rw [readAll_cons, List.length_cons]
      omega

/-- In chunks the body is shorter than what it is read from. -/
theorem readAll_bodyLength_lt (line : ∃ kind seen, reader.phase = .line kind seen)
    (nonempty : text ≠ []) :
    (reader.readAll text).bodyLength < reader.bodyLength + text.length := by
  rcases List.exists_cons_of_ne_nil nonempty with ⟨byte, rest, rfl⟩
  have first := (reader.read_bodyLength byte).2 line
  have others := (reader.read byte).readAll_bodyLength rest
  rw [readAll_cons, List.length_cons]
  omega

end Reader

namespace HttpParser

variable {start after : HttpParser} {pieces : List Bytes}

/-- The bytes given in one call are read as `request`, all of them. -/
def ReadsAs (data : Bytes) (request : HttpRequest) : Prop :=
  ∃ result after, Parses {} data result after ∧ after.state = .complete ∧ after.buffer = [] ∧
    after.request = some request

theorem readsAs_iff {data : Bytes} (nonempty : data ≠ []) :
    ReadsAs data request ↔
      (Reader.readAll {} data).phase = .complete [] ∧
        (Reader.readAll {} data).request = some request := by
  constructor
  · intro reads
    rcases reads with ⟨result, after, parses, complete, noRest, present⟩
    have settled := (parses.invariant .fresh settled_fresh).2
    have view := parses.view nonempty .fresh
    rw [view_fresh, Reader.feed] at view
    constructor
    · rw [← Reader.settle_phase_complete, ← view, view_of_complete complete, noRest]
    · rw [← Reader.settle_request, ← view, view_request settled, present]
  · intro view
    rcases exists_parses_of_complete nonempty .fresh settled_fresh
        (by rw [view_fresh, ← view.1, ← view.2]) with
      ⟨result, after, parses, complete, present, noRest⟩
    exact ⟨result, after, parses, complete, noRest, present⟩

/-- What is read after a head with the given framing is the body, unless it is in chunks, or
empty but counted. -/
theorem readsAs_head_iff (head : Head) (body : Bytes)
    (framed : match head.request.framing with
      | .none => body = []
      | .length size => body.length = size
      | .chunked => True
      | .invalid => False) :
    ReadsAs (head.text ++ body) (head.request.appendBody body) ↔
      head.request.framing ≠ .chunked ∧
        (body ≠ [] ∨ head.request.getHeader (bytes "Content-Length") = []) := by
  have nonempty : head.text ++ body ≠ [] := by simp [Head.text]
  rw [readsAs_iff nonempty, Reader.readAll_append, Reader.readAll_head, Reader.endHeader]
  cases framing : head.request.framing with
  | none =>
      rw [framing] at framed
      have unframed : head.request.getHeader (bytes "Content-Length") = [] := by
        by_contra given
        rw [HttpRequest.framing, if_pos given] at framing
        split at framing <;> cases framing
      simp [framed, unframed]
  | length size =>
      rw [framing] at framed
      have given : head.request.getHeader (bytes "Content-Length") ≠ [] := by
        intro absent
        rw [HttpRequest.framing, if_neg (by simpa using absent)] at framing
        split at framing <;> cases framing
      by_cases empty : body = []
      · simp [empty, given]
      · dsimp only
        rw [Reader.readAll_body_eq (by simp [framed]) rfl empty]
        simp [empty]
  | chunked =>
      refine iff_of_false (fun reads => ?_) (by simp)
      rcases reads with ⟨phase, present⟩
      by_cases empty : body = []
      · simp [empty] at phase
      · have line : ∃ kind seen,
            (⟨.line (.chunkSize false) [], some head.request, true⟩ : Reader).phase =
              .line kind seen := ⟨_, _, rfl⟩
        have shorter := Reader.readAll_bodyLength_lt line empty
        simp only [Reader.bodyLength, present] at shorter
        simp at shorter
  | invalid =>
      rw [framing] at framed
      exact framed.elim

/-- What a text with a head is read as has the fields of the head. -/
theorem request_eq_of_readsAs (head other : Head) {body : Bytes}
    (reads : ReadsAs (head.text ++ body) (other.request.appendBody body)) :
    head.request = other.request := by
  rw [readsAs_iff (by simp [Head.text]), Reader.readAll_append] at reads
  rcases Reader.afterHeader_readAll_head head with ⟨past, described⟩
  rcases (past.readAll body).2 with ⟨data, appends⟩
  rw [reads.2, described, Option.map_some, Option.some.injEq] at appends
  have same := HttpRequest.eq_of_appendBody appends head.request_body
  rw [same, other.request_body, HttpRequest.appendBody_nil]

/-- **Printing what has been read.**  Where a run of calls completes a request, the text that
`ToString` writes for it, with the headers in some order, is read as this request exactly if it
did not come in chunks, has a body or no `Content-Length`, and of names that differ by case
alone the one that counts comes last. -/
theorem readsAs_toString_iff (new : start.IsNew) (feeds : Feeds start pieces after)
    (complete : after.state = .complete) (present : after.request = some request)
    (isOrder : request.headers.IsOrder order) :
    ReadsAs (request.toString order) request ↔
      after.chunkedEncoding = false ∧
        (request.body ≠ [] ∨ request.getHeader (bytes "Content-Length") = []) ∧
        request.KeepsLatest order := by
  have observed : Observed start pieces after after.buffer := .between feeds
  rcases observed.exists_head new (.inr complete) with ⟨head, _, body, _, described⟩
  obtain rfl : head.request.appendBody body = request :=
    Option.some.inj (described.symm.trans present)
  have framed := observed.framed new _ described
  have legible := Legible.of_head head
  have body_eq : (head.request.appendBody body).body = body := by simp
  have selected : after.chunkedEncoding = false ↔ head.request.framing ≠ .chunked := by
    rw [← HttpRequest.framing_appendBody _ body, ne_eq, ← Framed.chunked_iff framed complete]
    simp
  have latest : (head.request.appendBody body).KeepsLatest order ↔
      (legible.printed isOrder).request = head.request :=
    (legible.printed_request_eq_iff isOrder head.request_body).symm
  rw [legible.toString_eq isOrder, head.request_body, List.nil_append, selected, body_eq,
    HttpRequest.getHeader_appendBody, latest, ← and_assoc]
  by_cases again : (legible.printed isOrder).request = head.request
  · have reads := readsAs_head_iff (legible.printed isOrder) body (by
      simp only [FramedAs, complete, HttpRequest.framing_appendBody, body_eq] at framed
      rw [again]
      cases framing : head.request.framing <;> simp_all)
    rw [again] at reads
    rw [reads]
    exact (and_iff_left again).symm
  · refine iff_of_false (fun reads => again ?_) fun all => again all.2
    exact request_eq_of_readsAs _ _ reads

/-- With blanks where none need be, in three calls. -/
def paddedPieces : List Bytes :=
  [bytes "POST   /form HTTP/1.1\r\nHost :  x\r\n", bytes "Content-Length: 4\r\n\r\na\r",
    bytes "\nb"]

theorem readsAs_toString_iff_padded :
    ∃ after request, Feeds {} paddedPieces after ∧ after.state = .complete ∧
      after.request = some request ∧ ∃ order, request.headers.IsOrder order ∧
        (ReadsAs (request.toString order) request ↔
          after.chunkedEncoding = false ∧
            (request.body ≠ [] ∨ request.getHeader (bytes "Content-Length") = []) ∧
            request.KeepsLatest order) := by
  refine ⟨_, _, feeds_get 4 (by decide), by decide, (Option.some_get (by decide)).symm,
    [⟨bytes "Host", bytes "x"⟩, ⟨bytes "Content-Length", bytes "4"⟩], by decide, ?_⟩
  exact readsAs_toString_iff (.inl rfl) (feeds_get 4 (by decide)) (by decide)
    (Option.some_get (by decide)).symm (by decide)

end HttpParser

end PPServer.Http
