import PPServer.Http.HeaderTables
import PPServer.Http.Progress
import PPServer.Library.Separator

/-!
# Header lines

What the parser makes of the lines between the request line and the empty line.  A line with a
colon is always taken: its name and its value are what stands on the two sides of the first colon,
without the blanks around them.  So the table that a list of lines leaves is found by names alone,
and the only line that is refused is one without a colon.
-/

namespace PPServer.Http

open Separator

/-- `:`. -/
abbrev colon : Byte := 58

/-- The text before the first colon, trimmed. -/
def headerName (line : Bytes) : Bytes := trim (before colon line)

/-- The text after the first colon, trimmed. -/
def headerValue (line : Bytes) : Bytes := trim (after colon line)

variable {line name : Bytes} {lines : List Bytes} {request : HttpRequest}

theorem headerOf_eq (line : Bytes) :
    headerOf line = if colon ∈ line then some (headerName line, headerValue line) else none := by
  rw [headerOf, findIdx?_eq]
  split
  next =>
      rw [Option.map_some, take_length_before, drop_length_before]
      rfl
  next => rfl

theorem headerOf_isSome_iff : (headerOf line).isSome ↔ colon ∈ line := by
  rw [headerOf_eq]
  split
  next member => simp [member]
  next absent => simp [absent]

namespace HttpRequest

theorem hasHeader_addHeader (request : HttpRequest) (name value other : Bytes) :
    (request.addHeader name value).hasHeader other = true ↔
      toLower name = toLower other ∨ request.hasHeader other = true := by
  rw [hasHeader_eq_true_iff, hasHeader_eq_true_iff]
  simp only [addHeader, Finmap.mem_insert]
  rw [eq_comm]

theorem withHeaderLine_of_mem (member : colon ∈ line) :
    request.withHeaderLine line = request.addHeader (headerName line) (headerValue line) := by
  rw [withHeaderLine, headerOf_eq, if_pos member]

/-- The name is looked up among the names of the lines, and the last line that has it counts. -/
structure LastWriterWins (lines : List Bytes) (request : HttpRequest) : Prop where
  hasHeader_iff : ∀ name, request.hasHeader name = true ↔
    ∃ line ∈ lines, toLower (headerName line) = toLower name
  getHeader : ∀ name, request.hasHeader name = true →
    ∃ line, (lines.filter fun line => toLower (headerName line) = toLower name).getLast? =
        some line ∧
      request.getHeader name = headerValue line

/-- Lines added one after the other to a table without headers. -/
theorem lastWriterWins_foldl (empty : ∀ name, request.hasHeader name = false)
    (colons : ∀ line ∈ lines, colon ∈ line) :
    LastWriterWins lines (lines.foldl withHeaderLine request) := by
  induction lines using List.reverseRecOn with
  | nil => exact ⟨by simp [empty], by simp [empty]⟩
  | append_singleton lines last ih =>
      have others := ih fun line member => colons line (List.mem_append_left _ member)
      rw [List.foldl_append, List.foldl_cons, List.foldl_nil,
        withHeaderLine_of_mem (colons last (by simp))]
      constructor
      case hasHeader_iff =>
        intro name
        rw [hasHeader_addHeader, others.hasHeader_iff]
        simp [or_comm, or_and_right, exists_or]
      case getHeader =>
        intro name has
        rw [getHeader_addHeader]
        by_cases same : toLower (headerName last) = toLower name
        · exact ⟨last, by simp [same], if_pos same⟩
        · have earlier := ((hasHeader_addHeader _ _ _ _).mp has).resolve_left same
          rcases others.getHeader name earlier with ⟨line, isLast, value⟩
          exact ⟨line, by simpa [same] using isLast, (if_neg same).trans value⟩

end HttpRequest

/-! ## Reading header lines -/

/-- Header lines, each with its CRLF, and the empty line. -/
def headerText (lines : List Bytes) : Bytes := lines.flatMap (· ++ crlf) ++ crlf

namespace Reader

variable {chunked : Bool} {pieces : List Bytes}

theorem readAll_headerText (free : ∀ line ∈ lines, CRLFFree line)
    (colons : ∀ line ∈ lines, colon ∈ line) :
    readAll ⟨.line .header [], some request, chunked⟩ (headerText lines) =
      endHeader ⟨.line .header [], some (lines.foldl HttpRequest.withHeaderLine request), chunked⟩
        (lines.foldl HttpRequest.withHeaderLine request) := by
  rw [headerText, readAll_append, readAll_headerLines free
    fun line member => headerOf_isSome_iff.mpr (colons line member), ← List.nil_append crlf,
    readAll_line rfl Delimiter.free_nil]
  rfl

theorem endHeader_request (reader : Reader) (request : HttpRequest) :
    (reader.endHeader request).request = reader.request := by
  rw [endHeader]
  cases request.framing <;> rfl

/-- Before its last byte the text has not ended the header. -/
theorem not_afterHeader_of_part {front piece : Bytes} (free : ∀ line ∈ lines, CRLFFree line)
    (colons : ∀ line ∈ lines, colon ∈ line) (whole : front ++ piece = headerText lines)
    (more : piece ≠ []) :
    ¬(readAll ⟨.line .header [], some request, chunked⟩ front).AfterHeader := by
  rcases (List.eq_nil_or_concat piece).resolve_left more with ⟨missing, last, rfl⟩
  have split : front ++ missing ++ [last] = lines.flatMap (· ++ crlf) ++ [cr] ++ [lf] := by
    simpa [headerText] using whole
  have part : front ++ missing = lines.flatMap (· ++ crlf) ++ [cr] :=
    (List.append_inj' split rfl).1
  intro ended
  have stays := (ended.readAll missing).1
  rw [← readAll_append, part, readAll_append, readAll_headerLines free
    fun line member => headerOf_isSome_iff.mpr (colons line member)] at stays
  exact stays.2 rfl

/-- However the lines are cut into calls, the table is the one they make together. -/
theorem foldl_feed_headerText (free : ∀ line ∈ lines, CRLFFree line)
    (colons : ∀ line ∈ lines, colon ∈ line) (together : pieces.flatten = headerText lines) :
    (pieces.foldl feed ⟨.line .header [], some request, chunked⟩).request =
      some (lines.foldl HttpRequest.withHeaderLine request) := by
  induction pieces using List.reverseRecOn with
  | nil => simp [headerText] at together
  | append_singleton pieces piece ih =>
      rw [List.flatten_append, List.flatten_singleton] at together
      rw [List.foldl_append, List.foldl_cons, List.foldl_nil, feed, settle_request]
      by_cases empty : piece = []
      · subst empty
        rw [List.append_nil] at together
        exact ih together
      · rw [foldl_feed_of_readAll (not_afterHeader_of_part free colons together empty),
          ← readAll_append, together, readAll_headerText free colons, endHeader_request]

end Reader

namespace HttpParser

variable {parser after : HttpParser} {result : ParseResult}

/-- Between the header lines. -/
theorem view_of_headers (reachable : Reachable parser) (state : parser.state = .headers)
    (present : parser.request = some request) :
    parser.view = ⟨.line .header [], some request, parser.chunkedEncoding⟩ := by
  rw [view_of_not_complete reachable.invariant.2 (by simp [state])]
  simp [reader, state, present]

/-- **The header table is last-writer-wins.**  A call with the rest of the header lines and the
empty line returns.  However they are cut into calls that return, the table finds the last line of
a name, in whatever letter case it is asked for. -/
theorem header_table (reachable : Reachable parser) (state : parser.state = .headers)
    (present : parser.request = some request) (empty : ∀ name, request.hasHeader name = false)
    (free : ∀ line ∈ lines, CRLFFree line) (colons : ∀ line ∈ lines, colon ∈ line) :
    (∃ result after, Parses parser (headerText lines) result after) ∧
      ∀ pieces after, pieces.flatten = headerText lines → Feeds parser pieces after →
        ∃ table, after.request = some table ∧ table.LastWriterWins lines := by
  rcases reachable.invariant with ⟨invariant, settled⟩
  have view := view_of_headers reachable state present
  constructor
  · apply (exists_parses_iff invariant (by simp [headerText])).mpr
    rw [view, Reader.feed, Reader.insideLine_settle, ne_eq, Reader.settle_phase_fault,
      Reader.readAll_headerText free colons, Reader.endHeader]
    cases (lines.foldl HttpRequest.withHeaderLine request).framing <;> simp [Reader.InsideLine]
  · intro pieces after together feeds
    rcases feeds.view invariant settled with ⟨-, afterSettled, afterView⟩
    have table : (pieces.foldl Reader.feed parser.view).request =
        some (lines.foldl HttpRequest.withHeaderLine request) := by
      rw [view]
      exact Reader.foldl_feed_headerText free colons together
    rw [← afterView, view_request afterSettled] at table
    exact ⟨_, table, HttpRequest.lastWriterWins_foldl empty colons⟩

theorem isSome_requestLine : (parseOutcome 3 {} (bytes "GET / HTTP/1.1\r\n")).isSome := by decide

/-- A parser that has read the request line `GET / HTTP/1.1`. -/
theorem exists_inHeaders :
    ∃ parser, Reachable parser ∧ parser.state = .headers ∧
      parser.request = some { method := .get, path := bytes "/", version := .http11 } :=
  ⟨_, .parse .fresh (parses_get 3 isSome_requestLine), by decide, by decide⟩

/-- A name that occurs in two spellings, blanks around a name, and an empty name. -/
def acceptLines : List Bytes :=
  [bytes "Accept: */*", bytes " ACCEPT :\ttext/html ", bytes ":  "]

theorem header_table_accept :
    ∃ parser, Reachable parser ∧
      (∃ result after, Parses parser (headerText acceptLines) result after) ∧
        ∀ pieces after, pieces.flatten = headerText acceptLines → Feeds parser pieces after →
          ∃ table, after.request = some table ∧ table.LastWriterWins acceptLines := by
  rcases exists_inHeaders with ⟨parser, reachable, state, present⟩
  exact ⟨parser, reachable,
    header_table reachable state present (fun _ => rfl) (by decide) (by decide)⟩

/-! ## One header line -/

/-- The line has a name without blanks, or it is refused and adds no header. -/
def ChecksName (line : Bytes) (parser after : HttpParser) : Prop :=
  (colon ∈ line ∧ before colon line ≠ [] ∧ ∀ byte ∈ before colon line, isBlank byte = false) ∨
    after.state = .error ∧ after.request = parser.request

/-- **Which header lines are accepted.**  A call with a header line returns.  It takes the line as a
header if it has a colon, under the text before the first one without the blanks around it, and
else ends in `ERROR` without a new header. -/
theorem header_line (reachable : Reachable parser) (state : parser.state = .headers)
    (present : parser.request = some request) (free : CRLFFree line) (nonempty : line ≠ []) :
    (∃ result after, Parses parser (line ++ crlf) result after) ∧
      ∀ result after, Parses parser (line ++ crlf) result after →
        (colon ∈ line → after.state = .headers ∧
          after.request = some (request.addHeader (headerName line) (headerValue line))) ∧
        (colon ∉ line → after.state = .error ∧ after.request = some request) := by
  rcases reachable.invariant with ⟨invariant, settled⟩
  have reads : parser.view.feed (line ++ crlf) =
      if colon ∈ line then
        ⟨.line .header [], some (request.addHeader (headerName line) (headerValue line)),
          parser.chunkedEncoding⟩
      else ⟨.failed, some request, parser.chunkedEncoding⟩ := by
    rw [view_of_headers reachable state present, Reader.feed, Reader.readAll_line rfl free,
      Reader.endLine, headerOf_eq]
    by_cases member : colon ∈ line <;> simp [nonempty, member, Reader.settle]
  constructor
  · apply (exists_parses_iff invariant (by simp)).mpr
    rw [reads]
    by_cases member : colon ∈ line <;> simp [member, Reader.InsideLine]
  · intro result after parses
    have view := parses.view (by simp) invariant
    have afterSettled := (parses.invariant invariant settled).2
    rw [reads] at view
    rw [← view_state afterSettled, ← view_request afterSettled, view]
    constructor
    · intro member
      rw [if_pos member]
      exact ⟨rfl, rfl⟩
    · intro absent
      rw [if_neg absent]
      exact ⟨rfl, rfl⟩

theorem header_line_host :
    ∃ parser, Reachable parser ∧
      (∃ result after, Parses parser (bytes "Host: a" ++ crlf) result after) ∧
        ∀ result after, Parses parser (bytes "Host: a" ++ crlf) result after →
          (colon ∈ bytes "Host: a" → after.state = .headers ∧
            after.request = some (HttpRequest.addHeader
              { method := .get, path := bytes "/", version := .http11 }
              (headerName (bytes "Host: a")) (headerValue (bytes "Host: a")))) ∧
          (colon ∉ bytes "Host: a" → after.state = .error ∧
            after.request = some { method := .get, path := bytes "/", version := .http11 }) := by
  rcases exists_inHeaders with ⟨parser, reachable, state, present⟩
  exact ⟨parser, reachable, header_line reachable state present (by decide) (by decide)⟩

/-- A folded line is taken for a header that selects the chunked framing. -/
theorem accepts_leading_blank :
    ∃ parser result after request, Reachable parser ∧ parser.state = .headers ∧
      Parses parser (bytes " Transfer-Encoding: chunked" ++ crlf) result after ∧
      after.state = .headers ∧ after.request = some request ∧
      request.getHeader (bytes "Transfer-Encoding") = bytes "chunked" ∧
      ¬ChecksName (bytes " Transfer-Encoding: chunked") parser after := by
  refine ⟨_, _, _, HttpRequest.addHeader
    { method := .get, path := bytes "/", version := .http11 } (bytes "Transfer-Encoding")
    (bytes "chunked"), .parse .fresh (parses_get 3 isSome_requestLine), by decide,
    parses_get 3 (by decide), by decide, by decide, by decide, fun checks => ?_⟩
  rcases checks with ⟨-, -, plain⟩ | ⟨failed, -⟩
  · exact absurd (plain 32 (by decide)) (by decide)
  · exact absurd failed (by decide)

end HttpParser

end PPServer.Http
