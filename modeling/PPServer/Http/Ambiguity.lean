import PPServer.Http.Segmentation

/-!
# Which header lines decide the framing

A header can name a body length several times, and a length beside the chunked framing.
The parser does not look for such headers: the tables keep the last line of a name, and a
`Content-Length` that is not empty comes before any `Transfer-Encoding`.  `decides_framing`
says where the end of every header leads, in terms of its lines alone.
-/

namespace PPServer.Http

/-! ## The values under a name -/

namespace Head

variable (head : Head) (name : Bytes)

/-- The names and values of the header lines, in their order. -/
def fields : List (Bytes × Bytes) := head.headerLines.filterMap headerOf

/-- The values of the header lines with this name in any letter case, in their order. -/
def valuesOf : List Bytes :=
  (head.fields.filter fun field => toLower field.1 = toLower name).map Prod.snd

/-- The value of the last line with this name, empty if there is no such line. -/
def lastValue : Bytes := (head.valuesOf name).getLast?.getD []

/-- `Content-Length` occurs with two values, or beside `Transfer-Encoding: chunked`. -/
def Ambiguous : Prop :=
  (∃ first ∈ head.valuesOf (bytes "Content-Length"),
      ∃ second ∈ head.valuesOf (bytes "Content-Length"), first ≠ second) ∨
    head.valuesOf (bytes "Content-Length") ≠ [] ∧
      bytes "chunked" ∈ head.valuesOf (bytes "Transfer-Encoding")

end Head

theorem HttpRequest.getHeader_foldl (lines : List Bytes) (request : HttpRequest) (name : Bytes) :
    (lines.foldl withHeaderLine request).getHeader name =
      (((lines.filterMap headerOf).filter fun field => toLower field.1 = toLower name).map
        Prod.snd).getLast?.getD (request.getHeader name) := by
  induction lines using List.reverseRecOn with
  | nil => rfl
  | append_singleton lines line ih =>
      rw [List.foldl_append, List.foldl_cons, List.foldl_nil, List.filterMap_append,
        withHeaderLine]
      cases header : headerOf line with
      | none => simpa [header] using ih
      | some field =>
          rw [getHeader_addHeader]
          by_cases same : toLower field.1 = toLower name
          · simp [header, same]
          · simpa [header, same] using ih

/-- The table of a head holds the last value under each name. -/
theorem Head.request_getHeader (head : Head) (name : Bytes) :
    head.request.getHeader name = head.lastValue name :=
  HttpRequest.getHeader_foldl head.headerLines _ name

namespace HttpParser

variable {head : Head} {after : HttpParser} {pieces : List Bytes}

/-! ## The end of a header -/

/-- Before its last byte a head does not select the chunked framing. -/
theorem unchunked_before_end {front : Bytes} (isPrefix : front <+: head.openText ++ [cr]) :
    (Reader.readAll {} front).chunked = false := by
  rcases isPrefix with ⟨rest, equal⟩
  have whole : (Reader.readAll {} (head.openText ++ [cr])).chunked = false := by
    rw [Reader.readAll_append, Reader.readAll_head_openText]
    rfl
  by_contra selected
  rw [Bool.not_eq_false] at selected
  have sound := (Reader.sound_fresh.readAll front).1
  rw [← equal, Reader.readAll_append, (sound.readAll rest).2 selected] at whole
  cases whole

theorem settle_endHeader (request : HttpRequest) :
    (Reader.endHeader ⟨.line .header [], some request, false⟩ request).settle =
      Reader.endHeader ⟨.line .header [], some request, false⟩ request := by
  simp only [Reader.endHeader]
  cases request.framing <;> rfl

/-- However a head is cut into calls, they end as one reading of it does. -/
theorem foldl_feed_head (nonempty : ∀ piece ∈ pieces, piece ≠ [])
    (together : pieces.flatten = head.text) :
    pieces.foldl Reader.feed {} =
      Reader.endHeader ⟨.line .header [], some head.request, false⟩ head.request := by
  rcases List.eq_nil_or_concat pieces with rfl | ⟨earlier, last, rfl⟩
  · simp [Head.text] at together
  · rw [List.concat_eq_append] at nonempty together ⊢
    rw [List.flatten_append, List.flatten_singleton] at together
    have isPrefix : earlier.flatten <+: head.openText ++ [cr] := by
      have short : earlier.flatten.length ≤ (head.openText ++ [cr]).length := by
        have lengths := congrArg List.length together
        have positive := List.length_pos_iff.mpr (nonempty last (by simp))
        simp [Head.text] at lengths ⊢
        omega
      apply List.prefix_of_prefix_length_le ⟨last, together⟩ ?_ short
      exact ⟨[lf], by simp [Head.text]⟩
    rw [List.foldl_append, Reader.foldl_feed_of_unchunked Reader.sound_fresh
      (unchunked_before_end isPrefix), List.foldl_cons, List.foldl_nil, Reader.feed,
      ← Reader.readAll_append, together, Reader.readAll_head, settle_endHeader]

/-! ## Which lines decide -/

/-- What the end of a header does, given the value of its last `Content-Length` line and
that of its last `Transfer-Encoding` line. -/
def EndsHeader (after : HttpParser) (contentLength transferEncoding : Bytes) : Prop :=
  if contentLength ≠ [] then
    match stoul contentLength 10 with
    | .ok length => after.state = .body ∧ after.contentLength = length
    | .error _ => after.state = .error
  else if transferEncoding = bytes "chunked" then after.state = .chunkedBody
  else after.state = .complete

theorem contentLength_of_view {request : HttpRequest} {length : Nat} (settled : after.Settled)
    (view : after.view = ⟨.body length, some request, false⟩) (bodyless : request.body = []) :
    after.state = .body ∧ after.contentLength = length := by
  have state : after.state = .body := by rw [← view_state settled, view]; rfl
  have present : after.request = some request := by rw [← view_request settled, view]
  rw [view_of_not_complete settled (by simp [state])] at view
  have phase := congrArg Reader.phase view
  simp [reader, state, present, bodyless] at phase
  exact ⟨state, phase⟩

theorem endsHeader_of_view (settled : after.Settled)
    (view : after.view =
      Reader.endHeader ⟨.line .header [], some head.request, false⟩ head.request) :
    after.EndsHeader (head.lastValue (bytes "Content-Length"))
      (head.lastValue (bytes "Transfer-Encoding")) := by
  have state := view_state settled
  simp only [Reader.endHeader, HttpRequest.framing, Head.request_getHeader] at view
  simp only [EndsHeader]
  by_cases present : head.lastValue (bytes "Content-Length") ≠ []
  · rw [if_pos present] at view ⊢
    cases length : stoul (head.lastValue (bytes "Content-Length")) 10 with
    | ok size =>
        rw [length] at view
        exact contentLength_of_view settled view head.request_body
    | error _ =>
        rw [length] at view
        rw [← state, view]
        rfl
  · rw [if_neg present] at view ⊢
    by_cases encoded : head.lastValue (bytes "Transfer-Encoding") = bytes "chunked"
    · rw [if_pos encoded] at view ⊢
      rw [← state, view]
      rfl
    · rw [if_neg encoded] at view ⊢
      rw [← state, view]
      rfl

/-- **Which header lines decide the framing.**  A call with the whole header of a request
returns.  However the header is cut into calls that return, they end in `BODY` with the
length that `std::stoul` reads in the last `Content-Length` line, in `ERROR` if it refuses
the value of this line, and if the value is empty or there is no such line, in
`CHUNKED_BODY` or `COMPLETE` as the last `Transfer-Encoding` line says. -/
theorem decides_framing (head : Head) :
    (∃ result after, Parses {} head.text result after) ∧
      ∀ pieces after, (∀ piece ∈ pieces, piece ≠ []) → pieces.flatten = head.text →
        Feeds {} pieces after →
          after.EndsHeader (head.lastValue (bytes "Content-Length"))
            (head.lastValue (bytes "Transfer-Encoding")) := by
  constructor
  · have ends : Reader.feed {} head.text =
        Reader.endHeader ⟨.line .header [], some head.request, false⟩ head.request :=
      foldl_feed_head (show ∀ piece ∈ [head.text], piece ≠ [] by simp [Head.text]) (by simp)
    apply (exists_parses_iff .fresh (by simp [Head.text])).mpr
    rw [view_fresh, ends, Reader.endHeader]
    cases head.request.framing <;> simp [Reader.InsideLine]
  · intro pieces after nonempty together feeds
    rcases feeds.spec nonempty .fresh settled_fresh with ⟨-, settled, view⟩
    rw [view_fresh, foldl_feed_head nonempty together] at view
    exact endsHeader_of_view settled view

/-- Two lengths that differ, and the chunked framing beside them. -/
def twoLengths : Head where
  requestLine := bytes "POST /transfer HTTP/1.1"
  headerLines := [bytes "Content-Length: 44", bytes "Transfer-Encoding: chunked",
    bytes "CONTENT-length: 5"]
  requestLine_free := by decide
  requestLine_parts := by decide
  headerLines_free := by decide
  headerLines_parts := by decide

theorem decides_framing_twoLengths :
    ∃ after, Feeds {} [bytes "POST /transfer HTTP/1.1\r\nContent-Length: 44\r\n",
        bytes "Transfer-Encoding: chunked\r\nCONTENT-length: 5\r\n\r\n"] after ∧
      after.EndsHeader (bytes "5") (bytes "chunked") := by
  have returned : (feedAll 9 {} [bytes "POST /transfer HTTP/1.1\r\nContent-Length: 44\r\n",
      bytes "Transfer-Encoding: chunked\r\nCONTENT-length: 5\r\n\r\n"]).isSome := by decide
  exact ⟨_, feeds_get 9 returned,
    (decides_framing twoLengths).2 _ _ (by decide) (by decide) (feeds_get 9 returned)⟩

/-- It is not rejected: the parser expects the five bytes of the last length. -/
theorem ambiguous_header_accepted :
    twoLengths.Ambiguous ∧
      ∃ result after, Parses {} twoLengths.text result after ∧ after.state = .body ∧
        after.contentLength = 5 :=
  ⟨.inl ⟨bytes "44", by decide, bytes "5", by decide, by decide⟩, _, _,
    parses_get 9 (by decide), by decide, by decide⟩

end HttpParser

end PPServer.Http
