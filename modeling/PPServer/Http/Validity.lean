import PPServer.Http.RequestLine

/-!
# Valid requests

From the moment its request line is accepted a request is valid, and its method and its version
are printed as they were written.  The parser checks both against a set of texts and then looks them
up in a table; printing goes through the table the other way.
-/

namespace PPServer.Http

open Separator

variable {line text word rest : Bytes} {method : Method} {version : Version}

namespace HttpRequest

/-- `IsValid`. -/
def isValid (request : HttpRequest) : Bool :=
  request.method != .unknown && request.version != .unknown && !request.path.isEmpty

/-- The first three words of the line are the method, the path and the version as the request
prints them. -/
def PrintsWords (request : HttpRequest) (line : Bytes) : Prop :=
  ∃ more, words isSpace line =
    request.getMethodString :: request.path :: request.getVersionString :: more

end HttpRequest

/-! ## The tables -/

/-- A method is printed as the text it is listed with. -/
theorem getMethodString_of_mem {request : HttpRequest}
    (listed : (request.method, text) ∈ methodStrings) : request.getMethodString = text := by
  have printed : ∀ entry ∈ methodStrings,
      (methodStrings.find? fun other => other.1 == entry.1) = some entry := by decide
  rw [HttpRequest.getMethodString, printed (request.method, text) listed]

theorem getVersionString_of_mem {request : HttpRequest}
    (listed : (request.version, text) ∈ versionStrings) : request.getVersionString = text := by
  have printed : ∀ entry ∈ versionStrings,
      (versionStrings.find? fun other => other.1 == entry.1) = some entry := by decide
  rw [HttpRequest.getVersionString, printed (request.version, text) listed]

/-- Words are not empty. -/
theorem ne_nil_of_mem_words (member : word ∈ words isSpace line) : word ≠ [] := by
  simpa using (List.mem_filter.mp member).2

/-- A request with the parts of an accepted line is valid, and prints the words of the line. -/
theorem isValid_of_requestLine {request : HttpRequest}
    (accepted : requestLineOf line = some (request.method, request.path, request.version)) :
    request.isValid = true ∧ request.PrintsWords line := by
  rcases requestLineOf_eq_some_iff.mp accepted with
    ⟨methodText, versionText, more, split, ⟨methodListed, known⟩, versionListed, supported⟩
  have member : request.path ∈ words isSpace line := by simp [split]
  constructor
  · simp [HttpRequest.isValid, known, supported, ne_nil_of_mem_words member]
  · refine ⟨more, ?_⟩
    rw [getMethodString_of_mem methodListed, getVersionString_of_mem versionListed, split]

/-! ## The run of calls -/

namespace Reader

variable {pieces : List Bytes}

/-- Before the CRLF of the request line nothing is decided. -/
theorem foldl_feed_unended (free : CRLFFree pieces.flatten) :
    (pieces.foldl feed {}).state = .startLine := by
  have unended : ¬(readAll {} pieces.flatten).AfterHeader := by
    rw [readAll_openLine rfl free]
    simp [AfterHeader, state]
  rw [foldl_feed_of_readAll unended, readAll_openLine rfl free]
  rfl

/-- After a line that is not accepted nothing is read any more. -/
theorem foldl_feed_rejected (free : CRLFFree line) (rejected : requestLineOf line = none)
    (equal : pieces.flatten = line ++ cr :: lf :: rest) :
    (pieces.foldl feed {}).state = .error := by
  have failed : (pieces.foldl feed {}).phase = .failed := by
    apply foldl_feed_line (motive := fun reader => reader.phase = .failed) free ?_ ?_ ?_ equal
    · rw [endLine, rejected]
    · intro reader text phase
      rw [readAll_failed phase]
      exact phase
    · intro reader phase
      rw [settle_of_not_chunkSize (by simp [phase])]
      exact phase
  simp [state, failed]

end Reader

namespace HttpParser

variable {start after : HttpParser} {pieces : List Bytes}

/-- **A parsed request is valid.**  In every run of returning calls from a new parser, as soon as
the parser is past the request line its request is valid, and the words of the line that was fed
are those the request prints. -/
theorem request_valid (new : start.IsNew) (feeds : Feeds start pieces after)
    (past : after.state = .headers ∨ after.state = .body ∨ after.state = .chunkedBody ∨
      after.state = .complete) :
    ∃ request line rest, after.request = some request ∧ request.isValid = true ∧
      pieces.flatten = line ++ crlf ++ rest ∧ CRLFFree line ∧ request.PrintsWords line := by
  rcases new.spec with ⟨invariant, settled, view⟩
  rcases feeds.view invariant settled with ⟨-, afterSettled, afterView⟩
  rw [view] at afterView
  have state := view_state afterSettled
  have parts := view_request afterSettled
  rw [afterView] at state parts
  have begins := Delimiter.begins cr_ne_lf pieces.flatten
  generalize text : pieces.flatten = fed at begins ⊢
  cases begins with
  | unended free =>
      rw [← text] at free
      rw [Reader.foldl_feed_unended free] at state
      simp [← state] at past
  | @line line rest free =>
      cases accepted : requestLineOf line with
      | none =>
          rw [Reader.foldl_feed_rejected free accepted text] at state
          simp [← state] at past
      | some words =>
          rcases words with ⟨method, target, version⟩
          have kept := (Reader.foldl_feed_requestLine free accepted text).2
          rw [parts] at kept
          rcases Option.map_eq_some_iff.mp kept with ⟨request, present, bare⟩
          have line : requestLineOf line =
              some (request.method, request.path, request.version) := by
            rw [accepted, show request.method = method from congrArg HttpRequest.method bare,
              show request.path = target from congrArg HttpRequest.path bare,
              show request.version = version from congrArg HttpRequest.version bare]
          rcases isValid_of_requestLine line with ⟨valid, prints⟩
          exact ⟨request, _, rest, present, valid, by simp, free, prints⟩

/-- A page is asked for in two calls; the request is valid before the header is complete. -/
theorem request_valid_page :
    ∃ after, Feeds {} [bytes "GET /page.html HTTP/1.1\r\n", bytes "Host: a\r\n"] after ∧
      ∃ request line rest, after.request = some request ∧ request.isValid = true ∧
        [bytes "GET /page.html HTTP/1.1\r\n", bytes "Host: a\r\n"].flatten =
          line ++ crlf ++ rest ∧ CRLFFree line ∧ request.PrintsWords line :=
  ⟨_, feeds_get 3 (by decide),
    request_valid (.inl rfl) (feeds_get 3 (by decide)) (.inl (by decide))⟩

end HttpParser

end PPServer.Http
