import PPServer.Http.Progress
import PPServer.Http.QueryParameters

/-!
# The request line

What the first line of a request has to be, as words, and what the parser makes of it.  Stream
extraction takes three words and does not look at what follows them, so a line that goes on is
accepted as well.  The second word is taken for the path as it is: a query in it is never split
off.
-/

namespace PPServer.Http

open Separator

variable {line stream word rest target : Bytes} {method : Method} {version : Version}

/-! ## Words -/

/-- Extraction takes the first word, and leaves the others where it can be repeated. -/
theorem words_of_extractWord (extracts : extractWord stream = some (word, rest)) :
    words isSpace stream = word :: words isSpace rest := by
  simp only [extractWord] at extracts
  split at extracts
  next => cases extracts
  next nonempty =>
      cases extracts
      rw [← words_dropWhile]
      conv_lhs => rw [← List.takeWhile_append_dropWhile
        (p := fun byte => !isSpace byte) (l := stream.dropWhile isSpace)]
      apply words_append
      · simpa using nonempty
      · intro byte member
        simpa using List.mem_takeWhile_imp member
      · intro byte isHead
        have stops := List.head?_dropWhile_not (fun byte => !isSpace byte)
          (stream.dropWhile isSpace)
        rw [Option.mem_def.mp isHead] at stops
        simpa using stops

theorem words_of_extractWord_none (extracts : extractWord stream = none) :
    words isSpace stream = [] := by
  simp only [extractWord] at extracts
  split at extracts
  next empty =>
      rw [← words_dropWhile]
      cases skipped : stream.dropWhile isSpace with
      | nil => rfl
      | cons byte tail =>
          have stops := List.head?_dropWhile_not isSpace stream
          rw [skipped] at stops empty
          simp [show isSpace byte = false from stops] at empty
  next => cases extracts

/-- The three extractions succeed exactly on lines of at least three words. -/
theorem extractRequestLine_eq_some_iff {methodText versionText : Bytes} :
    extractRequestLine line = some (methodText, target, versionText) ↔
      ∃ more, words isSpace line = methodText :: target :: versionText :: more := by
  simp only [extractRequestLine, Option.bind_eq_bind, Option.pure_def]
  cases first : extractWord line with
  | none => simp [words_of_extractWord_none first]
  | some extracted =>
      rcases extracted with ⟨word, rest⟩
      rw [words_of_extractWord first, Option.bind_some]
      cases second : extractWord rest with
      | none => simp [words_of_extractWord_none second]
      | some extracted =>
          rcases extracted with ⟨secondWord, secondRest⟩
          rw [words_of_extractWord second, Option.bind_some]
          cases third : extractWord secondRest with
          | none => simp [words_of_extractWord_none third]
          | some extracted =>
              rcases extracted with ⟨thirdWord, thirdRest⟩
              rw [words_of_extractWord third, Option.bind_some]
              simp

/-! ## The grammar -/

/-- The set of supported methods is the table of methods without its last entry. -/
theorem validateHttpMethod_iff {text : Bytes} :
    validateHttpMethod text = true ∧ stringToMethod text = method ↔
      (method, text) ∈ methodStrings ∧ method ≠ .unknown := by
  constructor
  · intro valid
    rcases valid with ⟨valid, rfl⟩
    simp only [validateHttpMethod, List.contains_iff_mem, List.mem_cons, List.not_mem_nil,
      or_false] at valid
    rcases valid with rfl | rfl | rfl | rfl | rfl | rfl | rfl | rfl | rfl <;> decide
  · intro listed
    have checked : ∀ entry ∈ methodStrings, entry.1 ≠ .unknown →
        validateHttpMethod entry.2 = true ∧ stringToMethod entry.2 = entry.1 := by decide
    exact checked (method, text) listed.1 listed.2

theorem validateHttpVersion_iff {text : Bytes} :
    validateHttpVersion text = true ∧ stringToVersion text = version ↔
      (version, text) ∈ versionStrings ∧ version ≠ .unknown := by
  constructor
  · intro valid
    rcases valid with ⟨valid, rfl⟩
    simp only [validateHttpVersion, List.contains_iff_mem, List.mem_cons, List.not_mem_nil,
      or_false] at valid
    rcases valid with rfl | rfl | rfl <;> decide
  · intro listed
    have checked : ∀ entry ∈ versionStrings, entry.1 ≠ .unknown →
        validateHttpVersion entry.2 = true ∧ stringToVersion entry.2 = entry.1 := by decide
    exact checked (version, text) listed.1 listed.2

/-- A request line as it should be: three words, a supported method, the target and a supported
version. -/
def IsRequestLine (line : Bytes) (method : Method) (target : Bytes) (version : Version) : Prop :=
  ∃ methodText versionText, words isSpace line = [methodText, target, versionText] ∧
    ((method, methodText) ∈ methodStrings ∧ method ≠ .unknown) ∧
    (version, versionText) ∈ versionStrings ∧ version ≠ .unknown

/-- An acceptable request line with more words after its third. -/
def GoesOn (line : Bytes) : Prop :=
  ∃ methodText target versionText extra more,
    words isSpace line = methodText :: target :: versionText :: extra :: more ∧
      validateHttpMethod methodText = true ∧ validateHttpVersion versionText = true

/-- What the parser takes for a request line. -/
theorem requestLineOf_eq_some_iff :
    requestLineOf line = some (method, target, version) ↔
      ∃ methodText versionText more,
        words isSpace line = methodText :: target :: versionText :: more ∧
          ((method, methodText) ∈ methodStrings ∧ method ≠ .unknown) ∧
          (version, versionText) ∈ versionStrings ∧ version ≠ .unknown := by
  rw [requestLineOf]
  constructor
  · intro accepted
    split at accepted
    next => cases accepted
    next methodText path versionText extracted =>
        rcases Option.ite_none_right_eq_some.mp accepted with ⟨valid, parts⟩
        cases parts
        rw [Bool.and_eq_true] at valid
        rcases extractRequestLine_eq_some_iff.mp extracted with ⟨more, split⟩
        exact ⟨methodText, versionText, more, split, validateHttpMethod_iff.mp ⟨valid.1, rfl⟩,
          validateHttpVersion_iff.mp ⟨valid.2, rfl⟩⟩
  · intro accepted
    rcases accepted with ⟨methodText, versionText, more, split, isMethod, isVersion⟩
    rcases validateHttpMethod_iff.mpr isMethod with ⟨validMethod, rfl⟩
    rcases validateHttpVersion_iff.mpr isVersion with ⟨validVersion, rfl⟩
    rw [extractRequestLine_eq_some_iff.mpr ⟨more, split⟩]
    simp [validMethod, validVersion]

theorem not_isRequestLine_of_goesOn (goesOn : GoesOn line) :
    ¬IsRequestLine line method target version := by
  intro isLine
  rcases goesOn with ⟨first, second, third, extra, more, longer, -⟩
  rcases isLine with ⟨methodText, versionText, shorter, -⟩
  rw [longer] at shorter
  cases shorter

/-- What the parser takes for a request line is one, or goes on after it. -/
theorem isRequestLine_iff (accepted : requestLineOf line = some (method, target, version)) :
    IsRequestLine line method target version ↔ ¬GoesOn line := by
  rcases requestLineOf_eq_some_iff.mp accepted with
    ⟨methodText, versionText, more, split, isMethod, isVersion⟩
  constructor
  · intro isLine goesOn
    exact not_isRequestLine_of_goesOn goesOn isLine
  · intro stops
    cases more with
    | nil => exact ⟨methodText, versionText, split, isMethod, isVersion⟩
    | cons extra more =>
        exact absurd ⟨methodText, target, versionText, extra, more, split,
          (validateHttpMethod_iff.mpr isMethod).1, (validateHttpVersion_iff.mpr isVersion).1⟩ stops

theorem requestLineOf_of_isRequestLine (isLine : IsRequestLine line method target version) :
    requestLineOf line = some (method, target, version) := by
  rcases isLine with ⟨methodText, versionText, split, tables⟩
  exact requestLineOf_eq_some_iff.mpr ⟨methodText, versionText, [], split, tables⟩

theorem not_goesOn_of_none (rejected : requestLineOf line = none) : ¬GoesOn line := by
  intro goesOn
  rcases goesOn with ⟨methodText, target, versionText, extra, more, split, isMethod, isVersion⟩
  have accepted := requestLineOf_eq_some_iff.mpr ⟨methodText, versionText, extra :: more, split,
    validateHttpMethod_iff.mp ⟨isMethod, rfl⟩, validateHttpVersion_iff.mp ⟨isVersion, rfl⟩⟩
  rw [rejected] at accepted
  cases accepted

namespace HttpParser

variable {next after : HttpParser} {result : ParseResult}

/-- A line alone is read to its end. -/
theorem exists_parses_line (free : CRLFFree line) :
    ∃ result after, Parses {} (line ++ crlf) result after := by
  apply (exists_parses_iff .fresh (by simp)).mpr
  rw [view_fresh, Reader.feed, Reader.readAll_line rfl free, Reader.endLine]
  cases requestLineOf line <;> simp [Reader.InsideLine, Reader.settle]

/-- The parser after the line: in `HEADERS` with the three parts, or in `ERROR`. -/
theorem Parses.requestLine (parses : Parses {} (line ++ crlf) result after)
    (free : CRLFFree line) :
    match requestLineOf line with
    | some parts => after.state = .headers ∧
        after.request = some (({} : HttpRequest).withRequestLine parts)
    | none => after.state = .error := by
  have view := parses.view (by simp) .fresh
  have settled := (parses.invariant .fresh settled_fresh).2
  have state := view_state settled
  have request := view_request settled
  rw [view_fresh, Reader.feed, Reader.readAll_line rfl free, Reader.endLine] at view
  cases accepted : requestLineOf line with
  | none =>
      rw [accepted] at view
      rw [← state, view]
      rfl
  | some parts =>
      rw [accepted] at view
      rw [← state, ← request, view]
      exact ⟨rfl, rfl⟩

/-- A line is accepted exactly if it is a request line, and its parts are the request's. -/
structure MeetsGrammar (line : Bytes) (after : HttpParser) : Prop where
  accepts : ∀ method target version, IsRequestLine line method target version →
    after.state = .headers ∧ after.request = some { method, path := target, version }
  rejects : (¬∃ method target version, IsRequestLine line method target version) →
    after.state = .error

/-- **How exact the request line grammar is.**  A call of a new parser with a line and CRLF
returns; it does with the line what the grammar says, exactly unless the line is acceptable and
goes on after its third word. -/
theorem meetsGrammar_iff (free : CRLFFree line) :
    (∃ result after, Parses {} (line ++ crlf) result after) ∧
      ∀ result after, Parses {} (line ++ crlf) result after →
        (MeetsGrammar line after ↔ ¬GoesOn line) := by
  refine ⟨exists_parses_line free, fun result after parses => ?_⟩
  have outcome := parses.requestLine free
  cases accepted : requestLineOf line with
  | none =>
      rw [accepted] at outcome
      refine iff_of_true ⟨fun method target version isLine => ?_, fun _ => outcome⟩
        (not_goesOn_of_none accepted)
      rw [requestLineOf_of_isRequestLine isLine] at accepted
      cases accepted
  | some parts =>
      rcases parts with ⟨method, target, version⟩
      rw [accepted] at outcome
      rw [← isRequestLine_iff accepted]
      constructor
      · intro meets
        by_contra isNot
        have failed : after.state = .error := by
          refine meets.rejects fun other => isNot ?_
          rcases other with ⟨otherMethod, otherTarget, otherVersion, isLine⟩
          have same := (requestLineOf_of_isRequestLine isLine).symm.trans accepted
          cases same
          exact isLine
        rw [outcome.1] at failed
        cases failed
      · intro isLine
        constructor
        case accepts =>
          intro otherMethod otherTarget otherVersion otherLine
          have same := (requestLineOf_of_isRequestLine otherLine).symm.trans accepted
          cases same
          exact outcome
        case rejects => exact fun none => absurd ⟨method, target, version, isLine⟩ none

theorem meetsGrammar_iff_get :
    (∃ result after, Parses {} (bytes "GET  /index.html HTTP/1.1 " ++ crlf) result after) ∧
      ∀ result after, Parses {} (bytes "GET  /index.html HTTP/1.1 " ++ crlf) result after →
        (MeetsGrammar (bytes "GET  /index.html HTTP/1.1 ") after ↔
          ¬GoesOn (bytes "GET  /index.html HTTP/1.1 ")) :=
  meetsGrammar_iff (by decide)

/-- Four words are accepted as a request line. -/
theorem accepts_fourWords :
    ∃ result after, Parses {} (bytes "GET / HTTP/1.1 x" ++ crlf) result after ∧
      after.state = .headers ∧ ¬MeetsGrammar (bytes "GET / HTTP/1.1 x") after := by
  have goesOn : GoesOn (bytes "GET / HTTP/1.1 x") :=
    ⟨bytes "GET", bytes "/", bytes "HTTP/1.1", bytes "x", [], by decide, by decide, by decide⟩
  refine ⟨_, _, parses_get 3 (by decide), by decide, fun meets => ?_⟩
  have failed := meets.rejects fun other => by
    rcases other with ⟨method, target, version, isLine⟩
    exact not_isRequestLine_of_goesOn goesOn isLine
  exact absurd failed (by decide)

end HttpParser

/-! ## The target -/

/-- `?`. -/
abbrev questionMark : Byte := 63

namespace HttpRequest

variable {request : HttpRequest}

/-- The path and the query of the request are those of the target, so that the parameters are the
ones written in it and the request line is printed as it was. -/
structure SplitsTarget (request : HttpRequest) (target : Bytes) : Prop where
  path : request.path = before questionMark target
  queryString : request.queryString = Separator.after questionMark target
  parameters : request.parseQueryParameters.queryParams =
    parametersOf (Separator.after questionMark target)
  printed : ∀ order, request.getMethodString ++ bytes " " ++ target ++ bytes " " ++
    request.getVersionString ++ crlf <+: request.toString order

/-- The request without its headers and its body. -/
def bare (request : HttpRequest) : HttpRequest :=
  { request with headers := ∅, headersLowercase := ∅, body := [] }

/-- With the whole target for its path, a request has split it only if there is nothing to
split. -/
theorem splitsTarget_iff (bare : request.bare = { method, path := target, version }) :
    request.SplitsTarget target ↔ questionMark ∉ target := by
  have path : request.path = target := congrArg HttpRequest.path bare
  have noQuery : request.queryString = [] := congrArg queryString bare
  have noParams : request.queryParams = ∅ := congrArg queryParams bare
  constructor
  · intro splits
    rw [← path, splits.path]
    exact notMem_before questionMark target
  · intro absent
    constructor
    case path => rw [path, before_of_notMem absent]
    case queryString => rw [noQuery, after_of_notMem absent]
    case parameters =>
      rw [parseQueryParameters_of_empty noQuery, noParams, after_of_notMem absent, parametersOf_nil]
    case printed =>
      intro order
      refine ⟨headerText order ++ crlf ++ request.body, ?_⟩
      simp [HttpRequest.toString, path, noQuery]

end HttpRequest

namespace Reader

variable {reader : Reader}

theorem endLine_bare (past : reader.state ≠ .startLine) {kind : LineKind} {seen : Bytes}
    (phase : reader.phase = .line kind seen) (line : Bytes) :
    (reader.endLine kind line).state ≠ .startLine ∧
      (reader.endLine kind line).request.map HttpRequest.bare =
        reader.request.map HttpRequest.bare := by
  simp only [Reader.endLine, endHeader]
  cases kind with
  | request => exact absurd (by simp [state, phase]) past
  | header =>
      dsimp only
      split
      next => split <;> (try split) <;> simp_all [state]
      next => split <;> simp_all [state, HttpRequest.bare, HttpRequest.addHeader]
  | chunkSize afterData =>
      dsimp only
      split
      next => simp [state]
      next => split <;> (try split) <;> simp [state]

theorem readData_bare {byte : Byte} {phase : Phase}
    (past : (⟨phase, reader.request, reader.chunked⟩ : Reader).state ≠ .startLine) :
    (reader.readData byte phase).state ≠ .startLine ∧
      (reader.readData byte phase).request.map HttpRequest.bare =
        reader.request.map HttpRequest.bare := by
  simp only [readData]
  split
  next missing => simp [state, missing]
  next request present => exact ⟨past, by simp [present, HttpRequest.bare, HttpRequest.appendBody]⟩

/-- After the request line nothing that is read changes its parts. -/
theorem read_bare (past : reader.state ≠ .startLine) (byte : Byte) :
    (reader.read byte).state ≠ .startLine ∧
      (reader.read byte).request.map HttpRequest.bare =
        reader.request.map HttpRequest.bare := by
  simp only [Reader.read]
  split
  next kind seen phase =>
      split
      next => exact endLine_bare past phase _
      next =>
          refine ⟨?_, rfl⟩
          cases kind <;> simp_all [state]
  next => split <;> simp [state]
  next => exact readData_bare (by split <;> simp [state])
  next => exact readData_bare (by split <;> simp [state])
  next => simp [state]
  next => exact ⟨past, rfl⟩
  next => exact ⟨past, rfl⟩

theorem readAll_bare (past : reader.state ≠ .startLine) (text : Bytes) :
    (reader.readAll text).state ≠ .startLine ∧
      (reader.readAll text).request.map HttpRequest.bare =
        reader.request.map HttpRequest.bare := by
  induction text generalizing reader with
  | nil => exact ⟨past, rfl⟩
  | cons byte text ih =>
      rcases read_bare past byte with ⟨nextPast, next⟩
      rcases ih nextPast with ⟨lastPast, last⟩
      exact ⟨lastPast, last.trans next⟩

/-- However the bytes are cut into calls, what holds at the end of the first line and is kept by
every later byte holds at the end. -/
theorem foldl_feed_line {motive : Reader → Prop} {pieces : List Bytes} (free : CRLFFree line)
    (ended : motive (endLine {} .request line))
    (reads : ∀ reader text, motive reader → motive (readAll reader text))
    (settles : ∀ reader, motive reader → motive (settle reader))
    (equal : pieces.flatten = line ++ cr :: lf :: rest) : motive (pieces.foldl feed {}) := by
  induction pieces using List.reverseRecOn generalizing rest with
  | nil => simp at equal
  | append_singleton pieces piece ih =>
      rw [List.flatten_append, List.flatten_singleton] at equal
      rw [List.foldl_append, List.foldl_cons, List.foldl_nil, feed]
      apply settles
      rcases Delimiter.free_or_exists_of_append_eq cr_ne_lf free equal with
        inside | ⟨more, begun, -⟩
      · -- The line ends in the last piece.
        have unended : ¬(readAll {} pieces.flatten).AfterHeader := by
          rw [readAll_openLine rfl inside]
          simp [AfterHeader, state]
        rw [foldl_feed_of_readAll unended, ← readAll_append, equal, readAll_line_append rfl free]
        exact reads _ rest ended
      · exact reads _ piece (ih begun)

/-- However the bytes are cut into calls, the parts of the request line stay as they are. -/
theorem foldl_feed_requestLine {pieces : List Bytes} (free : CRLFFree line)
    (accepted : requestLineOf line = some (method, target, version))
    (equal : pieces.flatten = line ++ cr :: lf :: rest) :
    (pieces.foldl feed {}).state ≠ .startLine ∧
      (pieces.foldl feed {}).request.map HttpRequest.bare =
        some { method, path := target, version } := by
  apply foldl_feed_line (motive := fun reader => reader.state ≠ .startLine ∧
    reader.request.map HttpRequest.bare = some { method, path := target, version }) free ?_ ?_ ?_
    equal
  · rw [endLine, accepted]
    exact ⟨by simp [state], rfl⟩
  · intro reader text holds
    rcases readAll_bare holds.1 text with ⟨stays, kept⟩
    exact ⟨stays, kept.trans holds.2⟩
  · intro reader holds
    simpa using holds

end Reader

namespace HttpParser

variable {start after : HttpParser} {pieces : List Bytes}

/-- **Whether the target is split.**  However a request with an accepted request line is cut into
calls that return, its path and query are those of the target exactly if the target has no `?`. -/
theorem splits_target_iff (new : start.IsNew) (free : CRLFFree line)
    (accepted : requestLineOf line = some (method, target, version))
    (equal : pieces.flatten = line ++ crlf ++ rest) (feeds : Feeds start pieces after) :
    ∃ request, after.request = some request ∧
      (request.SplitsTarget target ↔ questionMark ∉ target) := by
  rcases new.spec with ⟨invariant, settled, view⟩
  rcases feeds.view invariant settled with ⟨-, afterSettled, afterView⟩
  have parts := (Reader.foldl_feed_requestLine free accepted (by simpa using equal)).2
  rw [← view, ← afterView, view_request afterSettled] at parts
  rcases Option.map_eq_some_iff.mp parts with ⟨request, present, bare⟩
  exact ⟨request, present, HttpRequest.splitsTarget_iff bare⟩

/-- A request for a page, in two calls. -/
def pagePieces : List Bytes :=
  [bytes "GET /page.html HTTP/1.1\r\nAccept: */*\r\n", bytes "\r\n"]

theorem splits_target_iff_page :
    ∃ after, Feeds {} pagePieces after ∧ ∃ request, after.request = some request ∧
      (request.SplitsTarget (bytes "/page.html") ↔ questionMark ∉ bytes "/page.html") := by
  have returned : (feedAll 4 {} pagePieces).isSome := by decide
  have accepted : requestLineOf (bytes "GET /page.html HTTP/1.1") =
      some (.get, bytes "/page.html", .http11) := by decide
  have equal : pagePieces.flatten =
      bytes "GET /page.html HTTP/1.1" ++ crlf ++ bytes "Accept: */*\r\n\r\n" := by decide
  exact ⟨_, feeds_get 4 returned,
    splits_target_iff (.inl rfl) (by decide) accepted equal (feeds_get 4 returned)⟩

/-- The query stays in the path. -/
theorem keeps_query_in_path :
    ∃ after request, Feeds {} [bytes "GET /find?q=lean HTTP/1.1\r\n\r\n"] after ∧
      after.request = some request ∧ request.path = bytes "/find?q=lean" ∧
      request.queryString = [] ∧ ¬request.SplitsTarget (bytes "/find?q=lean") := by
  refine ⟨_, { method := .get, path := bytes "/find?q=lean", version := .http11 },
    feeds_get 3 (by decide), by decide, rfl, rfl, fun splits => ?_⟩
  exact absurd ((HttpRequest.splitsTarget_iff rfl).mp splits) (by decide)

end HttpParser

end PPServer.Http
