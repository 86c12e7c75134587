import PPServer.Http.Parser

/-!
# A reader of one byte at a time

What the parser is for, without buffer, positions or nested loops: an automaton that
takes the bytes of a connection one after the other.  It collects a line until CRLF
completes it, then lets the line decide what is read next: a header line, a counted
body, a chunk-size line or counted chunk data.  Bytes after the end of the message
are kept as surplus.

Reading a byte string in pieces is by definition the same as reading it whole
(`readAll_append`).  The parser is not: at the end of the data of a call it forgets
that a chunk has just ended.  `settle` is that forgetting, and `feed` is one call.
-/

namespace PPServer.Http

/-- The lines of the protocol.  A size line that may be preceded by the CRLF that
ends the data of a chunk is marked `afterData`. -/
inductive LineKind where
  | request
  | header
  | chunkSize (afterData : Bool)
  deriving DecidableEq, Repr

/-- What the reader is in the middle of. -/
inductive Phase where
  /-- A line of which `seen` has been read. -/
  | line (kind : LineKind) (seen : Bytes)
  /-- A body of known length of which `missing` bytes have not been read. -/
  | body (missing : Nat)
  | chunkData (missing : Nat)
  | complete (surplus : Bytes)
  | failed
  | fault
  deriving DecidableEq, Repr

structure Reader where
  phase : Phase := .line .request []
  request : Option HttpRequest := some {}
  /-- The header selected the chunked framing. -/
  chunked : Bool := false
  deriving DecidableEq

/-- The three parts of a request line the server supports. -/
def requestLineOf (line : Bytes) : Option (Method × Bytes × Version) :=
  match extractRequestLine line with
  | none => none
  | some (method, path, version) =>
      if validateHttpMethod method && validateHttpVersion version then
        some (stringToMethod method, path, stringToVersion version)
      else none

/-- The name and the value of a header line. -/
def headerOf (line : Bytes) : Option (Bytes × Bytes) :=
  (line.findIdx? (· == 58)).map fun colonPos =>
    (trim (line.take colonPos), trim (line.drop (colonPos + 1)))

/-- How the body of a request is delimited. -/
inductive Framing where
  | none
  | length (size : Nat)
  | chunked
  | invalid
  deriving DecidableEq, Repr

namespace HttpRequest

/-- The framing the header table selects: a `Content-Length` comes before
`Transfer-Encoding`. -/
def framing (request : HttpRequest) : Framing :=
  if request.getHeader (bytes "Content-Length") ≠ [] then
    match stoul (request.getHeader (bytes "Content-Length")) 10 with
    | .ok size => .length size
    | .error _ => .invalid
  else if request.getHeader (bytes "Transfer-Encoding") = bytes "chunked" then .chunked
  else .none

/-- The request with the parts of its request line set. -/
def withRequestLine (request : HttpRequest) (parts : Method × Bytes × Version) :
    HttpRequest :=
  ((request.setMethod parts.1).setPath parts.2.1).setVersion parts.2.2

end HttpRequest

namespace Reader

/-! ## Reading -/

/-- The reader after the empty line that ends the header of `request`. -/
def endHeader (reader : Reader) (request : HttpRequest) : Reader :=
  match request.framing with
  | .none => { reader with phase := .complete [] }
  | .length size => { reader with phase := .body size }
  | .chunked => { reader with phase := .line (.chunkSize false) [], chunked := true }
  | .invalid => { reader with phase := .failed }

/-- The reader after a whole line. -/
def endLine (reader : Reader) (kind : LineKind) (line : Bytes) : Reader :=
  match kind, reader.request with
  | .request, request =>
      match requestLineOf line, request with
      | none, _ => { reader with phase := .failed }
      | some _, none => { reader with phase := .fault }
      | some parts, some request =>
          { reader with
            phase := .line .header []
            request := some (request.withRequestLine parts) }
  | .header, request =>
      if line = [] then
        match request with
        | none => { reader with phase := .fault }
        | some request => reader.endHeader request
      else
        match headerOf line, request with
        | none, _ => { reader with phase := .failed }
        | some _, none => { reader with phase := .fault }
        | some header, some request =>
            { reader with
              phase := .line .header []
              request := some (request.addHeader header.1 header.2) }
  | .chunkSize afterData, _ =>
      if afterData = true ∧ line = [] then
        { reader with phase := .line (.chunkSize false) [] }
      else
        match stoul line 16 with
        | .error _ => { reader with phase := .failed }
        | .ok size =>
            { reader with phase := if size = 0 then .complete [] else .chunkData size }

/-- The reader after one byte of body or chunk data, of which `missing` bytes were
still to come. -/
def readData (reader : Reader) (byte : Byte) (phase : Phase) : Reader :=
  match reader.request with
  | none => { reader with phase := .fault }
  | some request => { reader with phase, request := some (request.appendBody [byte]) }

/-- One byte. -/
def read (reader : Reader) (byte : Byte) : Reader :=
  match reader.phase with
  | .line kind seen =>
      if seen.getLast? = some cr ∧ byte = lf then reader.endLine kind seen.dropLast
      else { reader with phase := .line kind (seen ++ [byte]) }
  | .body 0 =>
      -- An empty body is only noticed when a byte arrives that is not part of it.
      match reader.request with
      | none => { reader with phase := .fault }
      | some _ => { reader with phase := .complete [byte] }
  | .body (missing + 1) =>
      reader.readData byte (if missing = 0 then .complete [] else .body missing)
  | .chunkData missing =>
      reader.readData byte
        (if missing ≤ 1 then .line (.chunkSize true) [] else .chunkData (missing - 1))
  | .complete surplus => { reader with phase := .complete (surplus ++ [byte]) }
  | .failed => reader
  | .fault => reader

def readAll (reader : Reader) (text : Bytes) : Reader := text.foldl read reader

/-- Forget that the data of a chunk has just ended. -/
def settle (reader : Reader) : Reader :=
  match reader.phase with
  | .line (.chunkSize _) seen => { reader with phase := .line (.chunkSize false) seen }
  | _ => reader

/-- One call: all its bytes, and then the end of the call. -/
def feed (reader : Reader) (text : Bytes) : Reader := (reader.readAll text).settle

/-- Some bytes of a line have been read, but not its CRLF. -/
def InsideLine (reader : Reader) : Prop :=
  ∃ kind seen, reader.phase = .line kind seen ∧ seen ≠ []

@[simp] theorem readAll_nil (reader : Reader) : reader.readAll [] = reader := rfl

@[simp] theorem readAll_cons (reader : Reader) (byte : Byte) (text : Bytes) :
    reader.readAll (byte :: text) = (reader.read byte).readAll text := rfl

/-- Where a byte string is cut makes no difference to the reader. -/
theorem readAll_append (reader : Reader) (first second : Bytes) :
    reader.readAll (first ++ second) = (reader.readAll first).readAll second :=
  List.foldl_append

variable {reader : Reader} {kind : LineKind} {seen line text : Bytes}

/-! ## Reading a line -/

theorem readAll_of_free (phase : reader.phase = .line kind seen)
    (free : CRLFFree (seen ++ text)) :
    reader.readAll text = { reader with phase := .line kind (seen ++ text) } := by
  induction text generalizing reader seen with
  | nil => simp [← phase]
  | cons byte text ih =>
      rw [List.append_cons] at free ⊢
      have goesOn : ¬(seen.getLast? = some cr ∧ byte = lf) :=
        (Delimiter.free_concat_iff.mp free.left).2
      rw [readAll_cons, read, phase]
      simp only [if_neg goesOn]
      exact ih rfl free

/-- The beginning of a line. -/
theorem readAll_openLine (phase : reader.phase = .line kind []) (free : CRLFFree text) :
    reader.readAll text = { reader with phase := .line kind text } :=
  readAll_of_free phase free

/-- A line and its CRLF. -/
theorem readAll_line (phase : reader.phase = .line kind []) (free : CRLFFree line) :
    reader.readAll (line ++ crlf) = reader.endLine kind line := by
  have freeFirst : CRLFFree ([] ++ (line ++ [cr])) := by
    rw [List.nil_append]
    exact (Delimiter.free_concat_first cr_ne_lf).mpr free
  have split : line ++ crlf = (line ++ [cr]) ++ [lf] := by simp
  rw [split, readAll_append, readAll_of_free phase freeFirst]
  rw [readAll_cons, readAll_nil, read]
  simp only [List.nil_append, List.getLast?_concat, and_self, if_true, List.dropLast_concat]
  -- Ending a line does not look at what the phase was.
  cases kind <;> rfl

/-- A line, its CRLF and what follows. -/
theorem readAll_line_append (phase : reader.phase = .line kind []) (free : CRLFFree line)
    (rest : Bytes) :
    reader.readAll (line ++ cr :: lf :: rest) = (reader.endLine kind line).readAll rest := by
  have split : line ++ cr :: lf :: rest = (line ++ crlf) ++ rest := by simp
  rw [split, readAll_append _ (line ++ crlf), readAll_line phase free]

/-- The CRLF after the data of a chunk is skipped. -/
theorem readAll_skip (request : Option HttpRequest) (chunked : Bool) (rest : Bytes) :
    readAll ⟨.line (.chunkSize true) [], request, chunked⟩ (crlf ++ rest) =
      readAll ⟨.line (.chunkSize false) [], request, chunked⟩ rest := by
  have skipped : readAll ⟨.line (.chunkSize true) [], request, chunked⟩ ([] ++ crlf) =
      endLine ⟨.line (.chunkSize true) [], request, chunked⟩ (.chunkSize true) [] :=
    readAll_line rfl Delimiter.free_nil
  rw [readAll_append, ← List.nil_append crlf, skipped]
  rfl

/-! ## Reading data -/

theorem readAll_complete {surplus : Bytes} (phase : reader.phase = .complete surplus) :
    reader.readAll text = { reader with phase := .complete (surplus ++ text) } := by
  induction text generalizing reader surplus with
  | nil => simp [← phase]
  | cons byte text ih =>
      rw [readAll_cons, read, phase, List.append_cons]
      exact ih rfl

theorem readAll_failed (phase : reader.phase = .failed) : reader.readAll text = reader := by
  induction text with
  | nil => rfl
  | cons byte text ih => rwa [readAll_cons, read, phase]

theorem readAll_fault (phase : reader.phase = .fault) : reader.readAll text = reader := by
  induction text with
  | nil => rfl
  | cons byte text ih => rwa [readAll_cons, read, phase]

/-- Data without a request to put it in. -/
theorem readAll_missing (data : (∃ size, reader.phase = .body size) ∨
      ∃ size, reader.phase = .chunkData size)
    (missing : reader.request = none) (nonempty : text ≠ []) :
    (reader.readAll text).phase = .fault := by
  rcases List.exists_cons_of_ne_nil nonempty with ⟨byte, rest, rfl⟩
  have first : reader.read byte = { reader with phase := .fault } := by
    rcases data with ⟨size, phase⟩ | ⟨size, phase⟩
    · cases size <;> simp [read, phase, missing, readData]
    · simp [read, phase, missing, readData]
  rw [readAll_cons, first, readAll_fault rfl]

variable {request : HttpRequest} {missing : Nat}

/-- A part of the body. -/
theorem readAll_body_lt (phase : reader.phase = .body missing)
    (present : reader.request = some request) (short : text.length < missing) :
    reader.readAll text =
      { reader with
        phase := .body (missing - text.length)
        request := some (request.appendBody text) } := by
  induction text generalizing reader request missing with
  | nil => simp [← phase, ← present]
  | cons byte text ih =>
      obtain ⟨size, rfl⟩ : ∃ size, missing = size + 1 :=
        ⟨missing - 1, by simp at short; omega⟩
      have more : size ≠ 0 := by
        intro equal
        subst equal
        simp at short
      have tail : text.length < size := by simpa using short
      rw [readAll_cons, read, phase]
      simp only [readData, present, if_neg more]
      rw [ih rfl rfl tail]
      simp

/-- The whole of a body that is not empty. -/
theorem readAll_body_eq (phase : reader.phase = .body text.length)
    (present : reader.request = some request) (nonempty : text ≠ []) :
    reader.readAll text =
      { reader with phase := .complete [], request := some (request.appendBody text) } := by
  rcases (List.eq_nil_or_concat text).resolve_left nonempty with ⟨front, last, rfl⟩
  rw [List.concat_eq_append] at phase ⊢
  rw [readAll_append, readAll_body_lt phase present (by simp)]
  simp [read, readData]

/-- A body of known length with everything that follows it. -/
theorem readAll_body_ge (phase : reader.phase = .body missing)
    (present : reader.request = some request) (enough : missing ≤ text.length)
    (nonempty : text ≠ []) :
    reader.readAll text =
      { reader with
        phase := .complete (text.drop missing)
        request := some (request.appendBody (text.take missing)) } := by
  cases missing with
  | zero =>
      rcases List.exists_cons_of_ne_nil nonempty with ⟨byte, rest, rfl⟩
      rw [readAll_cons, read, phase]
      simp only [present]
      rw [readAll_complete rfl]
      simp [← present]
  | succ size =>
      have length : (text.take (size + 1)).length = size + 1 := by simpa using enough
      have notEmpty : text.take (size + 1) ≠ [] := by
        intro empty
        simp [empty] at length
      conv_lhs => rw [← List.take_append_drop (size + 1) text]
      rw [readAll_append,
        readAll_body_eq (by rw [phase, length]) present notEmpty, readAll_complete rfl]
      simp

/-- A part of the data of a chunk. -/
theorem readAll_chunkData_lt (phase : reader.phase = .chunkData missing)
    (present : reader.request = some request) (short : text.length < missing) :
    reader.readAll text =
      { reader with
        phase := .chunkData (missing - text.length)
        request := some (request.appendBody text) } := by
  induction text generalizing reader request missing with
  | nil => simp [← phase, ← present]
  | cons byte text ih =>
      have more : ¬missing ≤ 1 := by simp at short; omega
      have tail : text.length < missing - 1 := by simp at short; omega
      rw [readAll_cons, read, phase]
      simp only [readData, present, if_neg more]
      rw [ih rfl rfl tail]
      simp only [HttpRequest.appendBody_append, List.singleton_append, List.length_cons,
        Reader.mk.injEq, Phase.chunkData.injEq, and_true]
      omega

/-- The whole data of a chunk. -/
theorem readAll_chunkData_eq (phase : reader.phase = .chunkData text.length)
    (present : reader.request = some request) (nonempty : text ≠ []) :
    reader.readAll text =
      { reader with
        phase := .line (.chunkSize true) []
        request := some (request.appendBody text) } := by
  rcases (List.eq_nil_or_concat text).resolve_left nonempty with ⟨front, last, rfl⟩
  rw [List.concat_eq_append] at phase ⊢
  rw [readAll_append, readAll_chunkData_lt phase present (by simp)]
  simp [read, readData]

/-! ## The end of a call -/

theorem settle_of_not_chunkSize (other : ∀ afterData seen,
    reader.phase ≠ .line (.chunkSize afterData) seen) : reader.settle = reader := by
  unfold settle
  split
  next afterData seen phase => exact absurd phase (other afterData seen)
  next => rfl

@[simp] theorem settle_request (reader : Reader) : reader.settle.request = reader.request := by
  simp only [settle]
  split <;> rfl

@[simp] theorem settle_chunked (reader : Reader) : reader.settle.chunked = reader.chunked := by
  simp only [settle]
  split <;> rfl

@[simp] theorem insideLine_settle : reader.settle.InsideLine ↔ reader.InsideLine := by
  simp only [settle, InsideLine]
  split
  next afterData seen phase => simp [phase]
  next => rfl

theorem settle_phase_fault : reader.settle.phase = .fault ↔ reader.phase = .fault := by
  simp only [settle]
  split
  next afterData seen phase => simp [phase]
  next => rfl

theorem settle_phase_complete {surplus : Bytes} :
    reader.settle.phase = .complete surplus ↔ reader.phase = .complete surplus := by
  simp only [settle]
  split
  next afterData seen phase => simp [phase]
  next => rfl

/-- Whether a chunk has just ended matters only to a call that starts with CRLF. -/
theorem settle_readAll_afterData (request : Option HttpRequest) (chunked : Bool)
    (absent : ¬crlf <+: text) :
    (readAll ⟨.line (.chunkSize true) [], request, chunked⟩ text).settle =
      (readAll ⟨.line (.chunkSize false) [], request, chunked⟩ text).settle := by
  cases Delimiter.begins cr_ne_lf text with
  | unended free =>
      rw [readAll_openLine rfl free, readAll_openLine rfl free]
      rfl
  | @line line rest free =>
      have notEmpty : line ≠ [] := by
        intro equal
        subst equal
        exact absent ⟨rest, rfl⟩
      rw [readAll_line_append rfl free, readAll_line_append rfl free]
      simp [endLine, notEmpty]

end Reader

end PPServer.Http
