import PPServer.Http.Framing
import PPServer.Http.Lengths

/-!
# The chunked coding and its decoder

The decoder undoes the coding (`chunks_decoded`): whatever the data are, and in whatever
hexadecimal numerals their sizes are written, the parser puts the same bytes together.

It also undoes more than the coding.  The CRLF after the data of a chunk is passed over
if it is there and not missed if it is not, and any line that `std::stoul` reads counts
as a size.  `Block` is a chunk in this wider sense, and `RunsIntoBadLine` is exactly what
the bytes after a chunk have to be for the missing CRLF to be noticed.
-/

namespace PPServer.Http

/-! ## The coding -/

/-- The size of the data in hexadecimal, the data, and a CRLF after each. -/
def IsChunkOf (data text : Bytes) : Prop :=
  ∃ size, IsNumeral 16 size data.length ∧ text = size ++ crlf ++ data ++ crlf

/-- The coding with sizes in lower case and without leading zeros. -/
def encodeChunk (data : Bytes) : Bytes := writeNumeral 16 data.length ++ crlf ++ data ++ crlf

theorem isChunkOf_encodeChunk (data : Bytes) : IsChunkOf data (encodeChunk data) :=
  ⟨_, isNumeral_writeNumeral (by decide) (by decide) data.length, rfl⟩

theorem isChunkOf_map (contents : List Bytes) :
    List.Forall₂ IsChunkOf contents (contents.map encodeChunk) :=
  List.forall₂_map_right_iff.mpr (List.forall₂_same.mpr fun data _ => isChunkOf_encodeChunk data)

/-- What encodes a list of byte strings is the text of a list of chunks. -/
theorem exists_chunks {contents encodings : List Bytes}
    (encoded : List.Forall₂ IsChunkOf contents encodings)
    (nonempty : ∀ data ∈ contents, data ≠ [])
    (fits : ∀ data ∈ contents, data.length < sizeModulus) :
    ∃ chunks : List Chunk,
      chunkedText chunks = encodings.flatten ∧ chunkedData chunks = contents.flatten := by
  induction encoded with
  | nil => exact ⟨[], rfl, rfl⟩
  | @cons data text contents encodings isChunk _ ih =>
      rcases isChunk with ⟨size, numeral, rfl⟩
      rcases ih (fun other member => nonempty other (by simp [member]))
        (fun other member => fits other (by simp [member])) with ⟨chunks, sameText, sameData⟩
      let chunk : Chunk :=
        { size, data, numeral
          nonempty := nonempty data (by simp)
          fits := fits data (by simp) }
      refine ⟨chunk :: chunks, ?_, ?_⟩
      · rw [chunkedText, List.flatMap_cons, ← chunkedText, sameText]
        rfl
      · rw [chunkedData, List.flatMap_cons, ← chunkedData, sameData]
        rfl

/-- A header with `Transfer-Encoding: chunked` and without `Content-Length` selects the
chunked framing. -/
theorem HttpRequest.framing_chunked {request : HttpRequest}
    (noLength : request.getHeader (bytes "Content-Length") = [])
    (coding : request.getHeader (bytes "Transfer-Encoding") = bytes "chunked") :
    request.framing = .chunked := by
  simp [framing, noLength, coding]

namespace HttpParser

variable {head : Head}

/-- **Decoding inverts encoding.**  After a head with `Transfer-Encoding: chunked` and no
`Content-Length`, the encodings of any non-empty byte strings and the zero chunk are read
in one call up to `COMPLETE`, and the body is the byte strings put together. -/
theorem chunks_decoded {contents encodings : List Bytes}
    (noLength : head.request.getHeader (bytes "Content-Length") = [])
    (coding : head.request.getHeader (bytes "Transfer-Encoding") = bytes "chunked")
    (nonempty : ∀ data ∈ contents, data ≠ [])
    (fits : ∀ data ∈ contents, data.length < sizeModulus)
    (encoded : List.Forall₂ IsChunkOf contents encodings) :
    ∃ result after, Parses {} (head.text ++ encodings.flatten ++ lastChunk) result after ∧
      result.success = true ∧ result.state = .complete ∧ after.state = .complete ∧
      after.request.map HttpRequest.body = some contents.flatten := by
  have framing := HttpRequest.framing_chunked noLength coding
  rcases exists_chunks encoded nonempty fits with ⟨chunks, sameText, sameData⟩
  rcases exists_parses_message (.chunked head framing chunks) [] with
    ⟨result, after, parses, state, request, -⟩
  rw [List.append_nil, Message.text, sameText] at parses
  have returned := (parses.spec (by simp [Head.text]) .fresh).1
  rcases returned.complete state with ⟨success, resultState⟩
  refine ⟨result, after, parses, success, resultState, state, ?_⟩
  rw [request, Message.request, sameData]
  simp

/-- Data that look like framing, and a size of more than one kind of digit. -/
theorem chunks_decoded_crlf :
    ∃ result after,
      Parses {} (chunkedGet.text ++
          ([bytes "0\r\n\r\n", bytes "abcdefghijklmnopqrstuvwxyz"].map encodeChunk).flatten ++
          lastChunk) result after ∧
        result.success = true ∧ result.state = .complete ∧ after.state = .complete ∧
        after.request.map HttpRequest.body =
          some [bytes "0\r\n\r\n", bytes "abcdefghijklmnopqrstuvwxyz"].flatten :=
  chunks_decoded (by decide) (by decide) (by decide) (by decide) (isChunkOf_map _)

end HttpParser

/-! ## What the decoder takes for a chunk -/

/-- A line that is read as the size of the data that come after it. -/
structure Block where
  sizeLine : Bytes
  data : Bytes
  nonempty : data ≠ []
  free : CRLFFree sizeLine
  reads : stoul sizeLine 16 = .ok data.length

namespace Block

/-- The block up to the end of its data. -/
def openText (block : Block) : Bytes := block.sizeLine ++ crlf ++ block.data

def text (block : Block) : Bytes := block.openText ++ crlf

/-- A size line of the protocol, with or without an extension, makes a block. -/
def ofSizeLine {line data : Bytes} (sizeLine : IsSizeLine line data.length)
    (free : CRLFFree line) (nonempty : data ≠ []) (fits : data.length < sizeModulus) : Block where
  sizeLine := line
  data := data
  nonempty := nonempty
  free := free
  reads := by rw [stoul_sizeLine sizeLine, if_pos fits]

end Block

/-- A size line and what follows it begin with a block if the data are all present. -/
theorem exists_block {line rest : Bytes} {number : Nat} (free : CRLFFree line)
    (reads : stoul line 16 = .ok number) (positive : number ≠ 0)
    (present : number ≤ rest.length) :
    ∃ block : Block, line ++ cr :: lf :: rest = block.openText ++ rest.drop number := by
  have length : (rest.take number).length = number := by rwa [List.length_take, min_eq_left]
  have nonempty : rest.take number ≠ [] := by
    intro empty
    rw [empty] at length
    exact positive length.symm
  refine ⟨⟨line, rest.take number, nonempty, free, by rw [reads, length]⟩, ?_⟩
  simp [Block.openText]

/-- The CRLF after the data of a chunk is passed over if it is there. -/
def pastCRLF (text : Bytes) : Bytes := if crlf <+: text then text.drop 2 else text

/-- The bytes, taken as blocks with or without a CRLF after their data, go on to a line
that `std::stoul` does not read, or end inside a line. -/
inductive RunsIntoBadLine : Bytes → Prop where
  | openLine {text : Bytes} : text ≠ [] → CRLFFree text → RunsIntoBadLine text
  | badSize {line rest : Bytes} : CRLFFree line → StoulRejects line 16 →
      RunsIntoBadLine (line ++ crlf ++ rest)
  | block (block : Block) {rest : Bytes} : RunsIntoBadLine (pastCRLF rest) →
      RunsIntoBadLine (block.openText ++ rest)

theorem length_pastCRLF_le (text : Bytes) : (pastCRLF text).length ≤ text.length := by
  rw [pastCRLF]
  split <;> simp

namespace Reader

variable {reader : Reader} {request : HttpRequest} {text rest : Bytes}

/-- No call that ends here returns in a state other than `ERROR`. -/
def OnlyErrs (reader : Reader) : Prop := reader.InsideLine ∨ reader.state = .error

theorem onlyErrs_settle : reader.settle.OnlyErrs ↔ reader.OnlyErrs := by
  rw [OnlyErrs, OnlyErrs, insideLine_settle, settle_state]

/-- After the data of a chunk, the bytes past the CRLF decide. -/
theorem onlyErrs_afterData :
    (readAll ⟨.line (.chunkSize true) [], some request, true⟩ text).OnlyErrs ↔
      (readAll ⟨.line (.chunkSize false) [], some request, true⟩ (pastCRLF text)).OnlyErrs := by
  rw [pastCRLF]
  split
  next present =>
      rcases present with ⟨rest, rfl⟩
      rw [readAll_skip]
      rfl
  next absent =>
      rw [← onlyErrs_settle, settle_readAll_afterData _ _ absent, onlyErrs_settle]

theorem readAll_block (block : Block) :
    readAll ⟨.line (.chunkSize false) [], some request, true⟩ block.openText =
      ⟨.line (.chunkSize true) [], some (request.appendBody block.data), true⟩ :=
  readAll_sizedData block.free block.reads block.nonempty

theorem onlyErrs_of_runsIntoBadLine (runs : RunsIntoBadLine text) :
    (readAll ⟨.line (.chunkSize false) [], some request, true⟩ text).OnlyErrs := by
  induction runs generalizing request with
  | openLine nonempty free =>
      rw [readAll_openLine rfl free]
      exact .inl ⟨_, _, rfl, nonempty⟩
  | @badSize line rest free rejects =>
      rcases stoulRejects_iff.mp rejects with ⟨error, fails⟩
      rw [readAll_append, readAll_line rfl free]
      simp only [endLine, Bool.false_eq_true, false_and, if_false, fails]
      rw [readAll_failed rfl]
      exact .inr rfl
  | block block _ ih =>
      rw [readAll_append, readAll_block, onlyErrs_afterData]
      exact ih

/-- The converse follows the bytes block by block. -/
theorem runsIntoBadLine_of_onlyErrs
    (errs : (readAll ⟨.line (.chunkSize false) [], some request, true⟩ text).OnlyErrs) :
    RunsIntoBadLine text := by
  induction text using Delimiter.lines_induction cr_ne_lf generalizing request with
  | unended text free =>
      apply RunsIntoBadLine.openLine _ free
      intro empty
      subst empty
      simp [OnlyErrs, InsideLine, state] at errs
  | line line rest free ih =>
      have whole : line ++ cr :: lf :: rest = line ++ crlf ++ rest := by simp
      cases reads : stoul line 16 with
      | error error =>
          rw [whole]
          exact .badSize free (stoulRejects_iff.mpr ⟨error, reads⟩)
      | ok number =>
          by_cases zero : number = 0
          · subst zero
            rw [whole, readAll_zeroLine free reads] at errs
            simp [OnlyErrs, InsideLine, state] at errs
          by_cases short : rest.length < number
          · rw [whole, readAll_append, readAll_sizeLine free reads zero,
              readAll_chunkData_lt rfl rfl short] at errs
            simp [OnlyErrs, InsideLine, state] at errs
          rcases exists_block free reads zero (Nat.le_of_not_lt short) with ⟨block, split⟩
          rw [split, readAll_append, readAll_block, onlyErrs_afterData] at errs
          have shorter : (pastCRLF (rest.drop number)).length ≤ rest.length := by
            apply (length_pastCRLF_le _).trans
            rw [List.length_drop]
            exact Nat.sub_le _ _
          rw [split]
          exact .block block (ih _ shorter errs)

theorem onlyErrs_iff :
    (readAll ⟨.line (.chunkSize false) [], some request, true⟩ text).OnlyErrs ↔
      RunsIntoBadLine text :=
  ⟨runsIntoBadLine_of_onlyErrs, onlyErrs_of_runsIntoBadLine⟩

end Reader

namespace HttpParser

variable {parser : HttpParser} {head : Head} {data rest : Bytes}

/-- Whether a call that returns does so in `ERROR`, seen from the reader. -/
theorem parses_error_iff (invariant : parser.Invariant) (settled : parser.Settled)
    (nonempty : data ≠ []) :
    (∀ result after, Parses parser data result after → after.state = .error) ↔
      (parser.view.readAll data).OnlyErrs := by
  have stateAfter : ∀ {result after}, Parses parser data result after →
      after.state = (parser.view.readAll data).state := by
    intro result after parses
    have afterSettled := (parses.invariant invariant settled).2
    rw [← view_state afterSettled, parses.view nonempty invariant, Reader.feed,
      Reader.settle_state]
  constructor
  · intro errs
    by_contra other
    rcases not_or.mp other with ⟨outside, notError⟩
    have notFault : (parser.view.feed data).phase ≠ .fault := by
      rw [Reader.feed, Ne, Reader.settle_phase_fault]
      intro phase
      exact notError (by simp [Reader.state, phase])
    obtain ⟨result, after, parses⟩ := (exists_parses_iff invariant nonempty).mpr
      ⟨by rwa [Reader.feed, Reader.insideLine_settle], notFault⟩
    exact notError ((stateAfter parses).symm.trans (errs result after parses))
  · intro errs result after parses
    have outside := (parses.spec nonempty invariant).2.1
    rw [Reader.feed, Reader.insideLine_settle] at outside
    exact (stateAfter parses).trans (errs.resolve_left outside)

/-- **Malformed chunk ends.**  After a chunked head, blocks and the data of one more
block come bytes that do not start with CRLF.  A call that returns does so in `ERROR`,
whatever it is given, exactly if these bytes run into a bad line by themselves. -/
theorem malformed_end_refused_iff (framing : head.request.framing = .chunked)
    (blocks : List Block) (block : Block) (malformed : ¬crlf <+: rest) :
    (∀ result after,
        Parses {} (head.text ++ blocks.flatMap Block.text ++ block.openText ++ rest) result after →
          after.state = .error) ↔
      RunsIntoBadLine rest := by
  have each : ∀ (request : HttpRequest) (block : Block),
      Reader.readAll ⟨.line (.chunkSize false) [], some request, true⟩ block.text =
        ⟨.line (.chunkSize false) [], some (request.appendBody block.data), true⟩ := by
    intro request block
    rw [Block.text, Reader.readAll_append, Reader.readAll_block, ← List.append_nil crlf,
      Reader.readAll_skip, Reader.readAll_nil]
  have past : pastCRLF rest = rest := if_neg malformed
  rw [parses_error_iff .fresh settled_fresh (by simp [Head.text]), view_fresh,
    Reader.readAll_append, Reader.readAll_append, Reader.readAll_append,
    Reader.readAll_head_chunked framing, Reader.readAll_flatMap each, Reader.readAll_block,
    Reader.onlyErrs_afterData, past, Reader.onlyErrs_iff]

/-- Two bytes of data after a size line with an extension. -/
def blockAB : Block :=
  have sizeLine : IsSizeLine (bytes "2;a=b") (bytes "ab").length :=
    ⟨bytes "2", bytes ";a=b", by decide, ⟨by decide, by decide, by decide⟩,
      .inr ⟨[], bytes "a=b", by decide, by simp⟩⟩
  .ofSizeLine sizeLine (by decide) (by decide) (by decide)

theorem malformed_end_refused_iff_zz :
    (∀ result after,
        Parses {} (chunkedGet.text ++ [blockAB].flatMap Block.text ++ blockAB.openText ++
          bytes "zz\r\n") result after → after.state = .error) ↔
      RunsIntoBadLine (bytes "zz\r\n") :=
  malformed_end_refused_iff (by decide) [blockAB] blockAB (by decide)

/-- Data followed by a zero chunk in the place of their CRLF end in `COMPLETE`. -/
theorem not_refused_zero_size :
    chunkedGet.request.framing = .chunked ∧ 2 ≤ (bytes "0\r\n").length ∧
      ¬crlf <+: bytes "0\r\n" ∧
      ∃ result after,
        Parses {} (chunkedGet.text ++ [].flatMap Block.text ++ blockAB.openText ++
          bytes "0\r\n") result after ∧ after.state = .complete :=
  ⟨by decide, by decide, by decide, _, _, parses_get 4 (by decide), by decide⟩

end HttpParser

end PPServer.Http
