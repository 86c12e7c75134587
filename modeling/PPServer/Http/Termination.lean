import PPServer.Http.Refinement

/-!
# When `Parse` comes to an end

The three stages that read lines return a success when the end of the line has not
arrived, and leave `pos` and `state_` as they are; the loop of `Parse` then calls them
again.  `StopsInLine` describes the inputs on which that happens by how they are cut
into lines and chunk data.  It is exactly the inputs on which `Parse` runs forever.
-/

namespace PPServer.Http

namespace Reader

variable {reader : Reader} {text : Bytes}

/-- The bytes stop inside a line: after whole lines, and whole chunks of data where
the protocol has them, something is left that is not a whole line where one is
expected. -/
inductive StopsInLine : Reader → Bytes → Prop where
  | cut {reader : Reader} {kind : LineKind} {text : Bytes} :
      reader.phase = .line kind [] → text ≠ [] → CRLFFree text → StopsInLine reader text
  | line {reader : Reader} {kind : LineKind} {line rest : Bytes} :
      reader.phase = .line kind [] → CRLFFree line →
      StopsInLine (reader.endLine kind line) rest →
      StopsInLine reader (line ++ crlf ++ rest)
  | chunk {reader : Reader} {request : HttpRequest} {data rest : Bytes} :
      reader.phase = .chunkData data.length → data ≠ [] → reader.request = some request →
      StopsInLine
        ⟨.line (.chunkSize true) [], some (request.appendBody data), reader.chunked⟩ rest →
      StopsInLine reader (data ++ rest)

theorem not_insideLine_of_phase (other : ∀ kind seen, reader.phase ≠ .line kind seen) :
    ¬reader.InsideLine :=
  fun ⟨kind, seen, phase, _⟩ => other kind seen phase

/-- A body of known length has no lines. -/
theorem not_insideLine_body {missing : Nat} (phase : reader.phase = .body missing) :
    ¬(reader.readAll text).InsideLine := by
  refine not_insideLine_of_phase fun kind seen => ?_
  by_cases empty : text = []
  · simp [empty, phase]
  · cases present : reader.request with
    | none => simp [readAll_missing (.inl ⟨missing, phase⟩) present empty]
    | some request =>
        by_cases enough : missing ≤ text.length
        · simp [readAll_body_ge phase present enough empty]
        · simp [readAll_body_lt phase present (Nat.lt_of_not_le enough)]

theorem endLine_start (reader : Reader) (kind : LineKind) (line : Bytes) :
    (reader.endLine kind line).phase ≠ .chunkData 0 ∧
      ¬(reader.endLine kind line).InsideLine := by
  simp only [endLine, endHeader, InsideLine]
  split
  next => split <;> simp
  next =>
      split
      next =>
          split
          next => simp
          next => split <;> simp
      next => split <;> simp
  next =>
      split
      next => simp
      next =>
          split
          next => simp
          next size read => by_cases zero : size = 0 <;> simp [zero]

/-- If the bytes end inside a line, data that is expected first is there in full. -/
theorem exists_data_of_insideLine {missing : Nat} (phase : reader.phase = .chunkData missing)
    (nonempty : text ≠ []) (inside : (reader.readAll text).InsideLine) :
    ∃ data rest request, text = data ++ rest ∧ data.length = missing ∧
      reader.request = some request := by
  cases present : reader.request with
  | none =>
      refine absurd inside (not_insideLine_of_phase fun kind seen => ?_)
      simp [readAll_missing (.inr ⟨missing, phase⟩) present nonempty]
  | some request =>
      by_cases enough : missing ≤ text.length
      · exact ⟨text.take missing, text.drop missing, request,
          (List.take_append_drop missing text).symm, by simpa using enough, rfl⟩
      · refine absurd inside (not_insideLine_of_phase fun kind seen => ?_)
        simp [readAll_chunkData_lt phase present (Nat.lt_of_not_le enough)]

theorem StopsInLine.insideLine (stops : StopsInLine reader text) :
    (reader.readAll text).InsideLine := by
  induction stops with
  | cut phase nonempty free =>
      rw [readAll_of_free phase (by simpa using free)]
      exact ⟨_, _, rfl, by simpa using nonempty⟩
  | line phase free _ ih => rwa [readAll_append, readAll_line phase free]
  | chunk phase nonempty present _ ih =>
      rwa [readAll_append, readAll_chunkData_eq phase present nonempty]

theorem stopsInLine_of_insideLine (positive : reader.phase ≠ .chunkData 0)
    (start : ¬reader.InsideLine) (inside : (reader.readAll text).InsideLine) :
    StopsInLine reader text := by
  induction size : text.length using Nat.strongRecOn generalizing reader text with
  | _ size ih =>
      subst size
      cases phase : reader.phase with
      | line kind seen =>
          obtain rfl : seen = [] := by
            by_contra nonempty
            exact start ⟨kind, seen, phase, nonempty⟩
          cases Delimiter.begins cr_ne_lf text with
          | unended free =>
              refine .cut phase ?_ free
              intro equal
              subst equal
              exact start inside
          | @line line rest free =>
              rw [readAll_line_append phase free] at inside
              rcases endLine_start reader kind line with ⟨nextPositive, nextStart⟩
              have tail := ih rest.length (by simp; omega) nextPositive nextStart inside rfl
              have split : line ++ cr :: lf :: rest = line ++ crlf ++ rest := by simp
              rw [split]
              exact .line phase free tail
      | body missing => exact absurd inside (not_insideLine_body phase)
      | chunkData missing =>
          by_cases empty : text = []
          · subst empty
            exact absurd inside start
          · rcases exists_data_of_insideLine phase empty inside with
              ⟨data, rest, request, rfl, rfl, present⟩
            have nonempty : data ≠ [] := by
              intro none
              exact positive (by rw [phase, none, List.length_nil])
            rw [readAll_append, readAll_chunkData_eq phase present nonempty] at inside
            have shorter : rest.length < (data ++ rest).length := by
              have := List.length_pos_iff.mpr nonempty
              rw [List.length_append]
              omega
            exact .chunk phase nonempty present
              (ih rest.length shorter (by simp) (by simp [InsideLine]) inside rfl)
      | complete surplus =>
          refine absurd inside (not_insideLine_of_phase fun kind seen => ?_)
          simp [readAll_complete phase]
      | failed =>
          refine absurd inside (not_insideLine_of_phase fun kind seen => ?_)
          simp [readAll_failed phase, phase]
      | fault =>
          refine absurd inside (not_insideLine_of_phase fun kind seen => ?_)
          simp [readAll_fault phase, phase]

theorem insideLine_readAll_iff (positive : reader.phase ≠ .chunkData 0)
    (start : ¬reader.InsideLine) :
    (reader.readAll text).InsideLine ↔ StopsInLine reader text :=
  ⟨stopsInLine_of_insideLine positive start, StopsInLine.insideLine⟩

/-! ## A request that is there stays there -/

/-- The reader has a request and has not missed one. -/
def Equipped (reader : Reader) : Prop := reader.request.isSome ∧ reader.phase ≠ .fault

theorem Equipped.endLine (equipped : reader.Equipped) (kind : LineKind) (line : Bytes) :
    (reader.endLine kind line).Equipped := by
  rcases equipped with ⟨present, noFault⟩
  rcases Option.isSome_iff_exists.mp present with ⟨request, present⟩
  cases kind with
  | request => cases parts : requestLineOf line <;> simp [Reader.endLine, Equipped, present, parts]
  | header =>
      by_cases empty : line = []
      · cases framing : request.framing <;>
          simp [Reader.endLine, Equipped, present, empty, endHeader, framing]
      · cases parts : headerOf line <;>
          simp [Reader.endLine, Equipped, present, empty, parts]
  | chunkSize afterData =>
      by_cases skip : afterData = true ∧ line = []
      · simp [Reader.endLine, Equipped, present, skip]
      · cases read : stoul line 16 with
        | error error => simp [Reader.endLine, Equipped, present, skip, read]
        | ok size =>
            by_cases zero : size = 0 <;>
              simp [Reader.endLine, Equipped, present, skip, read, zero]

theorem Equipped.read (equipped : reader.Equipped) (byte : Byte) :
    (reader.read byte).Equipped := by
  have whole := equipped
  rcases equipped with ⟨present, noFault⟩
  rcases Option.isSome_iff_exists.mp present with ⟨request, present⟩
  simp only [Reader.read]
  split
  next kind seen phase =>
      split
      next => exact whole.endLine kind _
      next => simp [Equipped, present]
  next => simp [Equipped, present]
  next missing phase =>
      by_cases last : missing = 0 <;> simp [Equipped, readData, present, last]
  next missing phase =>
      by_cases last : missing ≤ 1 <;> simp [Equipped, readData, present, last]
  next => simp [Equipped, present]
  next => exact whole
  next phase => exact absurd phase noFault

theorem Equipped.readAll (equipped : reader.Equipped) (text : Bytes) :
    (reader.readAll text).Equipped := by
  induction text generalizing reader with
  | nil => exact equipped
  | cons byte text ih => exact ih (equipped.read byte)

theorem Equipped.feed (equipped : reader.Equipped) (text : Bytes) :
    (reader.feed text).Equipped := by
  rcases equipped.readAll text with ⟨present, noFault⟩
  exact ⟨by rwa [Reader.feed, settle_request], by
    rwa [Reader.feed, Ne, settle_phase_fault]⟩

end Reader

namespace HttpParser

variable {parser after : HttpParser} {data : Bytes} {result : ParseResult}

theorem reader_phase_ne_chunkData_zero (invariant : parser.Invariant) :
    parser.reader.phase ≠ .chunkData 0 := by
  unfold reader
  dsimp only
  split <;> try simp
  next state =>
      split
      next parsed =>
          have positive := (invariant.chunk state).2 parsed
          simp only [ne_eq, Phase.chunkData.injEq]
          omega
      next => simp

/-- Between two calls nothing of a line is pending. -/
theorem view_of_settled (invariant : parser.Invariant) (settled : parser.Settled) :
    ¬parser.view.InsideLine ∧ parser.view.phase ≠ .chunkData 0 := by
  by_cases complete : parser.state = .complete
  · rw [view, Reader.readAll_complete (by simp [reader, complete] : _ = Phase.complete [])]
    simp [Reader.InsideLine]
  · by_cases error : parser.state = .error
    · rw [view, Reader.readAll_failed (by simp [reader, error])]
      exact ⟨not_insideLine_reader parser, reader_phase_ne_chunkData_zero invariant⟩
    · rw [view, settled complete error, Reader.readAll_nil]
      exact ⟨not_insideLine_reader parser, reader_phase_ne_chunkData_zero invariant⟩

theorem reader_phase_ne_fault (parser : HttpParser) : parser.reader.phase ≠ .fault := by
  unfold reader
  dsimp only
  split <;> try simp
  split <;> simp

/-- A parser that has its request never needs a missing one. -/
theorem equipped_view (present : parser.request.isSome) : parser.view.Equipped :=
  Reader.Equipped.readAll ⟨present, reader_phase_ne_fault parser⟩ _

theorem stopsInLine_iff (invariant : parser.Invariant) (settled : parser.Settled) :
    (parser.view.feed data).InsideLine ↔ parser.view.StopsInLine data := by
  rcases view_of_settled invariant settled with ⟨start, positive⟩
  rw [Reader.feed, Reader.insideLine_settle, Reader.insideLine_readAll_iff positive start]

/-- **Where `Parse` comes to an end.**  From every state the interface can reach, a
call with data ends exactly when the unread bytes do not stop inside a line that the
parser still has to read; with a request to fill, ending is returning. -/
theorem parse_ends_iff (reachable : Reachable parser) (nonempty : data ≠ []) :
    (Ends parser data ↔ ¬parser.view.StopsInLine data) ∧
      (parser.request.isSome →
        ((∃ result after, Parses parser data result after) ↔
          ¬parser.view.StopsInLine data)) := by
  rcases reachable.invariant with ⟨invariant, settled⟩
  have stops : (parser.view.feed data).InsideLine ↔ parser.view.StopsInLine data :=
    stopsInLine_iff invariant settled
  refine ⟨by rw [ends_iff invariant nonempty, stops], fun present => ?_⟩
  have noFault := ((equipped_view present).feed data).2
  rw [exists_parses_iff invariant nonempty, stops]
  exact and_iff_left noFault

/-- A request with a complete request line and an empty header is read to its end. -/
theorem parse_ends_iff_request_line :
    (Ends {} (bytes "GET / HTTP/1.1\r\n\r\n") ↔
        ¬(view {}).StopsInLine (bytes "GET / HTTP/1.1\r\n\r\n")) ∧
      ((HttpParser.request {}).isSome →
        ((∃ result after, Parses {} (bytes "GET / HTTP/1.1\r\n\r\n") result after) ↔
          ¬(view {}).StopsInLine (bytes "GET / HTTP/1.1\r\n\r\n"))) :=
  parse_ends_iff .fresh (by decide)

/-- Half a request line keeps `Parse` running forever. -/
theorem parse_runs_forever_in_request_line :
    Reachable {} ∧ bytes "GET / HT" ≠ [] ∧ ¬Ends {} (bytes "GET / HT") := by
  refine ⟨.fresh, by decide, ?_⟩
  rw [ends_iff Invariant.fresh (by decide), not_not,
    stopsInLine_iff Invariant.fresh fun _ _ => rfl]
  exact .cut rfl (by decide) (by decide)

end HttpParser

end PPServer.Http
