import PPServer.Http.Framing

/-!
# What a run of calls has read

A run of calls on a new parser is observed between the calls and, within a call, between the
passes of its loop.  At every such point the unread bytes make of the members what the whole
run makes of them, so what has been read can be told from what is left: it starts with a head
as soon as the header is over, and the request has grown out of the one the head describes.
-/

namespace PPServer.Http

open Loop

/-- Requests that data makes equal differ in their bodies only. -/
theorem HttpRequest.eq_of_appendBody {request described : HttpRequest} {data body : Bytes}
    (same : request.appendBody data = described.appendBody body) (empty : described.body = []) :
    request = described.appendBody request.body := by
  cases request
  cases described
  simp_all [appendBody]

namespace Reader

variable {reader : Reader} {text : Bytes} {pieces : List Bytes}

/-! ## Unread bytes -/

theorem surplus_read (reader : Reader) (byte : Byte) :
    (reader.read byte).surplus <:+ reader.surplus ++ [byte] := by
  have none (other : Reader) (empty : other.surplus = []) :
      other.surplus <:+ reader.surplus ++ [byte] := empty ▸ List.nil_suffix
  simp only [read]
  split
  next kind seen phase =>
      split
      next =>
          apply none
          rcases reader with ⟨_, request, chunked⟩
          cases kind <;> simp only [endLine, endHeader, surplus] <;> grind
      next => exact none _ rfl
  next phase =>
      split
      next => exact none _ rfl
      next => simp [surplus, phase]
  next => exact none _ (by simp only [readData, surplus]; grind)
  next => exact none _ (by simp only [readData, surplus]; grind)
  next phase => simp [surplus, phase]
  next phase => exact none _ (by simp [surplus, phase])
  next phase => exact none _ (by simp [surplus, phase])

/-- Bytes are taken up in their order. -/
theorem surplus_readAll (reader : Reader) (text : Bytes) :
    (reader.readAll text).surplus <:+ reader.surplus ++ text := by
  induction text generalizing reader with
  | nil => simp
  | cons byte text ih =>
      have first : (reader.read byte).surplus ++ text <:+ reader.surplus ++ [byte] ++ text :=
        List.suffix_append_self_iff.mpr (surplus_read reader byte)
      exact (ih _).trans (by simpa using first)

@[simp] theorem settle_surplus (reader : Reader) : reader.settle.surplus = reader.surplus := by
  simp only [settle]
  split
  next afterData seen phase => simp [surplus, phase]
  next => rfl

theorem surplus_foldl_feed (reader : Reader) (pieces : List Bytes) :
    (pieces.foldl feed reader).surplus <:+ reader.surplus ++ pieces.flatten := by
  induction pieces generalizing reader with
  | nil => simp
  | cons piece pieces ih =>
      have first : (reader.feed piece).surplus ++ pieces.flatten <:+
          reader.surplus ++ piece ++ pieces.flatten := by
        rw [feed, settle_surplus]
        exact List.suffix_append_self_iff.mpr (surplus_readAll reader piece)
      exact (ih _).trans (by simpa using first)

/-- The body as far as it has been read, and the bytes after it. -/
def tail (reader : Reader) : Bytes := (reader.request.map (·.body)).getD [] ++ reader.surplus

/-- The header is over, and nothing but a body of known length is read after it. -/
def Counts (reader : Reader) : Prop := reader.state = .body ∨ reader.state = .complete

theorem Counts.pastHeader (counts : reader.Counts) : reader.phase.PastHeader := by
  unfold Counts state at counts
  cases phase : reader.phase with
  | line kind seen => cases kind <;> simp [phase] at counts
  | failed => simp [phase] at counts
  | fault => simp [phase] at counts
  | _ => trivial

/-- Every byte then belongs to the body or comes after it. -/
theorem Counts.readAll {request : HttpRequest} (counts : reader.Counts)
    (present : reader.request = some request) (text : Bytes) :
    (reader.readAll text).Counts ∧ (reader.readAll text).chunked = reader.chunked ∧
      (reader.readAll text).tail = reader.tail ++ text := by
  cases phase : reader.phase with
  | line kind seen => cases kind <;> simp [Counts, state, phase] at counts
  | body missing =>
      by_cases empty : text = []
      · simp [empty, counts]
      by_cases enough : missing ≤ text.length
      · rw [readAll_body_ge phase present enough empty]
        simp [Counts, tail, state, surplus, phase, present]
      · rw [readAll_body_lt phase present (Nat.lt_of_not_le enough)]
        simp [Counts, tail, state, surplus, phase, present]
  | chunkData missing => simp [Counts, state, phase] at counts
  | complete rest =>
      rw [readAll_complete phase]
      simp [Counts, tail, state, surplus, phase]
  | failed => simp [Counts, state, phase] at counts
  | fault => simp [Counts, state, phase] at counts

theorem Counts.feed {request : HttpRequest} (counts : reader.Counts)
    (present : reader.request = some request) (text : Bytes) :
    (reader.feed text).Counts ∧ (reader.feed text).chunked = reader.chunked ∧
      (reader.feed text).tail = reader.tail ++ text := by
  rcases counts.readAll present text with ⟨stays, same, grown⟩
  refine ⟨?_, by rw [Reader.feed, settle_chunked, same], ?_⟩
  · rwa [Counts, Reader.feed, settle_state]
  · rwa [tail, Reader.feed, settle_request, settle_surplus]

/-! ## The head of a run -/

/-- A call after the header only appends to the body. -/
theorem AfterHeader.appends (past : reader.AfterHeader) (text : Bytes) :
    (reader.feed text).AfterHeader ∧
      ∃ data, (reader.feed text).request = reader.request.map (·.appendBody data) := by
  simp only [feed, AfterHeader, settle_state, settle_request]
  exact past.readAll text

theorem afterHeader_of_pastHeader (past : reader.phase.PastHeader) : reader.AfterHeader := by
  unfold AfterHeader state
  cases phase : reader.phase with
  | line kind seen => cases kind <;> simp [phase, Phase.PastHeader] at past ⊢
  | _ => simp

/-- A reader that has failed never gets past a header. -/
theorem AfterHeader.pastHeader_of_feed (after : reader.AfterHeader)
    (past : (reader.feed text).phase.PastHeader) : reader.phase.PastHeader := by
  unfold AfterHeader state at after
  cases phase : reader.phase with
  | line kind seen => cases kind <;> simp [phase, Phase.PastHeader] at after ⊢
  | failed =>
      rw [feed, readAll_failed phase, settle_of_not_chunkSize (by simp [phase]), phase] at past
      exact past
  | fault =>
      rw [feed, readAll_fault phase, settle_of_not_chunkSize (by simp [phase]), phase] at past
      exact past
  | _ => trivial

theorem afterHeader_settle : reader.settle.AfterHeader ↔ reader.AfterHeader := by
  simp [AfterHeader]

theorem pastHeader_settle : reader.settle.phase.PastHeader ↔ reader.phase.PastHeader := by
  simp only [settle]
  split
  next afterData seen phase => simp [phase, Phase.PastHeader]
  next => rfl

theorem settle_of_header (inside : ¬reader.AfterHeader) : reader.settle = reader :=
  settle_of_not_chunkSize fun afterData seen phase => inside (by simp [AfterHeader, state, phase])

/-- In the header it makes no difference how the bytes are cut into calls. -/
theorem foldl_feed_of_readAll (inside : ¬(reader.readAll pieces.flatten).AfterHeader) :
    pieces.foldl feed reader = reader.readAll pieces.flatten := by
  induction pieces generalizing reader with
  | nil => rfl
  | cons piece pieces ih =>
      rw [List.flatten_cons, readAll_append] at inside ⊢
      have before : ¬(reader.readAll piece).AfterHeader := fun after =>
        inside (after.readAll pieces.flatten).1
      rw [List.foldl_cons, feed, settle_of_header before, ih inside]

theorem foldl_feed_of_header (inside : ¬(pieces.foldl feed reader).AfterHeader) :
    pieces.foldl feed reader = reader.readAll pieces.flatten := by
  induction pieces using List.reverseRecOn with
  | nil => rfl
  | append_singleton pieces piece ih =>
      rw [List.foldl_append, List.foldl_cons, List.foldl_nil] at inside ⊢
      have before : ¬(pieces.foldl feed reader).AfterHeader := fun after =>
        inside (after.appends piece).1
      rw [ih before, feed, afterHeader_settle] at inside
      rw [ih before, feed, settle_of_header inside, ← readAll_append]
      simp

/-- The reader at the end of a head. -/
theorem afterHeader_readAll_head (head : Head) :
    (readAll {} head.text).AfterHeader ∧ (readAll {} head.text).request = some head.request := by
  rw [readAll_head, endHeader]
  cases framing : head.request.framing <;> simp [AfterHeader, state]

/-- **The head of a run.**  However the bytes are cut into calls, once they have taken the
reader past the header they start with a head, and the request is the one it describes with
what has been read of its body. -/
theorem exists_head_of_foldl_feed (past : (pieces.foldl feed {}).phase.PastHeader) :
    ∃ (head : Head) (rest body : Bytes), pieces.flatten = head.text ++ rest ∧
      (pieces.foldl feed {}).request = some (head.request.appendBody body) := by
  induction pieces using List.reverseRecOn with
  | nil => exact past.elim
  | append_singleton pieces piece ih =>
      rw [List.foldl_append, List.foldl_cons, List.foldl_nil] at past ⊢
      rw [List.flatten_append, List.flatten_singleton]
      by_cases after : (pieces.foldl feed {}).AfterHeader
      · rcases ih (after.pastHeader_of_feed past) with ⟨head, rest, body, begins, present⟩
        rcases (after.appends piece).2 with ⟨data, appends⟩
        refine ⟨head, rest ++ piece, body ++ data, by simp [begins], ?_⟩
        rw [appends, present]
        simp
      · rw [foldl_feed_of_header after, feed, pastHeader_settle, ← readAll_append] at past
        rcases exists_head past with ⟨head, rest, begins⟩
        rcases afterHeader_readAll_head head with ⟨ended, described⟩
        rcases (ended.appends rest).2 with ⟨data, appends⟩
        refine ⟨head, rest, data, begins, ?_⟩
        rw [foldl_feed_of_header after, feed, ← readAll_append, begins, readAll_append]
        rw [described] at appends
        exact appends

theorem Sound.feed (sound : reader.Sound) (text : Bytes) :
    (reader.feed text).Sound ∧ (reader.chunked = true → (reader.feed text).chunked = true) := by
  simp only [Reader.feed, Sound, settle_state, settle_chunked]
  exact sound.readAll text

theorem Sound.foldl_feed (sound : reader.Sound) (pieces : List Bytes) :
    reader.chunked = true → (pieces.foldl Reader.feed reader).chunked = true := by
  induction pieces generalizing reader with
  | nil => exact id
  | cons piece pieces ih =>
      rcases sound.feed piece with ⟨nextSound, keeps⟩
      exact ih nextSound ∘ keeps

/-- Unless the header has selected chunks, it makes no difference after it either. -/
theorem foldl_feed_of_not_chunked (sound : reader.Sound)
    (unchunked : (pieces.foldl feed reader).chunked = false) :
    pieces.foldl feed reader = reader.readAll pieces.flatten := by
  induction pieces generalizing reader with
  | nil => rfl
  | cons piece pieces ih =>
      rw [List.foldl_cons] at unchunked ⊢
      rw [ih (sound.feed piece).1 unchunked, List.flatten_cons, readAll_append, feed]
      rw [settle_of_unchunked (sound.readAll piece).1]
      by_contra selected
      rw [Bool.not_eq_false, ← settle_chunked] at selected
      rw [(sound.feed piece).1.foldl_feed pieces selected] at unchunked
      cases unchunked

end Reader

namespace HttpParser

variable {start parser next after middle : HttpParser} {data piece unread : Bytes}
variable {pieces : List Bytes} {result : ParseResult} {loop following last : ParseLoop}

/-! ## Points of a run of calls -/

/-- A parser as its constructor or `Reset` leaves it. -/
def IsNew (start : HttpParser) : Prop := start = {} ∨ ∃ used : HttpParser, start = used.reset

theorem IsNew.spec (new : start.IsNew) : start.Invariant ∧ start.Settled ∧ start.view = {} := by
  rcases new with rfl | ⟨used, rfl⟩
  · exact ⟨.fresh, settled_fresh, view_fresh⟩
  · exact ⟨.reset used, settled_reset used, view_reset used⟩

/-- After some calls, the last of which may still be running, the parser is `parser` and has
not read `unread` of what it was given. -/
inductive Observed (start : HttpParser) : List Bytes → HttpParser → Bytes → Prop where
  | between {pieces : List Bytes} {after : HttpParser} :
      Feeds start pieces after → Observed start pieces after after.buffer
  | within {pieces : List Bytes} {piece : Bytes} {middle : HttpParser} {loop : ParseLoop} :
      Feeds start pieces middle → piece ≠ [] → Reaches parsePass (enter middle piece) loop →
      Observed start (pieces ++ [piece]) loop.parser (loop.parser.buffer.drop loop.pos)

theorem settle_view (settled : parser.Settled) : parser.view.settle = parser.view := by
  by_cases complete : parser.state = .complete
  · rw [view_of_complete complete]
    rfl
  · rw [view_of_not_complete settled complete, settle_reader]

/-- A run of calls feeds the reader one piece after the other, empty ones included. -/
theorem Feeds.view (feeds : Feeds parser pieces after) (invariant : parser.Invariant)
    (settled : parser.Settled) :
    after.Invariant ∧ after.Settled ∧ after.view = pieces.foldl Reader.feed parser.view := by
  induction feeds with
  | nil => exact ⟨invariant, settled, rfl⟩
  | @cons parser next after piece pieces result parses _ ih =>
      rcases parses.invariant invariant settled with ⟨nextInvariant, nextSettled⟩
      rcases ih nextInvariant nextSettled with ⟨afterInvariant, afterSettled, view⟩
      refine ⟨afterInvariant, afterSettled, ?_⟩
      rw [view, List.foldl_cons]
      by_cases empty : piece = []
      · subst empty
        rcases parses_nil_iff.mp parses with ⟨-, rfl⟩
        rw [Reader.feed, Reader.readAll_nil, settle_view settled]
      · rw [parses.view empty invariant]

/-- What is unread makes of the members what the whole run makes of them. -/
theorem Observed.spec (observed : Observed start pieces parser unread) (new : start.IsNew) :
    parser.Invariant ∧ parser.reader.feed unread = pieces.foldl Reader.feed {} := by
  rcases new.spec with ⟨invariant, settled, view⟩
  cases observed with
  | between feeds =>
      rcases feeds.view invariant settled with ⟨afterInvariant, afterSettled, afterView⟩
      rw [← view, ← afterView, ← settle_view afterSettled]
      exact ⟨afterInvariant, rfl⟩
  | @within pieces piece middle loop feeds nonempty reaches =>
      rcases feeds.view invariant settled with ⟨midInvariant, -, midView⟩
      rcases reaches_spec reaches (midInvariant.enter _) with
        ⟨loopInvariant, verdict⟩
      rw [verdict_enter, midView, view] at verdict
      exact ⟨loopInvariant, by rw [List.foldl_append]; exact verdict⟩

/-! ## Every byte is accounted for -/

/-- What a run adds to the bytes that have been read, which are counted modulo 2^64. -/
theorem Feeds.exists_further (feeds : Feeds parser pieces after)
    (nonempty : ∀ piece ∈ pieces, piece ≠ []) (invariant : parser.Invariant)
    (settled : parser.Settled) (alive : after.state ≠ .error) :
    ∃ further, after.totalBytesParsed =
        (parser.totalBytesParsed + further.length) % sizeModulus ∧
      parser.buffer ++ pieces.flatten = further ++ after.buffer := by
  have wasAlive : parser.state ≠ .error := fun error =>
    alive (feeds.error nonempty invariant settled error)
  rcases feeds.view invariant settled with ⟨afterInvariant, afterSettled, view⟩
  have suffix := Reader.surplus_foldl_feed parser.view pieces
  rw [← view, view_surplus afterSettled alive, view_surplus settled wasAlive] at suffix
  rcases suffix with ⟨further, taken⟩
  refine ⟨further, ?_, taken.symm⟩
  have sums := feeds.count nonempty invariant settled alive
  have lengths := congrArg List.length taken
  have counted := afterInvariant.counted
  simp only [List.length_append, sizeModulus] at sums lengths counted ⊢
  omega

/-- With fewer than 2^64 bytes the count is exact. -/
theorem Feeds.exists_consumed (feeds : Feeds parser pieces after)
    (nonempty : ∀ piece ∈ pieces, piece ≠ []) (invariant : parser.Invariant)
    (settled : parser.Settled) (alive : after.state ≠ .error)
    (fits : parser.totalBytesParsed + (parser.buffer ++ pieces.flatten).length < sizeModulus) :
    ∃ further, after.totalBytesParsed = parser.totalBytesParsed + further.length ∧
      parser.buffer ++ pieces.flatten = further ++ after.buffer := by
  rcases feeds.exists_further nonempty invariant settled alive with ⟨further, counted, taken⟩
  rw [taken, List.length_append] at fits
  rw [Nat.mod_eq_of_lt (by omega)] at counted
  exact ⟨further, counted, taken⟩

/-- **Conservation of bytes.**  Unless a run of calls with data ends in `ERROR`, the bytes it
was given are the first `total_bytes_parsed_` of them and then what is in `buffer_`, and the
calls that follow only add to the first part. -/
theorem bytes_conserved (feeds : Feeds {} pieces after)
    (nonempty : ∀ piece ∈ pieces, piece ≠ []) (fits : pieces.flatten.length < sizeModulus)
    (alive : after.state ≠ .error) :
    ∃ consumed, consumed.length = after.totalBytesParsed ∧
      pieces.flatten = consumed ++ after.buffer ∧
      ∀ more later, Feeds after more later → (∀ piece ∈ more, piece ≠ []) →
        (pieces ++ more).flatten.length < sizeModulus → later.state ≠ .error →
        ∃ further, (consumed ++ further).length = later.totalBytesParsed ∧
          (pieces ++ more).flatten = (consumed ++ further) ++ later.buffer := by
  rcases feeds.exists_consumed nonempty .fresh settled_fresh alive (by simpa using fits) with
    ⟨consumed, length, taken⟩
  simp only [Nat.zero_add, List.nil_append] at length taken
  refine ⟨consumed, length.symm, taken, ?_⟩
  intro more later moreFeeds moreNonempty moreFits laterAlive
  rcases feeds.view .fresh settled_fresh with ⟨invariant, settled, -⟩
  have sum : after.totalBytesParsed + (after.buffer ++ more.flatten).length < sizeModulus := by
    rw [List.flatten_append, taken] at moreFits
    simp only [List.length_append] at moreFits ⊢
    omega
  rcases moreFeeds.exists_consumed moreNonempty invariant settled laterAlive sum with
    ⟨further, laterLength, laterTaken⟩
  refine ⟨further, ?_, ?_⟩
  · rw [List.length_append, ← length, laterLength]
  · rw [List.flatten_append, taken, List.append_assoc, laterTaken, List.append_assoc]

/-- A request whose last call brought three bytes too many, two of them in that call. -/
theorem bytes_conserved_surplus :
    ∃ after, Feeds {} [bytes "GET / HTTP/1.1\r\n", bytes "\r\nGE", bytes "T"] after ∧
      ∃ consumed, consumed.length = after.totalBytesParsed ∧
        [bytes "GET / HTTP/1.1\r\n", bytes "\r\nGE", bytes "T"].flatten =
          consumed ++ after.buffer ∧
        ∀ more later, Feeds after more later → (∀ piece ∈ more, piece ≠ []) →
          ([bytes "GET / HTTP/1.1\r\n", bytes "\r\nGE", bytes "T"] ++ more).flatten.length <
            sizeModulus → later.state ≠ .error →
          ∃ further, (consumed ++ further).length = later.totalBytesParsed ∧
            ([bytes "GET / HTTP/1.1\r\n", bytes "\r\nGE", bytes "T"] ++ more).flatten =
              (consumed ++ further) ++ later.buffer := by
  refine ⟨_, feeds_get 4 (by decide), ?_⟩
  exact bytes_conserved (feeds_get 4 (by decide)) (by decide) (by decide) (by decide)

end HttpParser

end PPServer.Http
