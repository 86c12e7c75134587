import PPServer.Http.Grammar
import PPServer.Http.Refinement

/-!
# What the members of a parser say about its reader

Between two calls the members of a parser can be read off its view.  Two facts about
whole runs of calls follow that every result about runs needs: without chunks the
pieces make no difference to the view (`Feeds.view_of_unchunked`), and the byte count
and the unread bytes together account for all the bytes (`Feeds.count`).
-/

namespace PPServer.Http

open Loop

namespace Reader

variable {reader : Reader} {pieces : List Bytes}

/-- The `state_` of a parser with this view. -/
def state (reader : Reader) : ParseState :=
  match reader.phase with
  | .line .request _ => .startLine
  | .line .header _ => .headers
  | .line (.chunkSize _) _ => .chunkedBody
  | .body _ => .body
  | .chunkData _ => .chunkedBody
  | .complete _ => .complete
  | .failed | .fault => .error

/-- The bytes after the end of the message. -/
def surplus (reader : Reader) : Bytes :=
  match reader.phase with
  | .complete surplus => surplus
  | _ => []

@[simp] theorem settle_state (reader : Reader) : reader.settle.state = reader.state := by
  simp only [settle]
  split
  next afterData seen phase => simp [state, phase]
  next => rfl

/-- The bytes take the reader to the end of the message, or to a line that is refused. -/
def Concludes (reader : Reader) (data : Bytes) : Prop :=
  (∃ surplus, (reader.readAll data).phase = .complete surplus) ∨
    (reader.readAll data).phase = .failed

/-! ## Chunks are read only if the header selected them -/

def Sound (reader : Reader) : Prop := reader.state = .chunkedBody → reader.chunked = true

theorem Sound.endLine (sound : reader.Sound) {kind : LineKind} {seen : Bytes}
    (phase : reader.phase = .line kind seen) (line : Bytes) :
    (reader.endLine kind line).Sound ∧
      (reader.chunked = true → (reader.endLine kind line).chunked = true) := by
  simp only [Reader.endLine, endHeader]
  cases kind with
  | request => dsimp only; split <;> simp [Sound, state]
  | header =>
      dsimp only
      split
      next => split <;> (try split) <;> simp [Sound, state]
      next => split <;> simp [Sound, state]
  | chunkSize afterData =>
      have selected : reader.chunked = true := sound (by simp [state, phase])
      dsimp only
      split
      next => simp [Sound, selected]
      next => split <;> simp [Sound, selected]

theorem Sound.read (sound : reader.Sound) (byte : Byte) :
    (reader.read byte).Sound ∧ (reader.chunked = true → (reader.read byte).chunked = true) := by
  simp only [Reader.read]
  split
  next kind seen phase =>
      split
      next => exact sound.endLine phase _
      next =>
          refine ⟨fun chunks => sound ?_, id⟩
          cases kind <;> simp_all [state]
  next => split <;> simp [Sound, state]
  next => simp only [readData]; split <;> (try split) <;> simp [Sound, state]
  next missing phase =>
      have selected : reader.chunked = true := sound (by simp [state, phase])
      simp only [readData]
      split <;> simp [Sound, selected]
  next => simp [Sound, state]
  next => exact ⟨sound, id⟩
  next => exact ⟨sound, id⟩

theorem Sound.readAll (sound : reader.Sound) (text : Bytes) :
    (reader.readAll text).Sound ∧
      (reader.chunked = true → (reader.readAll text).chunked = true) := by
  induction text generalizing reader with
  | nil => exact ⟨sound, id⟩
  | cons byte text ih =>
      rcases sound.read byte with ⟨nextSound, keeps⟩
      rcases ih nextSound with ⟨lastSound, keepsOn⟩
      exact ⟨lastSound, keepsOn ∘ keeps⟩

theorem sound_fresh : Sound {} := by simp [Sound, state]

/-- Without chunks there is nothing to forget at the end of a call. -/
theorem settle_of_unchunked (sound : reader.Sound) (unchunked : reader.chunked = false) :
    reader.settle = reader := by
  refine settle_of_not_chunkSize fun afterData seen phase => ?_
  have selected := sound (by simp [state, phase])
  rw [unchunked] at selected
  cases selected

/-- Without chunks it makes no difference how the bytes are cut into calls. -/
theorem foldl_feed_of_unchunked (sound : reader.Sound)
    (unchunked : (reader.readAll pieces.flatten).chunked = false) :
    pieces.foldl feed reader = reader.readAll pieces.flatten := by
  induction pieces generalizing reader with
  | nil => rfl
  | cons piece pieces ih =>
      rw [List.flatten_cons, readAll_append] at unchunked ⊢
      have nextSound := (sound.readAll piece).1
      have nextUnchunked : (reader.readAll piece).chunked = false := by
        by_contra selected
        rw [Bool.not_eq_false] at selected
        rw [(nextSound.readAll pieces.flatten).2 selected] at unchunked
        cases unchunked
      rw [List.foldl_cons, feed, settle_of_unchunked nextSound nextUnchunked]
      exact ih nextSound unchunked

end Reader

namespace HttpParser

variable {parser next after : HttpParser} {data : Bytes} {pieces : List Bytes}
variable {result : ParseResult} {loop following last : ParseLoop}

/-! ## Reading the members off the view -/

theorem view_of_complete (complete : parser.state = .complete) :
    parser.view = { parser.reader with phase := .complete parser.buffer } := by
  rw [view, Reader.readAll_complete (by simp [reader, complete] : _ = Phase.complete [])]
  rfl

theorem view_of_not_complete (settled : parser.Settled)
    (notComplete : parser.state ≠ .complete) : parser.view = parser.reader := by
  by_cases error : parser.state = .error
  · rw [view, Reader.readAll_failed (by simp [reader, error])]
  · rw [view, settled notComplete error, Reader.readAll_nil]

theorem reader_state (parser : HttpParser) : parser.reader.state = parser.state := by
  simp only [reader, Reader.state]
  cases state : parser.state <;> simp
  cases parser.chunkSizeParsed <;> rfl

theorem view_state (settled : parser.Settled) : parser.view.state = parser.state := by
  by_cases complete : parser.state = .complete
  · rw [view_of_complete complete, complete]
    rfl
  · rw [view_of_not_complete settled complete, reader_state]

theorem view_request (settled : parser.Settled) : parser.view.request = parser.request := by
  by_cases complete : parser.state = .complete
  · rw [view_of_complete complete]
    rfl
  · rw [view_of_not_complete settled complete]
    rfl

theorem view_chunked (settled : parser.Settled) :
    parser.view.chunked = parser.chunkedEncoding := by
  by_cases complete : parser.state = .complete
  · rw [view_of_complete complete]
    rfl
  · rw [view_of_not_complete settled complete]
    rfl

theorem view_surplus (settled : parser.Settled) (alive : parser.state ≠ .error) :
    parser.view.surplus = parser.buffer := by
  by_cases complete : parser.state = .complete
  · rw [view_of_complete complete]
    rfl
  · rw [view_of_not_complete settled complete, settled complete alive]
    have other : parser.reader.state ≠ .complete := by rwa [reader_state]
    simp only [Reader.surplus]
    split
    next phase => simp [Reader.state, phase] at other
    next => rfl

/-! ## Runs of calls -/

theorem settled_fresh : Settled {} := fun _ _ => rfl

theorem sound_reader (invariant : parser.Invariant) : parser.reader.Sound := by
  rw [Reader.Sound, reader_state]
  exact fun chunks => (invariant.chunk chunks).1

/-- Without chunks a run of calls has the view of a single reading. -/
theorem Feeds.view_of_unchunked (feeds : Feeds {} pieces after)
    (nonempty : ∀ piece ∈ pieces, piece ≠ [])
    (unchunked : (Reader.readAll {} pieces.flatten).chunked = false) :
    after.Invariant ∧ after.Settled ∧ after.view = Reader.readAll {} pieces.flatten := by
  rcases feeds.spec nonempty .fresh settled_fresh with ⟨invariant, settled, view⟩
  exact ⟨invariant, settled,
    view.trans (Reader.foldl_feed_of_unchunked Reader.sound_fresh unchunked)⟩

/-- Once in `ERROR`, a parser stays there. -/
theorem Parses.error (parses : Parses parser data result after) (nonempty : data ≠ [])
    (invariant : parser.Invariant) (settled : parser.Settled)
    (error : parser.state = .error) : after.state = .error := by
  have failed : parser.reader.phase = .failed := by simp [reader, error]
  have view := parses.view nonempty invariant
  rw [view_of_not_complete settled (by simp [error]), Reader.feed,
    Reader.readAll_failed failed, settle_reader] at view
  have afterSettled := (parses.invariant invariant settled).2
  rw [← view_state afterSettled, view, reader_state, error]

/-- Once in `COMPLETE`, too. -/
theorem Parses.complete (parses : Parses parser data result after) (nonempty : data ≠ [])
    (invariant : parser.Invariant) (settled : parser.Settled)
    (complete : parser.state = .complete) : after.state = .complete := by
  have phase : parser.view.phase = .complete parser.buffer := by rw [view_of_complete complete]
  have view := parses.view nonempty invariant
  have afterSettled := (parses.invariant invariant settled).2
  rw [← view_state afterSettled, view, Reader.feed, Reader.settle_state,
    Reader.readAll_complete phase]
  rfl

/-- Whether a call comes to an end of the message, good or bad, can be told from its bytes. -/
theorem Parses.concludes_iff (parses : Parses parser data result after) (nonempty : data ≠ [])
    (invariant : parser.Invariant) (settled : parser.Settled) :
    parser.view.Concludes data ↔ after.state = .complete ∨ after.state = .error := by
  have afterSettled := (parses.invariant invariant settled).2
  have noFault := (parses.spec nonempty invariant).2.2
  rw [Reader.feed, ne_eq, Reader.settle_phase_fault] at noFault
  rw [← view_state afterSettled, parses.view nonempty invariant, Reader.feed,
    Reader.settle_state, Reader.Concludes, Reader.state]
  cases phase : (parser.view.readAll data).phase with
  | line kind seen => cases kind <;> simp
  | fault => exact absurd phase noFault
  | body missing | chunkData missing | complete surplus | failed => simp

theorem Feeds.error (feeds : Feeds parser pieces after)
    (nonempty : ∀ piece ∈ pieces, piece ≠ []) (invariant : parser.Invariant)
    (settled : parser.Settled) (error : parser.state = .error) : after.state = .error := by
  induction feeds with
  | nil => exact error
  | cons parses _ ih =>
      have first := nonempty _ (List.mem_cons_self)
      rcases parses.invariant invariant settled with ⟨nextInvariant, nextSettled⟩
      exact ih (fun piece member => nonempty piece (by simp [member])) nextInvariant
        nextSettled (parses.error first invariant settled error)

/-- Unless the run ends in `ERROR`, the byte count and the unread bytes account for
all the bytes. -/
theorem Feeds.count (feeds : Feeds parser pieces after)
    (nonempty : ∀ piece ∈ pieces, piece ≠ []) (invariant : parser.Invariant)
    (settled : parser.Settled) (alive : after.state ≠ .error) :
    (after.totalBytesParsed + after.buffer.length) % sizeModulus =
      (parser.totalBytesParsed + parser.buffer.length + pieces.flatten.length) %
        sizeModulus := by
  induction feeds with
  | nil => simp
  | @cons parser next after piece pieces result parses feeds ih =>
      have first := nonempty piece (by simp)
      have others : ∀ piece ∈ pieces, piece ≠ [] :=
        fun piece member => nonempty piece (by simp [member])
      rcases parses.invariant invariant settled with ⟨nextInvariant, nextSettled⟩
      have nextAlive : next.state ≠ .error :=
        fun error => alive (feeds.error others nextInvariant nextSettled error)
      have counted := (parses.spec first invariant).1.count nextAlive
      rw [ih others nextInvariant nextSettled alive, Nat.add_mod, counted, ← Nat.add_mod]
      simp only [enter, List.length_append, List.flatten_cons, Nat.sub_zero, Nat.add_assoc]

/-! ## A message in one call -/

/-- A call with bytes that take the reader to the end of a message. -/
theorem exists_parses_of_complete {surplus : Bytes} {request : HttpRequest} {chunked : Bool}
    (nonempty : data ≠ []) (invariant : parser.Invariant) (settled : parser.Settled)
    (view : parser.view.readAll data = ⟨.complete surplus, some request, chunked⟩) :
    ∃ result after, Parses parser data result after ∧ after.state = .complete ∧
      after.request = some request ∧ after.buffer = surplus := by
  have feed : parser.view.feed data = ⟨.complete surplus, some request, chunked⟩ := by
    rw [Reader.feed, view]
    rfl
  obtain ⟨result, after, parses⟩ := (exists_parses_iff invariant nonempty).mpr (by
    rw [feed]
    simp [Reader.InsideLine])
  have afterView := (parses.view nonempty invariant).trans feed
  rcases parses.invariant invariant settled with ⟨-, afterSettled⟩
  have state : after.state = .complete := by
    rw [← view_state afterSettled, afterView]
    rfl
  refine ⟨result, after, parses, state, ?_, ?_⟩
  · rw [← view_request afterSettled, afterView]
  · rw [← view_surplus afterSettled (by simp [state]), afterView]
    rfl

/-- Given to a new parser in one call, a message is read to its end, but for the last
CRLF of a chunked one, whatever follows it. -/
theorem exists_parses_message (message : Message) (rest : Bytes) :
    ∃ result after, Parses {} (message.text ++ rest) result after ∧ after.state = .complete ∧
      after.request = some message.request ∧ after.buffer = message.unread ++ rest := by
  refine exists_parses_of_complete ?_ .fresh settled_fresh (message.readAll_text rest)
  simp [message.text_ne_nil]

/-! ## Entering `CHUNKED_BODY` -/

/-- In the course of the call `Parse(data)` the state is `CHUNKED_BODY`. -/
def EntersChunkedBody (parser : HttpParser) (data : Bytes) : Prop :=
  ∃ loop, Reaches parsePass (enter parser data) loop ∧ loop.parser.state = .chunkedBody

theorem endHeaders_chunkedEncoding {pos : Nat} {exit : StageExit}
    (ends : parser.endHeaders result pos = .ok exit) :
    exit.parser.chunkedEncoding = parser.chunkedEncoding ∨
      exit.result.success = result.success ∧ exit.parser.state = .chunkedBody := by
  unfold endHeaders at ends
  split at ends
  next => cases ends
  next =>
      dsimp only at ends
      split at ends
      next => split at ends <;> cases ends <;> exact .inl rfl
      next =>
          split at ends <;> cases ends
          · exact .inr ⟨rfl, rfl⟩
          · exact .inl rfl

theorem parseStartLine_chunkedEncoding {pos : Nat} {exit : StageExit}
    (stage : parser.parseStartLine data pos = .ok exit) :
    exit.parser.chunkedEncoding = parser.chunkedEncoding := by
  unfold parseStartLine at stage
  split at stage
  next => cases stage; rfl
  next =>
      dsimp only at stage
      split at stage
      next => cases stage; rfl
      next =>
          split at stage
          next => cases stage; rfl
          next =>
              split at stage
              next => cases stage; rfl
              next => split at stage <;> cases stage; rfl

theorem parseHeaders_chunkedEncoding {pos : Nat} {exit : StageExit}
    (stage : parser.parseHeaders data pos = .ok exit) :
    exit.parser.chunkedEncoding = parser.chunkedEncoding ∨
      exit.result.success = true ∧ exit.parser.state = .chunkedBody := by
  refine total_induction (headersPass_decreases _ _)
    (fun state outcome => outcome = .ok exit →
      exit.parser.chunkedEncoding = state.1.chunkedEncoding ∨
        exit.result.success = true ∧ exit.parser.state = .chunkedBody) ?_ ?_ _ stage
  · rintro ⟨parser, pos⟩ outcome leaves rfl
    simp only [headersPass] at leaves
    split at leaves
    next =>
        split at leaves
        next => cases leaves; exact .inl rfl
        next =>
            split at leaves
            next =>
                simp only [Pass.leave.injEq] at leaves
                exact endHeaders_chunkedEncoding leaves
            next =>
                split at leaves
                next => cases leaves; exact .inl rfl
                next => split at leaves <;> cases leaves
    next => cases leaves; exact .inl rfl
  · rintro ⟨parser, pos⟩ ⟨following, nextPos⟩ outcome step carried rfl
    have same : following.chunkedEncoding = parser.chunkedEncoding := by
      cases headerStep_of_again step
      rfl
    rw [← same]
    exact carried rfl

theorem parseBody_chunkedEncoding {pos : Nat} {exit : StageExit}
    (stage : parser.parseBody data pos = .ok exit) :
    exit.parser.chunkedEncoding = parser.chunkedEncoding := by
  simp only [parseBody] at stage
  split at stage
  next => cases stage
  next => split at stage <;> cases stage <;> rfl

/-- `chunked_encoding_` changes only where `CHUNKED_BODY` is entered. -/
theorem parseStage_chunkedEncoding {exit : StageExit} (stage : parseStage loop = .ok exit)
    (other : loop.parser.state ≠ .chunkedBody) :
    exit.parser.chunkedEncoding = loop.parser.chunkedEncoding ∨
      exit.result.success = true ∧ exit.parser.state = .chunkedBody := by
  simp only [parseStage] at stage
  split at stage
  next => exact .inl (parseStartLine_chunkedEncoding stage)
  next => exact parseHeaders_chunkedEncoding stage
  next => exact .inl (parseBody_chunkedEncoding stage)
  next state => exact absurd state other
  next => cases stage; exact .inl rfl
  next => cases stage; exact .inl rfl

/-- The same for a pass of the outer loop, whether it goes round again or leaves. -/
theorem parsePass_chunkedEncoding (loop : ParseLoop) (other : loop.parser.state ≠ .chunkedBody) :
    match parsePass loop with
    | .again following =>
        following.parser.chunkedEncoding = loop.parser.chunkedEncoding ∨
          following.parser.state = .chunkedBody
    | .leave (.ok (_, after)) => after.chunkedEncoding = loop.parser.chunkedEncoding
    | .leave (.error _) => True := by
  by_cases active : Active loop
  case neg =>
    rw [parsePass_inactive active]
    simp only [finish]
    split <;> rfl
  case pos =>
    rw [parsePass_active active]
    cases stage : parseStage loop with
    | error fault => trivial
    | ok exit =>
        have changes := parseStage_chunkedEncoding stage other
        cases success : exit.result.success with
        | false => simpa [success] using changes
        | true => simpa [success] using changes

/-- A call that does not enter `CHUNKED_BODY` leaves `chunked_encoding_` unset. -/
theorem Parses.chunkedEncoding (parses : Parses parser data result after)
    (nonempty : data ≠ []) (unset : parser.chunkedEncoding = false)
    (never : ¬parser.EntersChunkedBody data) : after.chunkedEncoding = false := by
  rw [parses_iff_returns nonempty] at parses
  rcases parses.exists_last with ⟨last, reaches, leaves⟩
  have unsetAt : last.parser.chunkedEncoding = false := by
    clear leaves
    induction reaches with
    | refl => exact unset
    | @tail loop following before step ih =>
        have changes := parsePass_chunkedEncoding loop fun chunks =>
          never ⟨loop, before, chunks⟩
        rw [step] at changes
        rcases changes with same | chunks
        · exact same.trans ih
        · exact absurd ⟨following, before.tail step, chunks⟩ never
  have changes := parsePass_chunkedEncoding last fun chunks =>
    never ⟨last, reaches, chunks⟩
  rw [leaves] at changes
  exact changes.trans unsetAt

/-- A call that returns has entered `CHUNKED_BODY` exactly if `chunked_encoding_` is
set afterwards. -/
theorem Parses.entersChunkedBody_iff (parses : Parses parser data result after)
    (nonempty : data ≠ []) (invariant : parser.Invariant) (settled : parser.Settled)
    (unset : parser.chunkedEncoding = false) :
    parser.EntersChunkedBody data ↔ after.chunkedEncoding = true := by
  constructor
  · intro enters
    rcases enters with ⟨loop, reaches, chunks⟩
    have afterSettled := (parses.invariant invariant settled).2
    have spec := reaches_spec reaches (invariant.enter data)
    have view : after.view = loop.parser.verdict loop.parser.buffer loop.pos := by
      rw [spec.2, verdict_enter, parses.view nonempty invariant]
    rw [← view_chunked afterSettled, view, verdict, Reader.feed, Reader.settle_chunked]
    exact ((sound_reader spec.1).readAll _).2 (spec.1.chunk chunks).1
  · intro set
    by_contra never
    rw [parses.chunkedEncoding nonempty unset never] at set
    cases set

end HttpParser

end PPServer.Http
