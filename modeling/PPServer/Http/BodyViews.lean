import PPServer.Http.Ambiguity
import PPServer.Http.Progress
import PPServer.Http.Termination

/-!
# What the parser and the request say of the body

The parser settles the framing of a body at the end of the header and keeps it in
`content_length_` and `chunked_encoding_`; `GetContentLength` and `IsChunked` read the header
table of the request again.  `Framed` links the members of a parser with the framing that the
header table selects.  Every stage keeps it, and where a request is complete it says how the
two views of the body compare.
-/

namespace PPServer.Http

open Loop

namespace HttpParser

variable {start parser next after : HttpParser} {data unread : Bytes} {pos : Nat}
variable {pieces : List Bytes} {result : ParseResult} {request : HttpRequest}
variable {loop following last : ParseLoop} {exit : StageExit} {head : Head}

/-! ## The framing a parser works with -/

/-- The members of a parser that read `request` are those of its framing. -/
def FramedAs (parser : HttpParser) (request : HttpRequest) : Prop :=
  match parser.state with
  | .startLine | .headers => parser.chunkedEncoding = false ∧ request.body = []
  | .body =>
      parser.chunkedEncoding = false ∧ request.framing = .length parser.contentLength ∧
        request.body.length ≤ parser.contentLength
  | .chunkedBody => parser.chunkedEncoding = true ∧ request.framing = .chunked
  | .complete =>
      match request.framing with
      | .none => parser.chunkedEncoding = false ∧ request.body = []
      | .length size =>
          parser.chunkedEncoding = false ∧ size = parser.contentLength ∧
            request.body.length = size
      | .chunked => parser.chunkedEncoding = true
      | .invalid => False
  | .error => True

def Framed (parser : HttpParser) : Prop :=
  ∀ request, parser.request = some request → parser.FramedAs request

theorem Framed.of_error (error : parser.state = .error) : parser.Framed := by
  intro request present
  simp [FramedAs, error]

theorem IsNew.framed (new : start.IsNew) : start.Framed := by
  rcases new with rfl | ⟨used, rfl⟩ <;>
  · intro request present
    cases present
    exact ⟨rfl, rfl⟩

theorem parseStartLine_framed (framed : parser.Framed) (state : parser.state = .startLine)
    (stage : parser.parseStartLine data pos = .ok exit) : exit.parser.Framed := by
  unfold parseStartLine at stage
  split at stage
  next => cases stage; exact framed
  next =>
      dsimp only at stage
      split at stage
      next => cases stage; exact .of_error rfl
      next =>
          split at stage
          next => cases stage; exact .of_error rfl
          next =>
              split at stage
              next => cases stage; exact .of_error rfl
              next =>
                  split at stage
                  next => cases stage
                  next request present =>
                      cases stage
                      intro other same
                      cases same
                      have before := framed request present
                      simp only [FramedAs, state] at before
                      exact before

theorem endHeaders_framed (framed : parser.Framed) (state : parser.state = .headers)
    (ends : parser.endHeaders result pos = .ok exit) : exit.parser.Framed := by
  unfold endHeaders at ends
  split at ends
  next => cases ends
  next request present =>
      have before := framed request present
      simp only [FramedAs, state] at before
      dsimp only at ends
      split at ends
      next given =>
          split at ends
          next length read =>
              cases ends
              intro other same
              have equal : request = other := Option.some.inj (present.symm.trans same)
              subst equal
              refine ⟨before.1, ?_, by simp [before.2]⟩
              rw [HttpRequest.framing, if_pos given, read]
              rfl
          next => cases ends; exact .of_error rfl
      next absent =>
          split at ends
          next chunks =>
              cases ends
              intro other same
              have equal : request = other := Option.some.inj (present.symm.trans same)
              subst equal
              refine ⟨rfl, ?_⟩
              rw [HttpRequest.framing, if_neg absent, if_pos chunks]
          next plain =>
              cases ends
              intro other same
              have equal : request = other := Option.some.inj (present.symm.trans same)
              subst equal
              have framing : request.framing = .none := by
                rw [HttpRequest.framing, if_neg absent, if_neg plain]
              simp only [FramedAs, transitionTo, framing]
              exact before

theorem HeaderStep.framed {nextPos : Nat} (step : HeaderStep data parser pos next nextPos)
    (framed : parser.Framed) (state : parser.state = .headers) : next.Framed := by
  cases step with
  | line unread found nonempty colon present =>
      intro other same
      cases same
      have before := framed _ present
      simp only [FramedAs, state] at before ⊢
      exact before

theorem parseHeaders_framed (framed : parser.Framed) (state : parser.state = .headers)
    (stage : parser.parseHeaders data pos = .ok exit) : exit.parser.Framed := by
  refine total_induction (headersPass_decreases _ _)
    (fun loop outcome => loop.1.Framed → loop.1.state = .headers → outcome = .ok exit →
      exit.parser.Framed) ?_ ?_ _ framed state stage
  · rintro ⟨parser, pos⟩ outcome leaves framed state rfl
    simp only [headersPass] at leaves
    split at leaves
    next =>
        split at leaves
        next => cases leaves; exact framed
        next =>
            split at leaves
            next =>
                simp only [Pass.leave.injEq] at leaves
                exact endHeaders_framed framed state leaves
            next =>
                split at leaves
                next => cases leaves; exact .of_error rfl
                next => split at leaves <;> cases leaves
    next => cases leaves; exact framed
  · rintro ⟨parser, pos⟩ ⟨following, nextPos⟩ outcome step carried framed state
    have taken := headerStep_of_again step
    have stays : following.state = .headers := by
      cases taken
      exact state
    exact carried (taken.framed framed state) stays

theorem parseBody_framed (framed : parser.Framed) (invariant : parser.Invariant)
    (state : parser.state = .body) (stage : parser.parseBody data pos = .ok exit) :
    exit.parser.Framed := by
  simp only [parseBody] at stage
  split at stage
  next => cases stage
  next request present =>
      have before := framed request present
      simp only [FramedAs, state] at before
      rcases before with ⟨unchunked, framing, bounded⟩
      rw [sizeSub_of_le bounded invariant.fits] at stage
      split at stage
      next enough =>
          cases stage
          intro other same
          cases same
          simp only [FramedAs, transitionTo, HttpRequest.framing_appendBody, framing]
          refine ⟨unchunked, trivial, ?_⟩
          rw [HttpRequest.appendBody_body, List.length_append, List.length_take,
            List.length_drop]
          omega
      next short =>
          cases stage
          intro other same
          cases same
          simp only [FramedAs, state, HttpRequest.framing_appendBody]
          refine ⟨unchunked, framing, ?_⟩
          rw [HttpRequest.appendBody_body, List.length_append, List.length_take,
            List.length_drop]
          omega

theorem ChunkStep.framed {nextPos : Nat} (step : ChunkStep data parser pos next nextPos)
    (framed : parser.Framed) (state : parser.state = .chunkedBody) :
    next.Framed ∧ next.state = .chunkedBody := by
  have before (request : HttpRequest) (present : parser.request = some request) :
      parser.chunkedEncoding = true ∧ request.framing = .chunked := by
    simpa only [FramedAs, state] using framed request present
  have after (other : HttpParser) (same : other.state = .chunkedBody)
      (selected : ∀ request, other.request = some request →
        other.chunkedEncoding = true ∧ request.framing = .chunked) :
      other.Framed ∧ other.state = .chunkedBody :=
    ⟨fun request present => by simpa only [FramedAs, same] using selected request present, same⟩
  cases step with
  | sizeLine => exact after _ state before
  | endSkipped _ _ present | endKept _ _ present | part _ _ present =>
      refine after _ state fun other same => ?_
      cases same
      rw [HttpRequest.framing_appendBody]
      exact before _ present

theorem parseChunkedBody_framed (framed : parser.Framed) (state : parser.state = .chunkedBody)
    (stage : parser.parseChunkedBody data pos = .ok exit) : exit.parser.Framed := by
  refine total_induction (chunkedPass_decreases _ _)
    (fun loop outcome => loop.1.Framed → loop.1.state = .chunkedBody → outcome = .ok exit →
      exit.parser.Framed) ?_ ?_ _ framed state stage
  · rintro ⟨parser, pos⟩ outcome leaves framed state rfl
    simp only [chunkedPass] at leaves
    split at leaves
    next =>
        split at leaves
        next =>
            split at leaves
            next => cases leaves; exact framed
            next =>
                split at leaves
                next =>
                    split at leaves
                    next =>
                        cases leaves
                        intro request present
                        have before := framed request present
                        simp only [FramedAs, show parser.state = .chunkedBody from state] at before
                        simp only [FramedAs, transitionTo, before.2]
                        exact before.1
                    next => cases leaves
                next => cases leaves; exact .of_error rfl
        next =>
            split at leaves
            next => cases leaves
            next =>
                split at leaves
                next => split at leaves <;> cases leaves
                next => cases leaves
    next => cases leaves; exact framed
  · rintro ⟨parser, pos⟩ ⟨following, nextPos⟩ outcome step carried framed state
    rcases (chunkStep_of_again step).framed framed state with ⟨nextFramed, stays⟩
    exact carried nextFramed stays

theorem parseStage_framed (framed : loop.parser.Framed) (invariant : loop.parser.Invariant)
    (stage : parseStage loop = .ok exit) : exit.parser.Framed := by
  simp only [parseStage] at stage
  split at stage
  next state => exact parseStartLine_framed framed state stage
  next state => exact parseHeaders_framed framed state stage
  next state => exact parseBody_framed framed invariant state stage
  next state => exact parseChunkedBody_framed framed state stage
  next => cases stage; exact .of_error rfl
  next => cases stage; exact .of_error rfl

theorem stable_framed : Stable Framed where
  stage _ _ invariant framed stage := parseStage_framed framed invariant stage
  recount _ _ _ framed := framed

theorem Feeds.framed (feeds : Feeds parser pieces after) (invariant : parser.Invariant)
    (settled : parser.Settled) (framed : parser.Framed) : after.Framed := by
  induction feeds with
  | nil => exact framed
  | cons parses _ ih =>
      rcases parses.invariant invariant settled with ⟨nextInvariant, nextSettled⟩
      exact ih nextInvariant nextSettled (stable_framed.parses parses invariant framed)

/-- At every point of a run of calls the members are those of the framing. -/
theorem Observed.framed (observed : Observed start pieces parser unread) (new : start.IsNew) :
    parser.Framed := by
  rcases new.spec with ⟨invariant, settled, -⟩
  cases observed with
  | between feeds => exact feeds.framed invariant settled new.framed
  | within feeds _ reaches =>
      have midInvariant := (feeds.view invariant settled).1
      have midFramed := feeds.framed invariant settled new.framed
      exact stable_framed.reaches reaches (midInvariant.enter _) midFramed

/-! ## The head of the request that is read -/

theorem equipped_foldl_feed (pieces : List Bytes) : (pieces.foldl Reader.feed {}).Equipped := by
  induction pieces using List.reverseRecOn with
  | nil => exact ⟨rfl, by simp⟩
  | append_singleton pieces piece ih =>
      rw [List.foldl_append]
      exact ih.feed piece

theorem reader_counts (counts : parser.state = .body ∨ parser.state = .complete) :
    parser.reader.Counts := by
  rwa [Reader.Counts, reader_state]

/-- Past its header a parser has a request, and what it was given starts with a head. -/
theorem Observed.exists_head (observed : Observed start pieces parser unread)
    (new : start.IsNew) (counts : parser.state = .body ∨ parser.state = .complete) :
    ∃ (head : Head) (rest body : Bytes), pieces.flatten = head.text ++ rest ∧
      parser.request = some (head.request.appendBody body) := by
  rcases observed.spec new with ⟨-, whole⟩
  have past : parser.reader.AfterHeader :=
    Reader.afterHeader_of_pastHeader (reader_counts counts).pastHeader
  rcases (past.appends unread).2 with ⟨data, appends⟩
  cases present : parser.request with
  | none =>
      have equipped := (equipped_foldl_feed pieces).1
      rw [← whole, appends] at equipped
      simp [reader, present] at equipped
  | some request =>
      have pastHeader : (pieces.foldl Reader.feed {}).phase.PastHeader := by
        rw [← whole]
        exact ((reader_counts counts).feed present unread).1.pastHeader
      rcases Reader.exists_head_of_foldl_feed pastHeader with ⟨head, rest, body, begins, described⟩
      refine ⟨head, rest, request.body, begins, ?_⟩
      rw [← whole, appends] at described
      simp only [reader, present, Option.map_some, Option.some.injEq] at described
      exact congrArg some (HttpRequest.eq_of_appendBody described head.request_body)

/-! ## The length of the body -/

theorem reader_tail (present : parser.request = some request) :
    parser.reader.tail = request.body := by
  have empty : parser.reader.surplus = [] := by
    simp only [reader, Reader.surplus]
    cases parser.state <;> simp
    cases parser.chunkSizeParsed <;> rfl
  rw [Reader.tail, empty]
  simp [reader, present]

/-- Unless the header selects chunks or fails, what follows a head is the body and what comes
after it. -/
theorem tail_readAll_head (head : Head) (rest : Bytes)
    (counts : (Reader.readAll {} (head.text ++ rest)).Counts)
    (unchunked : (Reader.readAll {} (head.text ++ rest)).chunked = false) :
    (Reader.readAll {} (head.text ++ rest)).tail = rest := by
  rw [Reader.readAll_append, Reader.readAll_head, Reader.endHeader] at counts unchunked ⊢
  cases framing : head.request.framing with
  | none | length size =>
      simp only [framing] at counts unchunked ⊢
      exact (Reader.Counts.readAll (by simp [Reader.Counts, Reader.state]) rfl rest).2.2.trans
        (by simp [Reader.tail, Reader.surplus])
  | chunked =>
      simp only [framing] at unchunked
      rw [(Reader.Sound.readAll (fun _ => rfl) rest).2 rfl] at unchunked
      cases unchunked
  | invalid =>
      simp only [framing] at counts
      rw [Reader.readAll_failed rfl] at counts
      simp [Reader.Counts, Reader.state] at counts

/-- Unless the header has selected chunks, what is unread follows the body. -/
theorem Observed.tail (observed : Observed start pieces parser unread) (new : start.IsNew)
    (counts : parser.state = .body ∨ parser.state = .complete)
    (unchunked : parser.chunkedEncoding = false) :
    ∃ (head : Head) (request : HttpRequest), parser.request = some request ∧
      pieces.flatten = head.text ++ request.body ++ unread := by
  rcases observed.exists_head new counts with ⟨head, rest, body, begins, present⟩
  rcases observed.spec new with ⟨-, whole⟩
  rcases (reader_counts counts).feed present unread with ⟨wholeCounts, same, tail⟩
  rw [whole] at wholeCounts same tail
  have wholeUnchunked : (pieces.foldl Reader.feed {}).chunked = false := same.trans unchunked
  have together := Reader.foldl_feed_of_not_chunked Reader.sound_fresh wholeUnchunked
  rw [together, begins] at wholeCounts wholeUnchunked
  have rests := tail_readAll_head head rest wholeCounts wholeUnchunked
  rw [← begins, ← together, tail, reader_tail present] at rests
  exact ⟨head, _, present, by rw [begins, List.append_assoc, rests]⟩

/-- A head that another head starts with describes the same request. -/
theorem request_eq_of_prefix_text {other : Head} (isPrefix : head.text <+: other.text) :
    head.request = other.request := by
  rcases Reader.afterHeader_readAll_head head with ⟨past, described⟩
  rcases isPrefix with ⟨more, together⟩
  by_cases same : more = []
  · have equal : head.text = other.text := by simpa [same] using together
    rw [equal, (Reader.afterHeader_readAll_head other).2] at described
    exact (Option.some.inj described).symm
  · -- Otherwise the shorter one ends within the other, where the header is not over.
    have within : head.text <+: other.openText ++ [cr] := by
      apply List.prefix_of_prefix_length_le ⟨more, together⟩ ⟨[lf], by simp [Head.text]⟩
      have positive := List.length_pos_iff.mpr same
      have lengths := congrArg List.length together
      simp [Head.text] at lengths ⊢
      omega
    rcases within with ⟨others, begins⟩
    have stays := (past.appends others).1
    have phase : Reader.readAll {} (other.openText ++ [cr]) =
        ⟨.line .header [cr], some other.request, false⟩ := by
      rw [Reader.readAll_append, Reader.readAll_head_openText]
      rfl
    rw [Reader.feed, Reader.afterHeader_settle, ← Reader.readAll_append, begins, phase] at stays
    exact absurd rfl stays.2

/-- Two heads that the same bytes start with describe the same request. -/
theorem request_eq_of_prefix {other : Head} {text : Bytes} (one : head.text <+: text)
    (another : other.text <+: text) : head.request = other.request := by
  rcases List.prefix_or_prefix_of_prefix one another with isPrefix | isPrefix
  · exact request_eq_of_prefix_text isPrefix
  · exact (request_eq_of_prefix_text isPrefix).symm

/-- At some point of the run of calls the parser is in the state. -/
def PassesThrough (start : HttpParser) (pieces : List Bytes) (state : ParseState) : Prop :=
  ∃ sofar parser unread, sofar <+: pieces ∧ Observed start sofar parser unread ∧
    parser.state = state

/-- **Bodies of known length.**  At every point of a run of calls on a new parser, while it is
in `BODY` the body is what has been read after a head and is no longer than
`content_length_`; and once it was in `BODY` and is in `COMPLETE`, the body is what has been
read after a head and is as long as `content_length_`. -/
theorem body_counted (new : start.IsNew) (observed : Observed start pieces parser unread) :
    (parser.state = .body →
      ∃ (head : Head) (request : HttpRequest), parser.request = some request ∧
        request.body.length ≤ parser.contentLength ∧
        pieces.flatten = head.text ++ request.body ++ unread) ∧
      (parser.state = .complete → PassesThrough start pieces .body →
        ∃ (head : Head) (request : HttpRequest), parser.request = some request ∧
          request.body.length = parser.contentLength ∧
          pieces.flatten = head.text ++ request.body ++ unread) := by
  constructor
  · intro state
    rcases observed.exists_head new (.inl state) with ⟨_, _, body, _, present⟩
    have framed := observed.framed new _ present
    simp only [FramedAs, state] at framed
    rcases observed.tail new (.inl state) framed.1 with ⟨head, request, same, together⟩
    obtain rfl : _ = request := Option.some.inj (present.symm.trans same)
    exact ⟨head, _, present, framed.2.2, together⟩
  · intro state passes
    rcases passes with ⟨sofar, earlier, rest, isPrefix, wasObserved, wasBody⟩
    rcases observed.exists_head new (.inr state) with ⟨head, after, body, begins, present⟩
    rcases wasObserved.exists_head new (.inl wasBody) with
      ⟨other, more, part, begun, wasPresent⟩
    have same : head.request = other.request := by
      have now : head.text <+: pieces.flatten := ⟨after, begins.symm⟩
      have before : other.text <+: sofar.flatten := ⟨more, begun.symm⟩
      have grown : sofar.flatten <+: pieces.flatten := by
        rcases isPrefix with ⟨others, rfl⟩
        exact ⟨others.flatten, by simp⟩
      exact request_eq_of_prefix now (before.trans grown)
    have framedBefore := wasObserved.framed new _ wasPresent
    have framed := observed.framed new _ present
    simp only [FramedAs, wasBody, HttpRequest.framing_appendBody] at framedBefore
    simp only [FramedAs, state, HttpRequest.framing_appendBody, same,
      framedBefore.2.1] at framed
    rcases observed.tail new (.inr state) framed.1 with ⟨start, request, again, together⟩
    obtain rfl : _ = request := Option.some.inj (present.symm.trans again)
    rw [same] at present together
    exact ⟨start, _, present, framed.2.2.trans framed.2.1, together⟩

/-- Two of the three bytes of a body have come. -/
theorem body_counted_part :
    ∃ after, Observed {} [postThree.text ++ bytes "a", bytes "b"] after after.buffer ∧
      (after.state = .body →
        ∃ (head : Head) (request : HttpRequest), after.request = some request ∧
          request.body.length ≤ after.contentLength ∧
          [postThree.text ++ bytes "a", bytes "b"].flatten =
            head.text ++ request.body ++ after.buffer) ∧
        (after.state = .complete →
          PassesThrough {} [postThree.text ++ bytes "a", bytes "b"] .body →
            ∃ (head : Head) (request : HttpRequest), after.request = some request ∧
              request.body.length = after.contentLength ∧
              [postThree.text ++ bytes "a", bytes "b"].flatten =
                head.text ++ request.body ++ after.buffer) := by
  refine ⟨_, .between (feeds_get 4 (by decide)), ?_⟩
  exact body_counted (.inl rfl) (.between (feeds_get 4 (by decide)))

/-- **Two views of the length.**  Where a run of calls completes a request, the length the
request gives is that of its body. -/
theorem getContentLength_eq_getBodySize (new : start.IsNew) (feeds : Feeds start pieces after)
    (complete : after.state = .complete) :
    ∃ request, after.request = some request ∧
      request.getContentLength = request.getBodySize := by
  have observed : Observed start pieces after after.buffer := .between feeds
  rcases observed.exists_head new (.inr complete) with ⟨head, _, body, _, present⟩
  have framed := observed.framed new _ present
  refine ⟨_, present, ?_⟩
  generalize head.request.appendBody body = request at framed
  simp only [FramedAs, complete, HttpRequest.framing] at framed
  rw [HttpRequest.getContentLength, HttpRequest.getBodySize]
  by_cases given : request.getHeader (bytes "Content-Length") ≠ []
  · rw [if_pos given] at framed ⊢
    cases read : stoul (request.getHeader (bytes "Content-Length")) 10 with
    | ok length =>
        rw [read] at framed
        exact framed.2.2.symm
    | error _ =>
        rw [read] at framed
        exact framed.elim
  · rw [if_neg given]

theorem getContentLength_eq_getBodySize_three :
    ∃ after, Feeds {} [postThree.text ++ bytes "a", bytes "bc"] after ∧
      after.state = .complete ∧
        ∃ request, after.request = some request ∧
          request.getContentLength = request.getBodySize := by
  refine ⟨_, feeds_get 4 (by decide), by decide, ?_⟩
  exact getContentLength_eq_getBodySize (.inl rfl) (feeds_get 4 (by decide)) (by decide)

/-! ## The chunked framing -/

/-- `chunked_encoding_` is only set in a call that enters `CHUNKED_BODY`. -/
theorem Feeds.enters (feeds : Feeds parser pieces after) (unset : parser.chunkedEncoding = false)
    (set : after.chunkedEncoding = true) :
    ∃ before piece later middle, pieces = before ++ piece :: later ∧
      Feeds parser before middle ∧ piece ≠ [] ∧ middle.EntersChunkedBody piece := by
  induction feeds with
  | nil => rw [unset] at set; cases set
  | @cons parser next after piece pieces result parses _ ih =>
      cases flag : next.chunkedEncoding with
      | false =>
          rcases ih flag set with ⟨before, other, later, middle, rfl, feeds, nonempty, enters⟩
          exact ⟨piece :: before, other, later, middle, rfl, .cons parses feeds, nonempty, enters⟩
      | true =>
          have nonempty : piece ≠ [] := by
            intro empty
            subst empty
            rcases parses_nil_iff.mp parses with ⟨-, rfl⟩
            rw [unset] at flag
            cases flag
          refine ⟨[], piece, pieces, parser, rfl, .nil parser, nonempty, ?_⟩
          by_contra never
          rw [parses.chunkedEncoding nonempty unset never] at flag
          cases flag

theorem IsNew.unset (new : start.IsNew) : start.chunkedEncoding = false := by
  rcases new with rfl | ⟨used, rfl⟩ <;> rfl

/-- A run of calls passes through `CHUNKED_BODY` exactly if it sets `chunked_encoding_`. -/
theorem passesThrough_chunkedBody_iff (new : start.IsNew) (feeds : Feeds start pieces after) :
    PassesThrough start pieces .chunkedBody ↔ after.chunkedEncoding = true := by
  rcases new.spec with ⟨invariant, settled, view⟩
  constructor
  · intro passes
    rcases passes with ⟨sofar, earlier, unread, ⟨more, rfl⟩, observed, chunks⟩
    rcases observed.spec new with ⟨earlierInvariant, whole⟩
    rcases feeds.view invariant settled with ⟨-, afterSettled, afterView⟩
    rcases (sound_reader earlierInvariant).feed unread with ⟨sound, keeps⟩
    have selected := keeps (earlierInvariant.chunk chunks).1
    rw [← view_chunked afterSettled, afterView, view, List.foldl_append, ← whole]
    exact sound.foldl_feed more selected
  · intro set
    rcases feeds.enters new.unset set with
      ⟨before, piece, later, middle, rfl, sofar, nonempty, loop, reaches, chunks⟩
    exact ⟨before ++ [piece], loop.parser, _, ⟨later, by simp⟩,
      .within sofar nonempty reaches, chunks⟩

/-- A complete request was read in chunks exactly if its header table selects them. -/
theorem Framed.chunked_iff (framed : parser.FramedAs request)
    (complete : parser.state = .complete) :
    parser.chunkedEncoding = true ↔ request.framing = .chunked := by
  simp only [FramedAs, complete] at framed
  cases framing : request.framing with
  | none | length size => simp_all
  | chunked => simpa [framing] using framed
  | invalid => simp [framing] at framed

theorem framing_eq_chunked_iff (head : Head) :
    head.request.framing = .chunked ↔
      head.lastValue (bytes "Transfer-Encoding") = bytes "chunked" ∧
        head.lastValue (bytes "Content-Length") = [] := by
  simp only [HttpRequest.framing, Head.request_getHeader]
  split
  next given => split <;> simp [given]
  next absent => split <;> simp_all

/-- **Two views of the chunked framing.**  Where a run of calls completes a request,
`IsChunked` says whether the run passed through `CHUNKED_BODY`, exactly if the last
`Transfer-Encoding` of the head does not contain "chunked", or is just that and there is no
`Content-Length` with a value beside it. -/
theorem isChunked_agrees_iff (new : start.IsNew) (feeds : Feeds start pieces after)
    (complete : after.state = .complete) :
    ∃ (head : Head) (rest : Bytes) (request : HttpRequest),
      pieces.flatten = head.text ++ rest ∧ after.request = some request ∧
        ((request.isChunked = true ↔ PassesThrough start pieces .chunkedBody) ↔
          (¬bytes "chunked" <:+: head.lastValue (bytes "Transfer-Encoding") ∨
            head.lastValue (bytes "Transfer-Encoding") = bytes "chunked" ∧
              head.lastValue (bytes "Content-Length") = [])) := by
  have observed : Observed start pieces after after.buffer := .between feeds
  rcases observed.exists_head new (.inr complete) with ⟨head, rest, body, begins, present⟩
  refine ⟨head, rest, _, begins, present, ?_⟩
  rw [passesThrough_chunkedBody_iff new feeds,
    Framed.chunked_iff (observed.framed new _ present) complete,
    HttpRequest.framing_appendBody, framing_eq_chunked_iff]
  have asked : (head.request.appendBody body).isChunked = true ↔
      bytes "chunked" <:+: head.lastValue (bytes "Transfer-Encoding") := by
    rw [HttpRequest.isChunked, HttpRequest.getHeader_appendBody, Head.request_getHeader]
    exact decide_eq_true_iff
  rw [asked]
  constructor
  · intro agree
    by_cases contained : bytes "chunked" <:+: head.lastValue (bytes "Transfer-Encoding")
    · exact .inr (agree.mp contained)
    · exact .inl contained
  · intro either
    rcases either with apart | ⟨plain, absent⟩
    · refine iff_of_false apart fun selected => apart ?_
      rw [selected.1]
    · exact iff_of_true (by rw [plain]) ⟨plain, absent⟩

theorem isChunked_agrees_iff_chunkedGet :
    ∃ after, Feeds {} [chunkedGet.text, bytes "0\r\n"] after ∧ after.state = .complete ∧
      ∃ (head : Head) (rest : Bytes) (request : HttpRequest),
        [chunkedGet.text, bytes "0\r\n"].flatten = head.text ++ rest ∧
          after.request = some request ∧
          ((request.isChunked = true ↔
              PassesThrough {} [chunkedGet.text, bytes "0\r\n"] .chunkedBody) ↔
            (¬bytes "chunked" <:+: head.lastValue (bytes "Transfer-Encoding") ∨
              head.lastValue (bytes "Transfer-Encoding") = bytes "chunked" ∧
                head.lastValue (bytes "Content-Length") = [])) := by
  refine ⟨_, feeds_get 4 (by decide), by decide, ?_⟩
  exact isChunked_agrees_iff (.inl rfl) (feeds_get 4 (by decide)) (by decide)

/-- A body with two codings, the last of them "chunked", is taken for no body at all. -/
theorem isChunked_disagrees_gzip :
    ∃ after request,
      Feeds {} [bytes "GET / HTTP/1.1\r\nTransfer-Encoding: gzip, chunked\r\n\r\n"] after ∧
        after.state = .complete ∧ after.request = some request ∧
        ¬(request.isChunked = true ↔
          PassesThrough {}
            [bytes "GET / HTTP/1.1\r\nTransfer-Encoding: gzip, chunked\r\n\r\n"]
            .chunkedBody) := by
  refine ⟨_, _, feeds_get 4 (by decide), by decide, (Option.some_get (by decide)).symm, ?_⟩
  intro agree
  rw [passesThrough_chunkedBody_iff (.inl rfl) (feeds_get 4 (by decide))] at agree
  exact absurd (agree.mp (by decide)) (by decide)

end HttpParser

end PPServer.Http
