import PPServer.Http.Refinement

/-!
# The loop over chunks

The loop of `ParseChunkedBody` reads size lines and data in turn, and is left wherever the buffer
ends.  `chunk_size_parsed_` says which of the two is next, and `current_chunk_size_` how much of
the data is still to come.  What that means is said of the bytes that have been read: after the
last size line they are data of its chunk, and together with the counter they make up the size.
-/

namespace PPServer.Http.HttpParser

open Loop

variable {parser next after : HttpParser} {data text : Bytes} {pos nextPos : Nat}
variable {result : ParseResult} {exit : StageExit} {loop last : ParseLoop}
variable {current following : HttpParser × Nat}

/-! ## The counter outside a chunk -/

/-- The flag and the counter are the same. -/
def SameChunk (parser next : HttpParser) : Prop :=
  next.chunkSizeParsed = parser.chunkSizeParsed ∧ next.currentChunkSize = parser.currentChunkSize

theorem parseStartLine_sameChunk (stage : parser.parseStartLine data pos = .ok exit) :
    SameChunk parser exit.parser := by
  unfold parseStartLine at stage
  split at stage
  next => cases stage; exact ⟨rfl, rfl⟩
  next =>
      dsimp only at stage
      split at stage
      next => cases stage; exact ⟨rfl, rfl⟩
      next =>
          split at stage
          next => cases stage; exact ⟨rfl, rfl⟩
          next =>
              split at stage
              next => cases stage; exact ⟨rfl, rfl⟩
              next => split at stage <;> cases stage; exact ⟨rfl, rfl⟩

theorem endHeaders_sameChunk (ends : parser.endHeaders result pos = .ok exit) :
    SameChunk parser exit.parser := by
  unfold endHeaders at ends
  split at ends
  next => cases ends
  next =>
      dsimp only at ends
      split at ends
      next => split at ends <;> cases ends <;> exact ⟨rfl, rfl⟩
      next => split at ends <;> cases ends <;> exact ⟨rfl, rfl⟩

theorem HeaderStep.sameChunk (step : HeaderStep data parser pos next nextPos) :
    SameChunk parser next := by
  cases step with
  | line => exact ⟨rfl, rfl⟩

theorem parseHeaders_sameChunk (stage : parser.parseHeaders data pos = .ok exit) :
    SameChunk parser exit.parser := by
  refine total_induction (headersPass_decreases _ _)
    (fun loop outcome => outcome = .ok exit → SameChunk loop.1 exit.parser)
    ?leave ?again _ stage
  case leave =>
    intro loop outcome leaves isExit
    subst isExit
    simp only [headersPass] at leaves
    split at leaves
    next =>
        split at leaves
        next => cases leaves; exact ⟨rfl, rfl⟩
        next =>
            split at leaves
            next =>
                simp only [Pass.leave.injEq] at leaves
                exact endHeaders_sameChunk leaves
            next =>
                split at leaves
                next => cases leaves; exact ⟨rfl, rfl⟩
                next => split at leaves <;> cases leaves
    next => cases leaves; exact ⟨rfl, rfl⟩
  case again =>
    intro loop following outcome step carried isExit
    rcases carried isExit with ⟨flag, counter⟩
    rcases (headerStep_of_again step).sameChunk with ⟨sameFlag, sameCounter⟩
    exact ⟨flag.trans sameFlag, counter.trans sameCounter⟩

theorem parseBody_sameChunk (stage : parser.parseBody data pos = .ok exit) :
    SameChunk parser exit.parser := by
  simp only [parseBody] at stage
  split at stage
  next => cases stage
  next => split at stage <;> cases stage <;> exact ⟨rfl, rfl⟩

/-- The parser has not come to the end of a header that selects the chunks. -/
def BeforeChunks (parser : HttpParser) : Prop :=
  parser.state = .startLine ∨ parser.state = .headers ∨ parser.state = .body

/-- Outside the data of a chunk nothing is counted, and what is counted inside has been read as a
`size_t`. -/
structure Cleared (flag : Bool) (counter : Nat) : Prop where
  zero : flag = false → counter = 0
  fits : counter < sizeModulus

theorem cleared_zero (flag : Bool) : Cleared flag 0 := ⟨fun _ => rfl, by simp [sizeModulus]⟩

/-- The flag and the counter of a parser, in every state. -/
def Tallied (parser : HttpParser) : Prop :=
  Cleared parser.chunkSizeParsed parser.currentChunkSize ∧
    (parser.BeforeChunks → parser.chunkSizeParsed = false)

theorem Tallied.of_sameChunk (tallied : parser.Tallied) (before : parser.BeforeChunks)
    (same : SameChunk parser next) : next.Tallied := by
  rcases same with ⟨flag, counter⟩
  rw [Tallied, flag, counter]
  exact ⟨tallied.1, fun _ => tallied.2 before⟩

theorem ChunkStep.cleared (step : ChunkStep data parser pos next nextPos)
    (cleared : Cleared parser.chunkSizeParsed parser.currentChunkSize) :
    Cleared next.chunkSizeParsed next.currentChunkSize := by
  cases step with
  | sizeLine _ _ read => exact ⟨fun unparsed => (by cases unparsed), stoul_lt read⟩
  | endSkipped | endKept => exact cleared_zero false
  | part parsed =>
      refine ⟨fun unparsed => ?_, Nat.lt_of_le_of_lt (Nat.sub_le _ _) cleared.fits⟩
      rw [parsed] at unparsed
      cases unparsed

/-- How the loop is left: for want of bytes as it came round, or with the end of the chunks, or
with a size line that is refused. -/
inductive ChunkExit (current : HttpParser × Nat) (exit : StageExit) : Prop where
  | waits : current = (exit.parser, exit.pos) → ChunkExit current exit
  | ends : exit.parser.state = .complete → exit.parser.currentChunkSize = 0 →
      ChunkExit current exit
  | refused : exit.parser.state = .error → SameChunk current.1 exit.parser → ChunkExit current exit

theorem chunkExit_of_leave (leaves : chunkedPass data result current = .leave (.ok exit)) :
    ChunkExit current exit := by
  rcases current with ⟨parser, pos⟩
  simp only [chunkedPass] at leaves
  split at leaves
  next =>
      split at leaves
      next =>
          split at leaves
          next => cases leaves; exact .waits rfl
          next =>
              split at leaves
              next size read =>
                  split at leaves
                  next zero => cases leaves; exact .ends rfl zero
                  next => cases leaves
              next => cases leaves; exact .refused rfl ⟨rfl, rfl⟩
      next =>
          split at leaves
          next => cases leaves
          next =>
              split at leaves
              next => split at leaves <;> cases leaves
              next => cases leaves
  next => cases leaves; exact .waits rfl

/-- The body of the loop of a call. -/
abbrev chunkLoop (parser : HttpParser) (data : Bytes) :
    HttpParser × Nat → Pass (HttpParser × Nat) (Except Fault StageExit) :=
  chunkedPass data ⟨true, parser.state, parser.totalBytesParsed, []⟩

theorem returns_parseChunkedBody (parser : HttpParser) (data : Bytes) (pos : Nat) :
    Returns (chunkLoop parser data) (parser, pos) (parser.parseChunkedBody data pos) :=
  returns_total _ _

/-- A call is left in the last of the states that its loop comes round to. -/
theorem exists_chunkExit (stage : parser.parseChunkedBody data pos = .ok exit) :
    ∃ last, Reaches (chunkLoop parser data) (parser, pos) last ∧ ChunkExit last exit := by
  rcases (returns_parseChunkedBody parser data pos).exists_last with ⟨last, reaches, leaves⟩
  rw [stage] at leaves
  exact ⟨last, reaches, chunkExit_of_leave leaves⟩

/-- What every pass keeps of the parser, and where it stands. -/
theorem chunkLoop_keeps (invariant : parser.Invariant) (tallied : parser.Tallied)
    (state : parser.state = .chunkedBody)
    (reaches : Reaches (chunkLoop parser data) (parser, pos) current) :
    current.1.Invariant ∧ current.1.state = .chunkedBody ∧
      Cleared current.1.chunkSizeParsed current.1.currentChunkSize ∧
      pos ≤ current.2 ∧ (pos ≤ data.length → current.2 ≤ data.length) := by
  apply reaches.keeps
  · exact ⟨invariant, state, tallied.1, Nat.le_refl pos, id⟩
  · intro current following _ again kept
    rcases kept with ⟨invariant, state, cleared, forward, -⟩
    have step := chunkStep_of_again again
    rcases step.keeps invariant state with ⟨nextInvariant, nextState, nextInside, further, -⟩
    exact ⟨nextInvariant, nextState, step.cleared cleared, forward.trans (Nat.le_of_lt further),
      fun _ => nextInside⟩

theorem parseChunkedBody_tallied (invariant : parser.Invariant) (tallied : parser.Tallied)
    (state : parser.state = .chunkedBody)
    (stage : parser.parseChunkedBody data pos = .ok exit) : exit.parser.Tallied := by
  rcases exists_chunkExit stage with ⟨last, reaches, left⟩
  rcases chunkLoop_keeps invariant tallied state reaches with ⟨-, lastState, cleared, -⟩
  cases left with
  | waits same =>
      subst same
      exact ⟨cleared, by simp [BeforeChunks, show exit.parser.state = _ from lastState]⟩
  | ends complete zero =>
      refine ⟨?_, by simp [BeforeChunks, complete]⟩
      rw [zero]
      exact cleared_zero _
  | refused error same =>
      refine ⟨?_, by simp [BeforeChunks, error]⟩
      rw [same.1, same.2]
      exact cleared

theorem stable_tallied : Stable Tallied where
  stage loop exit invariant tallied stage := by
    simp only [parseStage] at stage
    split at stage
    next state => exact tallied.of_sameChunk (.inl state) (parseStartLine_sameChunk stage)
    next state => exact tallied.of_sameChunk (.inr (.inl state)) (parseHeaders_sameChunk stage)
    next state => exact tallied.of_sameChunk (.inr (.inr state)) (parseBody_sameChunk stage)
    next state => exact parseChunkedBody_tallied invariant tallied state stage
    next => cases stage; exact ⟨tallied.1, by simp [BeforeChunks, handleError]⟩
    next => cases stage; exact ⟨tallied.1, by simp [BeforeChunks, handleError]⟩
  recount _ _ _ tallied := tallied

/-! ## The bytes that have been read -/

/-- Between two calls, the parser has been given the bytes since it was made or reset. -/
inductive Given : Bytes → HttpParser → Prop where
  | fresh : Given [] {}
  | parse {text data : Bytes} {parser after : HttpParser} {result : ParseResult} :
      Given text parser → Parses parser data result after → Given (text ++ data) after
  | getRequest {text : Bytes} {parser : HttpParser} :
      Given text parser → Given text parser.getRequest.2
  | reset {text : Bytes} {parser : HttpParser} : Given text parser → Given [] parser.reset

theorem reachable_iff_given : Reachable parser ↔ ∃ text, Given text parser := by
  constructor
  · intro reachable
    induction reachable with
    | fresh => exact ⟨[], .fresh⟩
    | parse _ parses ih =>
        rcases ih with ⟨text, given⟩
        exact ⟨text ++ _, given.parse parses⟩
    | getRequest _ ih =>
        rcases ih with ⟨text, given⟩
        exact ⟨text, given.getRequest⟩
    | reset _ ih =>
        rcases ih with ⟨text, given⟩
        exact ⟨[], given.reset⟩
  · intro given
    rcases given with ⟨text, given⟩
    induction given with
    | fresh => exact .fresh
    | parse _ parses ih => exact ih.parse parses
    | getRequest _ ih => exact ih.getRequest
    | reset _ ih => exact ih.reset

/-- Between two calls or at the loop of a call, the parser has read the bytes since it was made or
reset. -/
inductive HasRead : Bytes → HttpParser → Prop where
  | between {text : Bytes} {parser : HttpParser} : Given text parser → HasRead text parser
  | within {text data : Bytes} {parser : HttpParser} {loop : ParseLoop} : Given text parser →
      data ≠ [] → Reaches parsePass (enter parser data) loop →
      HasRead (text ++ loop.parser.buffer.take loop.pos) loop.parser

/-- The part of the data between two positions. -/
def slice (data : Bytes) (first last : Nat) : Bytes := (data.drop first).take (last - first)

/-- Some parser that has read the bytes comes round in `ParseChunkedBody` for a size line. -/
def ExpectsSize (front : Bytes) : Prop :=
  ∃ text parser data pos current, HasRead text parser ∧ parser.state = .chunkedBody ∧
    Reaches (chunkLoop parser data) (parser, pos) current ∧
    current.1.chunkSizeParsed = false ∧ front = text ++ slice data pos current.2

/-- If the parser is inside a chunk, the last bytes that it has read are the size line of the chunk
and data, and the counter is the number of data bytes that are still to come. -/
def InChunk (text : Bytes) (parser : HttpParser) : Prop :=
  parser.chunkSizeParsed = true → ∃ front line received size,
    text = front ++ line ++ crlf ++ received ∧ ExpectsSize front ∧ CRLFFree line ∧
      stoul line 16 = .ok size ∧ received.length + parser.currentChunkSize = size

theorem slice_self (data : Bytes) (pos : Nat) : slice data pos pos = [] := by
  simp [slice]

theorem slice_append {first middle last : Nat} (before : first ≤ middle) (after : middle ≤ last) :
    slice data first middle ++ slice data middle last = slice data first last := by
  have split : last - first = (middle - first) + (last - middle) := by omega
  have onward : data.drop middle = (data.drop first).drop (middle - first) := by
    rw [List.drop_drop, Nat.add_sub_cancel' before]
  rw [slice, slice, slice, split, onward, List.take_add]

theorem take_append_slice {first last : Nat} (forward : first ≤ last) :
    data.take first ++ slice data first last = data.take last := by
  have whole : slice data 0 first ++ slice data first last = slice data 0 last :=
    slice_append (Nat.zero_le first) forward
  simpa [slice] using whole

theorem slice_length (data : Bytes) (pos : Nat) : slice data pos data.length = data.drop pos :=
  List.take_of_length_le (Nat.le_of_eq List.length_drop)

/-- A size line with its CRLF. -/
theorem slice_line {lineEnd : Nat} (found : findCRLF data pos = some lineEnd) :
    slice data pos (lineEnd + 2) = slice data pos lineEnd ++ crlf := by
  have bounds := findCRLF_bounds found
  rw [← slice_append bounds.1 (Nat.le_add_right lineEnd 2)]
  have text := (line_of_findCRLF found).1
  have onward : data.drop lineEnd = cr :: lf :: data.drop (lineEnd + 2) := by
    have dropped := congrArg (List.drop (lineEnd - pos)) text
    rw [List.drop_drop, Nat.add_sub_cancel' bounds.1] at dropped
    rw [dropped]
    apply List.drop_left'
    rw [List.length_take, List.length_drop]
    omega
  rw [slice, slice, onward, Nat.add_sub_cancel_left]
  rfl

/-- A pass that goes round again has read data of the chunk, or the size line of another. -/
theorem ChunkStep.inChunk (step : ChunkStep data parser pos next nextPos)
    (expects : parser.chunkSizeParsed = false → ExpectsSize text) (inChunk : InChunk text parser) :
    InChunk (text ++ slice data pos nextPos) next := by
  intro parsed
  cases step with
  | @sizeLine lineEnd size unparsed found read =>
      refine ⟨text, slice data pos lineEnd, [], size, ?_, expects unparsed, ?_, read, ?_⟩
      · simp [slice_line found]
      · exact (line_of_findCRLF found).2
      · simp
  | endSkipped | endKept => cases parsed
  | part stays unread present more =>
      rcases inChunk stays with ⟨front, line, received, size, split, expected, free, read, sum⟩
      refine ⟨front, line, received ++ data.drop pos, size, ?_, expected, free, read, ?_⟩
      · simp [split, slice_length]
      · rw [List.length_append, List.length_drop]
        dsimp only
        omega

/-- Whenever the loop comes round, the counter is what is still to come. -/
theorem chunkLoop_inChunk (hasRead : HasRead text parser) (invariant : parser.Invariant)
    (tallied : parser.Tallied) (state : parser.state = .chunkedBody)
    (inChunk : InChunk text parser)
    (reaches : Reaches (chunkLoop parser data) (parser, pos) current) :
    InChunk (text ++ slice data pos current.2) current.1 := by
  apply reaches.keeps
  · rwa [slice_self, List.append_nil]
  · intro current following before again inChunk
    rcases chunkLoop_keeps invariant tallied state before with
      ⟨currentInvariant, currentState, -, forward, -⟩
    have step := chunkStep_of_again again
    have further := (step.keeps currentInvariant currentState).2.2.2.1
    rw [← slice_append forward (Nat.le_of_lt further), ← List.append_assoc]
    exact step.inChunk
      (fun unparsed => ⟨text, parser, data, pos, current, hasRead, state, before, unparsed, rfl⟩)
      inChunk

theorem parseChunkedBody_inChunk (hasRead : HasRead text parser) (invariant : parser.Invariant)
    (tallied : parser.Tallied) (state : parser.state = .chunkedBody)
    (inChunk : InChunk text parser) (stage : parser.parseChunkedBody data pos = .ok exit)
    (still : exit.parser.state = .chunkedBody) :
    InChunk (text ++ slice data pos exit.pos) exit.parser := by
  rcases exists_chunkExit stage with ⟨last, reaches, left⟩
  have inLast := chunkLoop_inChunk hasRead invariant tallied state inChunk reaches
  cases left with
  | waits same => rwa [same] at inLast
  | ends complete => rw [complete] at still; cases still
  | refused error => rw [error] at still; cases still

/-- A stage of the header does not begin a chunk. -/
theorem parseStage_inChunk (hasRead : HasRead text loop.parser) (invariant : loop.parser.Invariant)
    (tallied : loop.parser.Tallied)
    (inChunk : loop.parser.state = .chunkedBody → InChunk text loop.parser)
    (stage : parseStage loop = .ok exit) (still : exit.parser.state = .chunkedBody) :
    InChunk (text ++ slice loop.parser.buffer loop.pos exit.pos) exit.parser := by
  have outside (before : loop.parser.BeforeChunks) (same : SameChunk loop.parser exit.parser) :
      InChunk (text ++ slice loop.parser.buffer loop.pos exit.pos) exit.parser := by
    intro parsed
    rw [same.1, tallied.2 before] at parsed
    cases parsed
  simp only [parseStage] at stage
  split at stage
  next state => exact outside (.inl state) (parseStartLine_sameChunk stage)
  next state => exact outside (.inr (.inl state)) (parseHeaders_sameChunk stage)
  next state => exact outside (.inr (.inr state)) (parseBody_sameChunk stage)
  next state =>
      exact parseChunkedBody_inChunk hasRead invariant tallied state (inChunk state) stage still
  next => cases stage; cases still
  next => cases stage; cases still

/-- Whenever the loop of a call comes round. -/
theorem reaches_inChunk (given : Given text parser) (invariant : parser.Invariant)
    (tallied : parser.Tallied) (inChunk : parser.state = .chunkedBody → InChunk text parser)
    (nonempty : data ≠ []) (reaches : Reaches parsePass (enter parser data) loop) :
    loop.parser.buffer = parser.buffer ++ data ∧
      (loop.parser.state = .chunkedBody →
        InChunk (text ++ loop.parser.buffer.take loop.pos) loop.parser) := by
  have started := invariant.enter data
  apply reaches.keeps
  · refine ⟨rfl, fun state => ?_⟩
    rw [enter, List.take_zero, List.append_nil]
    exact inChunk state
  · intro current following before again kept
    have currentTallied := stable_tallied.reaches before started tallied
    rcases parsePass_again (reaches_spec before started).1 again with
      ⟨exit, active, stage, success, spec, isParser, isPos⟩
    have buffer : following.parser.buffer = current.parser.buffer := by
      rw [isParser]
      exact spec.buffer
    refine ⟨buffer.trans kept.1, fun still => ?_⟩
    rw [isParser] at still
    have inExit := parseStage_inChunk (.within given nonempty before)
      (reaches_spec before started).1 currentTallied kept.2 stage still
    rw [List.append_assoc, take_append_slice spec.forward] at inExit
    rw [buffer, isPos, isParser]
    exact inExit

/-- A call that returns in the middle of a message has read all of its data. -/
theorem Parses.exists_atEnd (parses : Parses parser data result after) (nonempty : data ≠ [])
    (invariant : parser.Invariant) (settled : parser.Settled)
    (notComplete : after.state ≠ .complete) (alive : after.state ≠ .error) :
    ∃ last, Reaches parsePass (enter parser data) last ∧ parser.buffer = [] ∧
      last.parser.buffer.length ≤ last.pos ∧
        after = { last.parser with buffer := last.parser.buffer.drop last.pos } := by
  rw [parses_iff_returns nonempty] at parses
  rcases parses.exists_last with ⟨last, reaches, leaves⟩
  by_cases active : Active last
  · -- A stage that fails ends the call in `ERROR`.
    have spec := parseStage_spec (reaches_spec reaches (invariant.enter data)).1 active
    rw [parsePass_active active] at leaves
    cases stage : parseStage last with
    | error fault => rw [stage] at leaves; cases leaves
    | ok exit =>
        rw [stage] at leaves spec
        dsimp only at leaves
        split at leaves
        next failure =>
            cases leaves
            simp [spec.success.mpr alive] at failure
        next => cases leaves
  · have left := parsePass_inactive active
    rw [leaves] at left
    simp only [Pass.leave.injEq, Except.ok.injEq] at left
    have same : after = { last.parser with buffer := last.parser.buffer.drop last.pos } := by
      rw [← parser_finish, ← left]
    have notComplete' : last.parser.state ≠ .complete := by rwa [same] at notComplete
    have alive' : last.parser.state ≠ .error := by rwa [same] at alive
    have begun : Active (enter parser data) := by
      by_contra idle
      have only := reaches.eq_of_leave (parsePass_inactive idle)
      rw [only] at notComplete' alive'
      refine idle ⟨?_, notComplete', alive'⟩
      simp [enter, List.length_pos_iff, nonempty]
    refine ⟨last, reaches, settled begun.2.1 begun.2.2, ?_, same⟩
    by_contra unread
    exact active ⟨Nat.lt_of_not_le unread, notComplete', alive'⟩

theorem Given.reachable (given : Given text parser) : Reachable parser :=
  reachable_iff_given.mpr ⟨text, given⟩

theorem Given.spec (given : Given text parser) :
    parser.Tallied ∧ (parser.state = .chunkedBody → InChunk text parser) := by
  induction given with
  | fresh | reset => exact ⟨⟨cleared_zero false, fun _ => rfl⟩, fun state => by cases state⟩
  | @parse text data parser after result given parses ih =>
      rcases ih with ⟨tallied, inChunk⟩
      rcases given.reachable.invariant with ⟨invariant, settled⟩
      refine ⟨stable_tallied.parses parses invariant tallied, fun state => ?_⟩
      by_cases empty : data = []
      · subst empty
        rcases parses_nil_iff.mp parses with ⟨-, rfl⟩
        rw [List.append_nil]
        exact inChunk state
      · rcases parses.exists_atEnd empty invariant settled (by simp [state]) (by simp [state]) with
          ⟨last, reaches, unread, atEnd, same⟩
        rcases reaches_inChunk given invariant tallied inChunk empty reaches with
          ⟨buffer, inLast⟩
        rw [unread, List.nil_append] at buffer
        rw [List.take_of_length_le atEnd, buffer] at inLast
        subst same
        exact inLast state
  | getRequest _ ih => exact ih

theorem HasRead.spec (hasRead : HasRead text parser) :
    parser.Invariant ∧ parser.Tallied ∧ (parser.state = .chunkedBody → InChunk text parser) := by
  cases hasRead with
  | between given =>
      exact ⟨given.reachable.invariant.1, given.spec⟩
  | @within text data parser loop given nonempty reaches =>
      rcases given.spec with ⟨tallied, inChunk⟩
      have invariant := given.reachable.invariant.1
      exact ⟨(reaches_spec reaches (invariant.enter data)).1,
        stable_tallied.reaches reaches (invariant.enter data) tallied,
        (reaches_inChunk given invariant tallied inChunk nonempty reaches).2⟩

/-! ## The loop -/

/-- The position, the flag and the counter when `text` has been read. -/
structure Counts (data text : Bytes) (current : HttpParser × Nat) : Prop where
  inside : current.2 ≤ data.length
  flag : current.1.chunkSizeParsed = true ↔ 0 < current.1.currentChunkSize
  toCome : InChunk text current.1
  /-- What a pass subtracts from the counter is not more than that. -/
  subtracts : sizeSub current.1.currentChunkSize
      (min current.1.currentChunkSize (data.length - current.2)) =
    current.1.currentChunkSize - min current.1.currentChunkSize (data.length - current.2)

/-- The flag says whether something is counted. -/
theorem Cleared.flag (cleared : Cleared parser.chunkSizeParsed parser.currentChunkSize)
    (invariant : parser.Invariant) (state : parser.state = .chunkedBody) :
    parser.chunkSizeParsed = true ↔ 0 < parser.currentChunkSize := by
  constructor
  · exact (invariant.chunk state).2
  · intro positive
    by_contra unparsed
    rw [cleared.zero (by simpa using unparsed)] at positive
    exact Nat.lt_irrefl 0 positive

theorem HasRead.counts (hasRead : HasRead text parser) (state : parser.state = .chunkedBody)
    (inside : pos ≤ data.length)
    (reaches : Reaches (chunkLoop parser data) (parser, pos) current) :
    Counts data (text ++ slice data pos current.2) current := by
  rcases hasRead.spec with ⟨invariant, tallied, inChunk⟩
  rcases chunkLoop_keeps invariant tallied state reaches with
    ⟨currentInvariant, currentState, cleared, -, stays⟩
  exact
    { inside := stays inside
      flag := cleared.flag currentInvariant currentState
      toCome := chunkLoop_inChunk hasRead invariant tallied state (inChunk state) reaches
      subtracts := sizeSub_of_le (Nat.min_le_left _ _) cleared.fits }

/-- **The loop over chunks.**  Entered in `CHUNKED_BODY` by a parser that has read some bytes, with
any buffer and any position in it, the loop is left.  A pass that does not leave it goes forward;
whenever it comes round, and when it is left in `CHUNKED_BODY`, the position is in the buffer, and
the flag says whether the counter is positive, which is the number of data bytes of the chunk that
are still to come. -/
theorem chunkLoop_spec (hasRead : HasRead text parser) (state : parser.state = .chunkedBody)
    (inside : pos ≤ data.length) :
    Returns (chunkLoop parser data) (parser, pos) (parser.parseChunkedBody data pos) ∧
      (∀ current, Reaches (chunkLoop parser data) (parser, pos) current →
        Counts data (text ++ slice data pos current.2) current ∧
          ∀ following, chunkLoop parser data current = .again following →
            current.2 < following.2) ∧
      ∀ exit, parser.parseChunkedBody data pos = .ok exit →
        exit.pos ≤ data.length ∧
          (exit.parser.state = .chunkedBody →
            Counts data (text ++ slice data pos exit.pos) (exit.parser, exit.pos)) := by
  rcases hasRead.spec with ⟨invariant, tallied, -⟩
  refine ⟨returns_parseChunkedBody parser data pos, fun current reaches => ?round,
    fun exit stage => ?left⟩
  case round =>
    refine ⟨hasRead.counts state inside reaches, fun following again => ?_⟩
    rcases chunkLoop_keeps invariant tallied state reaches with ⟨currentInvariant, currentState, -⟩
    exact ((chunkStep_of_again again).keeps currentInvariant currentState).2.2.2.1
  case left =>
    have spec := parseChunkedBody_spec invariant state inside
    rw [stage] at spec
    refine ⟨spec.inside, fun still => ?_⟩
    rcases exists_chunkExit stage with ⟨last, reaches, left⟩
    have counts := hasRead.counts state inside reaches
    cases left with
    | waits same => rwa [same] at counts
    | ends complete => rw [complete] at still; cases still
    | refused error => rw [error] at still; cases still

/-- A call that ends inside a chunk, and the rest of the chunk with half of the CRLF after it. -/
theorem chunkLoop_spec_five :
    ∃ text parser, HasRead text parser ∧ parser.state = .chunkedBody ∧
      Returns (chunkLoop parser (bytes "cde\r")) (parser, 0)
          (parser.parseChunkedBody (bytes "cde\r") 0) ∧
        (∀ current, Reaches (chunkLoop parser (bytes "cde\r")) (parser, 0) current →
          Counts (bytes "cde\r") (text ++ slice (bytes "cde\r") 0 current.2) current ∧
            ∀ following, chunkLoop parser (bytes "cde\r") current = .again following →
              current.2 < following.2) ∧
        ∀ exit, parser.parseChunkedBody (bytes "cde\r") 0 = .ok exit →
          exit.pos ≤ (bytes "cde\r").length ∧
            (exit.parser.state = .chunkedBody →
              Counts (bytes "cde\r") (text ++ slice (bytes "cde\r") 0 exit.pos)
                (exit.parser, exit.pos)) := by
  have parses : Parses {}
      (bytes "POST / HTTP/1.1\r\nTransfer-Encoding: chunked\r\n\r\n5\r\nab") _ _ :=
    parses_get 4 (by decide)
  exact ⟨_, _, .between (.parse .fresh parses), by decide,
    chunkLoop_spec (.between (.parse .fresh parses)) (by decide) (Nat.zero_le _)⟩

end PPServer.Http.HttpParser
