import PPServer.Http.Stages

/-!
# `Parse` is one call of the reader

A call of `Parse` has exactly the outcome that the reader has when it is fed the same
bytes: it never ends when the bytes stop inside a line, it uses a missing request
when the reader does, and otherwise it returns with a parser whose view is the
reader's (`parses_iff`, `ends_iff`).  The view of a parser is what the reader makes
of everything the parser has been given, its buffer included.
-/

namespace PPServer.Http

open Loop

namespace HttpParser

/-- The reader that has read everything the parser was given. -/
def view (parser : HttpParser) : Reader := parser.reader.readAll parser.buffer

/-- Between two calls, only a parser that is done has unread bytes. -/
def Settled (parser : HttpParser) : Prop :=
  parser.state ≠ .complete → parser.state ≠ .error → parser.buffer = []

/-- What a return of the outer loop entered with `loop` says. -/
structure Returned (loop : ParseLoop) (result : ParseResult) (after : HttpParser) :
    Prop where
  invariant : after.Invariant
  settled : after.Settled
  view : after.view = loop.parser.verdict loop.parser.buffer loop.pos
  /-- The byte count and the unread bytes account for all bytes. -/
  count : after.state ≠ .error →
    (after.totalBytesParsed + after.buffer.length) % sizeModulus =
      (loop.parser.totalBytesParsed + (loop.parser.buffer.length - loop.pos)) % sizeModulus
  complete : after.state = .complete → result.success = true ∧ result.state = .complete

variable {loop : ParseLoop} {parser after : HttpParser} {data : Bytes}
variable {result : ParseResult}

/-- The loop condition. -/
def Active (loop : ParseLoop) : Prop :=
  loop.pos < loop.parser.buffer.length ∧ loop.parser.state ≠ .complete ∧
    loop.parser.state ≠ .error

theorem parsePass_inactive (inactive : ¬Active loop) :
    parsePass loop = .leave (.ok (finish loop)) :=
  if_neg inactive

theorem parsePass_active (active : Active loop) :
    parsePass loop =
      match parseStage loop with
      | .error fault => .leave (.error fault)
      | .ok exit =>
          if !exit.result.success then .leave (.ok (exit.result, exit.parser))
          else
            .again
              { parser :=
                  { exit.parser with
                    totalBytesParsed :=
                      (exit.parser.totalBytesParsed + (exit.pos - loop.pos)) % sizeModulus }
                pos := exit.pos
                result :=
                  { exit.result with
                    bytesParsed :=
                      (exit.result.bytesParsed + (exit.pos - loop.pos)) % sizeModulus } } :=
  if_pos active

theorem parseStage_spec (invariant : loop.parser.Invariant) (active : Active loop) :
    StageSpec loop.parser loop.parser.buffer loop.pos (parseStage loop) := by
  rcases active with ⟨unread, notComplete, notError⟩
  simp only [parseStage]
  split
  next state => exact parseStartLine_spec invariant state (Nat.le_of_lt unread)
  next state => exact parseHeaders_spec invariant state (Nat.le_of_lt unread)
  next state => exact parseBody_spec invariant state unread
  next state => exact parseChunkedBody_spec invariant state (Nat.le_of_lt unread)
  next state => exact absurd state notComplete
  next state => exact absurd state notError

/-! ## Running forever -/

theorem findCRLF_of_free {pos : Nat} (free : CRLFFree (data.drop pos)) :
    findCRLF data pos = none := by
  rw [findCRLF_eq, Delimiter.cut_eq_none_iff.mpr free]
  rfl

/-- A stage that waits for the end of a line returns a success without having moved. -/
theorem parseStage_stuck (active : Active loop)
    (stuck : loop.parser.Stuck loop.parser.buffer loop.pos) :
    parseStage loop =
      .ok ⟨⟨true, loop.parser.state, loop.parser.totalBytesParsed, []⟩, loop.parser, loop.pos⟩ := by
  rcases active with ⟨unread, notComplete, notError⟩
  rcases stuck with ⟨kind, phase, free⟩
  have absent := findCRLF_of_free free
  simp only [parseStage]
  split
  next state => simp [parseStartLine, absent]
  next state => exact total_of_leave (by simp [headersPass, unread, absent])
  next state => simp [reader, state] at phase
  next state =>
      have unparsed : loop.parser.chunkSizeParsed = false := by
        cases flag : loop.parser.chunkSizeParsed with
        | false => rfl
        | true => simp [reader, state, flag] at phase
      exact total_of_leave (by simp [chunkedPass, unread, unparsed, absent])
  next state => exact absurd state notComplete
  next state => exact absurd state notError

/-- Unread bytes without the end of the line keep the loop going for ever. -/
theorem not_terminates_of_stuck (active : Active loop)
    (stuck : loop.parser.Stuck loop.parser.buffer loop.pos) :
    ¬Terminates parsePass loop := by
  refine not_terminates_of_closed
    (fun loop => Active loop ∧ loop.parser.Stuck loop.parser.buffer loop.pos) ?_
    ⟨active, stuck⟩
  intro loop stays
  rcases stays with ⟨active, stuck⟩
  refine ⟨_, by rw [parsePass_active active, parseStage_stuck active stuck]; rfl, ?_⟩
  exact ⟨active, stuck⟩

theorem insideLine_of_stuck (active : Active loop)
    (stuck : loop.parser.Stuck loop.parser.buffer loop.pos) :
    (loop.parser.verdict loop.parser.buffer loop.pos).InsideLine := by
  rcases stuck with ⟨kind, phase, free⟩
  rw [verdict, Reader.feed, Reader.insideLine_settle,
    Reader.readAll_of_free phase (by simpa using free)]
  refine ⟨kind, _, rfl, ?_⟩
  rw [List.nil_append, ← List.length_pos_iff, List.length_drop]
  exact Nat.sub_pos_of_lt active.1

/-! ## Coming to an end -/

/-- The reader of a parser is not in the middle of a line. -/
theorem not_insideLine_reader (parser : HttpParser) : ¬parser.reader.InsideLine := by
  intro inside
  rcases inside with ⟨kind, seen, phase, nonempty⟩
  simp only [reader] at phase
  split at phase <;> try simp at phase
  next => exact nonempty phase.2
  next => exact nonempty phase.2
  next =>
      split at phase <;> simp at phase
      exact nonempty phase.2

theorem settle_reader (parser : HttpParser) : parser.reader.settle = parser.reader := by
  simp only [Reader.settle]
  split
  next afterData seen phase =>
      have flag : afterData = false := by
        simp only [reader] at phase
        split at phase <;> try simp at phase
        split at phase <;> simp at phase
        exact phase.1
      rw [← flag, ← phase]
  next => rfl

/-- The invariant does not mention the buffer. -/
theorem Invariant.recount (invariant : parser.Invariant) (buffer : Bytes) {count : Nat}
    (counted : count < sizeModulus) :
    Invariant { parser with buffer := buffer, totalBytesParsed := count } :=
  { body := invariant.body, fits := invariant.fits, head := invariant.head,
    chunk := invariant.chunk, counted := counted }

/-- What is left of the buffer is what has not been read. -/
theorem parser_finish (loop : ParseLoop) :
    (finish loop).2 = { loop.parser with buffer := loop.parser.buffer.drop loop.pos } := by
  unfold finish
  dsimp only
  split
  next => rfl
  next start => simp [show loop.pos = 0 by omega]

theorem finish_spec (invariant : loop.parser.Invariant) (inactive : ¬Active loop) :
    Returned loop (finish loop).1 (finish loop).2 := by
  have done (notComplete : loop.parser.state ≠ .complete) (notError : loop.parser.state ≠ .error) :
      loop.parser.buffer.drop loop.pos = [] := by
    refine List.drop_eq_nil_of_le (Nat.le_of_not_lt fun unread => ?_)
    exact inactive ⟨unread, notComplete, notError⟩
  rw [parser_finish]
  exact
    { invariant := invariant.recount _ invariant.counted
      settled := done
      view := by
        have sameReader : HttpParser.reader
            { loop.parser with buffer := loop.parser.buffer.drop loop.pos } =
              loop.parser.reader := rfl
        rw [view, sameReader, verdict, Reader.feed]
        by_cases complete : loop.parser.state = .complete
        · rw [Reader.readAll_complete (by simp [reader, complete] : _ = Phase.complete [])]
          rfl
        · by_cases error : loop.parser.state = .error
          · rw [Reader.readAll_failed (by simp [reader, error]), settle_reader]
          · simp only [done complete error, Reader.readAll_nil, settle_reader]
      count := fun _ => by simp
      complete := fun complete => by
        have state : loop.parser.state = .complete := complete
        simp [finish, state] }

theorem not_fault_of_inactive (inactive : ¬Active loop) :
    ¬(loop.parser.verdict loop.parser.buffer loop.pos).InsideLine ∧
      (loop.parser.verdict loop.parser.buffer loop.pos).phase ≠ .fault := by
  rw [verdict, Reader.feed, Reader.insideLine_settle, Ne, Reader.settle_phase_fault]
  by_cases complete : loop.parser.state = .complete
  · rw [Reader.readAll_complete (by simp [reader, complete] : _ = Phase.complete [])]
    simp [Reader.InsideLine]
  · by_cases error : loop.parser.state = .error
    · rw [Reader.readAll_failed (by simp [reader, error])]
      simp [reader, error, Reader.InsideLine]
    · have done : loop.parser.buffer.drop loop.pos = [] :=
        List.drop_eq_nil_of_le (Nat.le_of_not_lt fun unread =>
          inactive ⟨unread, complete, error⟩)
      rw [done, Reader.readAll_nil]
      refine ⟨not_insideLine_reader _, ?_⟩
      simp only [reader]
      split <;> simp_all
      split <;> simp

/-- The three outcomes of the loop, told apart by the reader. -/
inductive LoopOutcome (loop : ParseLoop) (final : Reader) : Prop where
  | forever : final.InsideLine → ¬Terminates parsePass loop → LoopOutcome loop final
  | faults (fault : Fault) :
      final.phase = .fault → Returns parsePass loop (.error fault) → LoopOutcome loop final
  | returns (result : ParseResult) (after : HttpParser) :
      ¬final.InsideLine → final.phase ≠ .fault →
      Returns parsePass loop (.ok (result, after)) → Returned loop result after →
      LoopOutcome loop final

theorem LoopOutcome.of_inactive (invariant : loop.parser.Invariant)
    (inactive : ¬Active loop) :
    LoopOutcome loop (loop.parser.verdict loop.parser.buffer loop.pos) := by
  rcases not_fault_of_inactive inactive with ⟨notInside, notFault⟩
  exact .returns _ _ notInside notFault (returns_of_leave (parsePass_inactive inactive))
    (finish_spec invariant inactive)

/-- A pass that goes round again hands its outcome on. -/
theorem LoopOutcome.of_again {next : ParseLoop} {final : Reader}
    (step : parsePass loop = .again next)
    (verdict : next.parser.verdict next.parser.buffer next.pos =
      loop.parser.verdict loop.parser.buffer loop.pos)
    (count : (next.parser.totalBytesParsed + (next.parser.buffer.length - next.pos)) % sizeModulus =
      (loop.parser.totalBytesParsed + (loop.parser.buffer.length - loop.pos)) % sizeModulus)
    (outcome : LoopOutcome next final) : LoopOutcome loop final := by
  cases outcome with
  | forever inside runs =>
      refine .forever inside ?_
      intro terminates
      rcases terminates with ⟨result, returns⟩
      exact runs ⟨result, (returns_again_iff step).mp returns⟩
  | faults fault phase returns =>
      exact .faults fault phase ((returns_again_iff step).mpr returns)
  | returns result after notInside notFault returns returned =>
      exact .returns result after notInside notFault ((returns_again_iff step).mpr returns)
        { returned with
          view := returned.view.trans verdict
          count := fun alive => (returned.count alive).trans count }

/-- A stage that fails ends the call in `ERROR`. -/
theorem LoopOutcome.of_failure {exit : StageExit} (stage : parseStage loop = .ok exit)
    (active : Active loop)
    (spec : Advances loop.parser loop.parser.buffer loop.pos exit)
    (success : exit.result.success = false) :
    LoopOutcome loop (loop.parser.verdict loop.parser.buffer loop.pos) := by
  have pass := parsePass_active active
  simp only [stage, success, Bool.not_false, if_true] at pass
  have state : exit.parser.state = .error := by
    by_contra alive
    exact absurd (spec.success.mpr alive) (by simp [success])
  have failed : exit.parser.reader.phase = .failed := by simp [reader, state]
  have final : exit.parser.reader = loop.parser.verdict loop.parser.buffer loop.pos := by
    rw [← spec.verdict, verdict, Reader.feed, Reader.readAll_failed failed, settle_reader]
  refine .returns exit.result exit.parser ?_ ?_ (returns_of_leave pass) ?_
  · rw [← final]
    exact not_insideLine_reader _
  · rw [← final, failed]
    simp
  · exact
      { invariant := spec.invariant
        settled := fun _ alive => absurd state alive
        view := by rw [view, Reader.readAll_failed failed, final]
        count := fun alive => absurd state alive
        complete := fun complete => by simp [state] at complete }

/-- The loop after a stage that succeeds: the bytes it has read are counted. -/
def ParseLoop.advance (loop : ParseLoop) (exit : StageExit) : HttpParser :=
  { exit.parser with
    totalBytesParsed := (exit.parser.totalBytesParsed + (exit.pos - loop.pos)) % sizeModulus }

theorem Advances.invariant_advance {exit : StageExit}
    (spec : Advances loop.parser loop.parser.buffer loop.pos exit) :
    (loop.advance exit).Invariant :=
  spec.invariant.recount _ (Nat.mod_lt _ (by simp [sizeModulus]))

/-- What the bytes of the call come to is not changed by a stage. -/
theorem Advances.verdict_advance {exit : StageExit}
    (spec : Advances loop.parser loop.parser.buffer loop.pos exit) :
    (loop.advance exit).verdict (loop.advance exit).buffer exit.pos =
      loop.parser.verdict loop.parser.buffer loop.pos := by
  rw [← spec.verdict, ← spec.buffer]
  rfl

/-- After a stage that succeeds the rest of the loop decides. -/
theorem LoopOutcome.of_success {exit : StageExit} (stage : parseStage loop = .ok exit)
    (active : Active loop)
    (spec : Advances loop.parser loop.parser.buffer loop.pos exit)
    (success : exit.result.success = true)
    (outcome : ∀ following : ParseLoop, following.parser = loop.advance exit →
      following.pos = exit.pos →
      LoopOutcome following
        (following.parser.verdict following.parser.buffer following.pos)) :
    LoopOutcome loop (loop.parser.verdict loop.parser.buffer loop.pos) := by
  have pass := parsePass_active active
  simp only [stage, success, Bool.not_true, Bool.false_eq_true, if_false] at pass
  have verdict := spec.verdict_advance
  refine .of_again pass verdict ?_ ?_
  · have forward := spec.forward
    have bounded := spec.inside
    dsimp only
    rw [spec.buffer, spec.total, Nat.mod_add_mod]
    congr 1
    omega
  · rw [← verdict]
    exact outcome _ rfl rfl

theorem loop_outcome (invariant : loop.parser.Invariant)
    (inside : loop.pos ≤ loop.parser.buffer.length) :
    LoopOutcome loop (loop.parser.verdict loop.parser.buffer loop.pos) := by
  induction remaining : loop.parser.buffer.length - loop.pos using Nat.strongRecOn
    generalizing loop with
  | _ size ih =>
      by_cases active : Active loop
      case neg => exact .of_inactive invariant active
      by_cases stuck : loop.parser.Stuck loop.parser.buffer loop.pos
      case pos =>
        exact .forever (insideLine_of_stuck active stuck) (not_terminates_of_stuck active stuck)
      have spec := parseStage_spec invariant active
      cases stage : parseStage loop with
      | error fault =>
          have pass := parsePass_active active
          rw [stage] at spec pass
          exact .faults fault spec (returns_of_leave pass)
      | ok exit =>
          rw [stage] at spec
          cases success : exit.result.success with
          | false => exact .of_failure stage active spec success
          | true =>
              refine .of_success stage active spec success fun following parser pos => ?_
              have buffer : following.parser.buffer = loop.parser.buffer := by
                rw [parser]
                exact spec.buffer
              have nextInvariant : following.parser.Invariant := by
                rw [parser]
                exact spec.invariant_advance
              have bounded := spec.inside
              rcases spec.progress success with further | complete | ⟨-, -, waits⟩
              · refine ih (following.parser.buffer.length - following.pos) ?_ nextInvariant ?_ rfl
                · rw [buffer, pos, ← remaining]
                  omega
                · rwa [buffer, pos]
              · refine .of_inactive nextInvariant fun active => active.2.1 ?_
                rw [parser]
                exact complete
              · exact absurd (waits active.1) stuck

/-! ## Passes of the loop -/

variable {following last : ParseLoop}

/-- A pass that goes round again has called a stage that succeeded. -/
theorem parsePass_again (invariant : loop.parser.Invariant)
    (again : parsePass loop = .again following) :
    ∃ exit, Active loop ∧ parseStage loop = .ok exit ∧ exit.result.success = true ∧
      Advances loop.parser loop.parser.buffer loop.pos exit ∧
      following.parser = loop.advance exit ∧ following.pos = exit.pos := by
  by_cases active : Active loop
  case neg => rw [parsePass_inactive active] at again; cases again
  case pos =>
    have spec := parseStage_spec invariant active
    rw [parsePass_active active] at again
    cases stage : parseStage loop with
    | error fault => rw [stage] at again; cases again
    | ok exit =>
        rw [stage] at spec again
        dsimp only at again
        split at again
        next => cases again
        next success =>
            cases again
            exact ⟨exit, active, rfl, by simpa using success, spec, rfl, rfl⟩

/-- The loop of a call never changes what the bytes of the call come to. -/
theorem reaches_spec (reaches : Reaches parsePass loop last)
    (invariant : loop.parser.Invariant) :
    last.parser.Invariant ∧
      last.parser.verdict last.parser.buffer last.pos =
        loop.parser.verdict loop.parser.buffer loop.pos := by
  induction reaches with
  | refl => exact ⟨invariant, rfl⟩
  | @tail loop following _ again ih =>
      rcases parsePass_again ih.1 again with ⟨exit, -, -, -, spec, parser, pos⟩
      rw [parser, pos, ← ih.2]
      exact ⟨spec.invariant_advance, spec.verdict_advance⟩

/-! ## The calls -/

theorem Invariant.enter (invariant : parser.Invariant) (data : Bytes) :
    (enter parser data).parser.Invariant :=
  invariant.recount _ invariant.counted

theorem verdict_enter (parser : HttpParser) (data : Bytes) :
    (enter parser data).parser.verdict (enter parser data).parser.buffer (enter parser data).pos =
      parser.view.feed data := by
  simp only [enter, verdict, Reader.feed, List.drop_zero, Reader.readAll_append]
  rfl

theorem parse_outcome (invariant : parser.Invariant) (data : Bytes) :
    LoopOutcome (enter parser data) (parser.view.feed data) := by
  rw [← verdict_enter]
  exact loop_outcome (invariant.enter data) (Nat.zero_le _)

theorem parse_of_nonempty (nonempty : data ≠ []) (fuel : Nat) :
    parse fuel parser data = run parsePass fuel (enter parser data) :=
  if_neg nonempty

theorem parses_iff_returns (nonempty : data ≠ []) :
    Parses parser data result after ↔
      Returns parsePass (enter parser data) (.ok (result, after)) := by
  simp only [Parses, parse_of_nonempty nonempty, Returns]

theorem Parses.unique {other : ParseResult} {otherAfter : HttpParser}
    (parses : Parses parser data result after) (nonempty : data ≠ [])
    (otherParses : Parses parser data other otherAfter) :
    result = other ∧ after = otherAfter := by
  rw [parses_iff_returns nonempty] at parses otherParses
  cases parses.unique otherParses
  exact ⟨rfl, rfl⟩

/-- What a return of `Parse` says. -/
theorem Parses.spec (parses : Parses parser data result after) (nonempty : data ≠ [])
    (invariant : parser.Invariant) :
    Returned (enter parser data) result after ∧ ¬(parser.view.feed data).InsideLine ∧
      (parser.view.feed data).phase ≠ .fault := by
  rw [parses_iff_returns nonempty] at parses
  cases parse_outcome invariant data with
  | forever inside runs => exact absurd ⟨_, parses⟩ runs
  | faults fault phase returns => cases parses.unique returns
  | returns result' after' notInside notFault returns returned =>
      cases parses.unique returns
      exact ⟨returned, notInside, notFault⟩

/-- A call returns the reader's verdict. -/
theorem Parses.view (parses : Parses parser data result after) (nonempty : data ≠ [])
    (invariant : parser.Invariant) : after.view = parser.view.feed data :=
  (parses.spec nonempty invariant).1.view.trans (verdict_enter parser data)

/-- `Parse` returns exactly when the bytes neither stop inside a line nor need a
request that is missing. -/
theorem exists_parses_iff (invariant : parser.Invariant) (nonempty : data ≠ []) :
    (∃ result after, Parses parser data result after) ↔
      ¬(parser.view.feed data).InsideLine ∧ (parser.view.feed data).phase ≠ .fault := by
  constructor
  · intro returned
    rcases returned with ⟨result, after, parses⟩
    exact (parses.spec nonempty invariant).2
  · intro outside
    rcases outside with ⟨notInside, notFault⟩
    cases parse_outcome invariant data with
    | forever inside _ => exact absurd inside notInside
    | faults fault phase _ => exact absurd phase notFault
    | returns result after _ _ returns _ =>
        exact ⟨result, after, (parses_iff_returns nonempty).mpr returns⟩

/-- `Parse` comes to an end exactly when the bytes do not stop inside a line. -/
theorem ends_iff (invariant : parser.Invariant) (nonempty : data ≠ []) :
    Ends parser data ↔ ¬(parser.view.feed data).InsideLine := by
  have terminates : Ends parser data ↔ Terminates parsePass (enter parser data) := by
    simp only [Ends, parse_of_nonempty nonempty, Terminates, Returns]
    exact exists_comm
  rw [terminates]
  cases parse_outcome invariant data with
  | forever inside runs => exact iff_of_false runs fun notInside => notInside inside
  | faults fault phase returns =>
      apply iff_of_true ⟨_, returns⟩
      intro inside
      rcases inside with ⟨kind, seen, other, -⟩
      rw [phase] at other
      cases other
  | returns result after notInside notFault returns _ =>
      exact iff_of_true ⟨_, returns⟩ notInside

/-- An empty block of data changes nothing. -/
theorem parses_nil_iff : Parses parser [] result after ↔
    result = ⟨false, parser.state, parser.totalBytesParsed, bytes "Invalid input data"⟩ ∧
      after = parser := by
  simp [Parses, parse, eq_comm]

/-! ## Runs of calls -/

theorem Invariant.fresh : Invariant {} where
  body := by simp
  fits := by simp [sizeModulus]
  head := by simp
  chunk := by simp
  counted := by simp [sizeModulus]

@[simp] theorem view_fresh : view {} = {} := rfl

theorem Parses.invariant (parses : Parses parser data result after)
    (invariant : parser.Invariant) (settled : parser.Settled) :
    after.Invariant ∧ after.Settled := by
  by_cases nonempty : data = []
  · subst nonempty
    rcases parses_nil_iff.mp parses with ⟨-, rfl⟩
    exact ⟨invariant, settled⟩
  · have returned := (parses.spec nonempty invariant).1
    exact ⟨returned.invariant, returned.settled⟩

theorem Invariant.reset (parser : HttpParser) : parser.reset.Invariant where
  body := by simp [HttpParser.reset]
  fits := by simp [HttpParser.reset, sizeModulus]
  head := by simp [HttpParser.reset]
  chunk := by simp [HttpParser.reset]
  counted := by simp [HttpParser.reset, sizeModulus]

@[simp] theorem view_reset (parser : HttpParser) : parser.reset.view = {} := rfl

theorem settled_reset (parser : HttpParser) : parser.reset.Settled := fun _ _ => rfl

theorem Reachable.invariant (reachable : Reachable parser) :
    parser.Invariant ∧ parser.Settled := by
  induction reachable with
  | fresh => exact ⟨.fresh, fun _ _ => rfl⟩
  | parse _ parses ih => exact parses.invariant ih.1 ih.2
  | getRequest _ ih =>
      rcases ih with ⟨invariant, settled⟩
      exact
        ⟨{ body := fun _ _ equal => by cases equal
           fits := invariant.fits
           head := fun state => ⟨(invariant.head state).1, fun _ equal => by cases equal⟩
           chunk := invariant.chunk
           counted := invariant.counted }, settled⟩
  | reset _ _ => exact ⟨.reset _, settled_reset _⟩

/-! ## What every stage keeps -/

/-- A property of a parser that says nothing about the buffer or the byte count, and that every
stage keeps. -/
structure Stable (property : HttpParser → Prop) : Prop where
  stage : ∀ loop exit, loop.parser.Invariant → property loop.parser →
    parseStage loop = .ok exit → property exit.parser
  recount : ∀ parser buffer count, property parser →
    property { parser with buffer := buffer, totalBytesParsed := count }

variable {property : HttpParser → Prop}

theorem Stable.reaches (stable : Stable property) (reaches : Reaches parsePass loop last)
    (invariant : loop.parser.Invariant) (holds : property loop.parser) : property last.parser := by
  apply reaches.keeps holds
  intro current following before again holds
  have stays := (reaches_spec before invariant).1
  rcases parsePass_again stays again with ⟨exit, -, stage, -, -, parser, -⟩
  rw [parser]
  exact stable.recount _ _ _ (stable.stage current exit stays holds stage)

/-- What every stage keeps, a call keeps. -/
theorem Stable.parses (stable : Stable property) (parses : Parses parser data result after)
    (invariant : parser.Invariant) (holds : property parser) : property after := by
  by_cases empty : data = []
  · subst empty
    rcases parses_nil_iff.mp parses with ⟨-, rfl⟩
    exact holds
  · rw [parses_iff_returns empty] at parses
    rcases parses.exists_last with ⟨last, reaches, leaves⟩
    have started := invariant.enter data
    have lastHolds := stable.reaches reaches started (stable.recount _ _ _ holds)
    by_cases active : Active last
    · rw [parsePass_active active] at leaves
      cases stage : parseStage last with
      | error fault => rw [stage] at leaves; cases leaves
      | ok exit =>
          have stays := (reaches_spec reaches started).1
          rw [stage] at leaves
          dsimp only at leaves
          split at leaves <;> cases leaves
          exact stable.stage last exit stays lastHolds stage
    · rw [parsePass_inactive active] at leaves
      cases leaves
      split
      · exact stable.recount _ _ _ lastHolds
      · exact lastHolds

variable {pieces : List Bytes}

/-- A run of calls feeds the reader one piece after the other. -/
theorem Feeds.spec (feeds : Feeds parser pieces after)
    (nonempty : ∀ piece ∈ pieces, piece ≠ []) (invariant : parser.Invariant)
    (settled : parser.Settled) :
    after.Invariant ∧ after.Settled ∧ after.view = pieces.foldl Reader.feed parser.view := by
  induction feeds with
  | nil => exact ⟨invariant, settled, rfl⟩
  | cons parses _ ih =>
      rcases parses.invariant invariant settled with ⟨nextInvariant, nextSettled⟩
      have view := parses.view (nonempty _ (by simp)) invariant
      obtain ⟨afterInvariant, afterSettled, afterView⟩ :=
        ih (fun piece member => nonempty piece (by simp [member])) nextInvariant nextSettled
      exact ⟨afterInvariant, afterSettled, by rw [afterView, view]; rfl⟩

end HttpParser

end PPServer.Http
