import PPServer.Http.Refinement

/-!
# The numerals a length is taken from

Both lengths of the protocol are read by `std::stoul`, whose language is wider than
the protocol's: blanks, signs, a base prefix and any tail are accepted.  A place that
takes a length keeps to the protocol's numerals exactly on those texts on which
`stoul` does not go beyond them.
-/

namespace PPServer

/-- What may follow the digits of a size line: nothing, or blanks and an extension. -/
def IsSizeTail (tail : Bytes) : Prop :=
  tail = [] ∨ ∃ blanks extension, tail = blanks ++ 59 :: extension ∧
    ∀ byte ∈ blanks, isBlank byte = true

/-- A chunk-size line that denotes `size`. -/
def IsSizeLine (line : Bytes) (size : Nat) : Prop :=
  ∃ digits tail, line = digits ++ tail ∧ IsNumeral 16 digits size ∧ IsSizeTail tail

/-- `std::stoul` finds no digits in the text, or digits of too large a number. -/
def StoulRejects (text : Bytes) (base : Nat) : Prop :=
  (subject base text).digits = [] ∨
    sizeModulus ≤ numeralValue base (subject base text).digits

theorem stoulRejects_iff {text : Bytes} {base : Nat} :
    StoulRejects text base ↔ ∃ error, stoul text base = .error error := by
  have accepts := stoul_isOk_iff text base
  rw [StoulRejects]
  cases read : stoul text base with
  | error error =>
      simp only [read, reduceCtorEq, exists_false, false_iff, not_and_or, not_not,
        Nat.not_lt] at accepts
      exact iff_of_true accepts ⟨error, rfl⟩
  | ok value =>
      rcases accepts.mp ⟨value, read⟩ with ⟨some, fits⟩
      refine iff_of_false ?_ (by simp)
      intro rejects
      rcases rejects with none | large
      · exact some none
      · exact absurd fits (Nat.not_lt.mpr large)

/-- `std::stoul` on a plain numeral and a tail that cannot be taken for more of it. -/
theorem stoul_of_digits {base value : Nat} {digits tail : Bytes} (small : base ≤ 36)
    (numeral : IsNumeral base digits value)
    (stops : ∀ byte ∈ tail.head?, isDigit base byte = false ∧ byte ≠ 120 ∧ byte ≠ 88) :
    stoul (digits ++ tail) base =
      if value < sizeModulus then .ok value else .error .outOfRange := by
  by_cases fits : value < sizeModulus
  · rw [if_pos fits, stoul_of_numeral small numeral fits stops]
  · have parts := subject_of_digits small numeral.nonempty numeral.isDigit stops
    simp [stoul, parts, numeral.nonempty, numeral.denotes, fits, Nat.not_lt.mp fits]

theorem stoul_decimal {text : Bytes} {value : Nat} (numeral : IsNumeral 10 text value) :
    stoul text 10 = if value < sizeModulus then .ok value else .error .outOfRange := by
  rw [← List.append_nil text]
  exact stoul_of_digits (by decide) numeral (by simp)

theorem stoul_sizeLine {line : Bytes} {size : Nat} (sizeLine : IsSizeLine line size) :
    stoul line 16 = if size < sizeModulus then .ok size else .error .outOfRange := by
  rcases sizeLine with ⟨digits, tail, rfl, numeral, tailForm⟩
  refine stoul_of_digits (by decide) numeral fun byte isHead => ?_
  rcases tailForm with rfl | ⟨blanks, extension, rfl, isBlank_blanks⟩
  · simp at isHead
  · cases blanks with
    | nil =>
        obtain rfl : 59 = byte := by simpa using isHead
        decide
    | cons blank blanks =>
        obtain rfl : blank = byte := by simpa using isHead
        have isBlank_blank := isBlank_blanks blank (by simp)
        simp only [isBlank, Bool.or_eq_true, beq_iff_eq] at isBlank_blank
        rcases isBlank_blank with rfl | rfl <;> decide

/-- Lengths are taken from well-formed texts only: a length that is started is the one
the text denotes, and if it denotes none that fits, that is an error. -/
structure TakesOnly (denotes starts : Nat → Prop) (fails : Prop) : Prop where
  sound : ∀ length, starts length → denotes length ∧ length < sizeModulus
  rejects : (¬∃ length, denotes length ∧ length < sizeModulus) → fails

/-- A place that takes what `std::stoul` reads keeps to a language that `stoul`
understands exactly on its texts and on those that `stoul` rejects. -/
theorem takesOnly_iff {denotes starts : Nat → Prop} {fails : Prop} {text : Bytes} {base : Nat}
    (understands : ∀ length, denotes length →
      stoul text base = if length < sizeModulus then .ok length else .error .outOfRange)
    (starts_iff : ∀ length, starts length ↔ stoul text base = .ok length)
    (fails_iff : fails ↔ ∃ error, stoul text base = .error error) :
    TakesOnly denotes starts fails ↔ (∃ length, denotes length) ∨ StoulRejects text base := by
  rw [stoulRejects_iff, ← fails_iff]
  constructor
  · intro takes
    cases read : stoul text base with
    | ok length => exact .inl ⟨length, (takes.sound length ((starts_iff length).mpr read)).1⟩
    | error error => exact .inr (fails_iff.mpr ⟨error, read⟩)
  · intro proper
    rcases proper with ⟨length, denoted⟩ | failed
    · have read := understands length denoted
      by_cases fits : length < sizeModulus
      · rw [if_pos fits] at read
        refine ⟨fun other started => ?_, fun none => absurd ⟨length, denoted, fits⟩ none⟩
        have same := (starts_iff other).mp started
        rw [read] at same
        cases same
        exact ⟨denoted, fits⟩
      · rw [if_neg fits] at read
        refine ⟨fun other started => ?_, fun _ => fails_iff.mpr ⟨_, read⟩⟩
        have same := (starts_iff other).mp started
        rw [read] at same
        cases same
    · rcases fails_iff.mp failed with ⟨error, read⟩
      refine ⟨fun other started => ?_, fun _ => failed⟩
      have same := (starts_iff other).mp started
      rw [read] at same
      cases same

end PPServer

namespace PPServer.Http.HttpParser

open Loop

variable {parser : HttpParser} {data : Bytes} {pos lineEnd : Nat} {request : HttpRequest}
variable {result : ParseResult}

/-! ## `Content-Length` -/

/-- The stage has gone on to `BODY` with this length. -/
def EntersBody (outcome : Except Fault StageExit) (length : Nat) : Prop :=
  ∃ exit, outcome = .ok exit ∧ exit.parser.state = .body ∧ exit.parser.contentLength = length

def Fails (outcome : Except Fault StageExit) : Prop :=
  ∃ exit, outcome = .ok exit ∧ exit.parser.state = .error

/-- At the empty line, `ParseHeaders` chooses the framing. -/
theorem parseHeaders_emptyLine (here : findCRLF data pos = some pos) :
    parser.parseHeaders data pos =
      parser.endHeaders ⟨true, parser.state, parser.totalBytesParsed, []⟩ (pos + 2) := by
  have bounds := findCRLF_bounds here
  have inside : pos < data.length := by omega
  exact total_of_leave (by simp [headersPass, here, inside])

theorem contentLength_takesOnly_iff (present : parser.request = some request)
    (here : findCRLF data pos = some pos)
    (announced : request.getHeader (bytes "Content-Length") ≠ []) :
    TakesOnly (IsNumeral 10 (request.getHeader (bytes "Content-Length")))
        (EntersBody (parser.parseHeaders data pos)) (Fails (parser.parseHeaders data pos)) ↔
      (∃ length, IsNumeral 10 (request.getHeader (bytes "Content-Length")) length) ∨
        StoulRejects (request.getHeader (bytes "Content-Length")) 10 := by
  rw [parseHeaders_emptyLine here]
  refine takesOnly_iff (fun length numeral => stoul_decimal numeral) (fun length => ?_) ?_
  · simp only [EntersBody, endHeaders, present, announced, ne_eq, not_false_eq_true, if_true]
    cases stoul (request.getHeader (bytes "Content-Length")) 10 <;>
      simp [transitionTo, handleError]
  · simp only [Fails, endHeaders, present, announced, ne_eq, not_false_eq_true, if_true]
    cases stoul (request.getHeader (bytes "Content-Length")) 10 <;>
      simp [transitionTo, handleError]

/-! ## Chunk sizes -/

/-- The pass has read a size line and started a chunk of this size, or has finished
the body if the size is zero. -/
def StartsChunk (pass : Pass (HttpParser × Nat) (Except Fault StageExit)) (size : Nat) : Prop :=
  (∃ next, pass = .again next ∧ size ≠ 0 ∧ next.1.chunkSizeParsed = true ∧
      next.1.currentChunkSize = size) ∨
    size = 0 ∧ ∃ exit, pass = .leave (.ok exit) ∧ exit.parser.state = .complete

/-- The pass has left the stage in `ERROR`. -/
def PassFails (pass : Pass (HttpParser × Nat) (Except Fault StageExit)) : Prop :=
  ∃ exit, pass = .leave (.ok exit) ∧ exit.parser.state = .error

theorem chunkSize_takesOnly_iff (expected : parser.chunkSizeParsed = false)
    (found : findCRLF data pos = some lineEnd) :
    TakesOnly (IsSizeLine ((data.drop pos).take (lineEnd - pos)))
        (StartsChunk (chunkedPass data result (parser, pos)))
        (PassFails (chunkedPass data result (parser, pos))) ↔
      (∃ size, IsSizeLine ((data.drop pos).take (lineEnd - pos)) size) ∨
        StoulRejects ((data.drop pos).take (lineEnd - pos)) 16 := by
  have bounds := findCRLF_bounds found
  have inside : pos < data.length := by omega
  refine takesOnly_iff (fun size sizeLine => stoul_sizeLine sizeLine) (fun size => ?_) ?_
  · simp only [StartsChunk, chunkedPass, inside, if_true, expected, found]
    cases stoul ((data.drop pos).take (lineEnd - pos)) 16 with
    | error error => simp [handleError]
    | ok value =>
        by_cases zero : value = 0
        · subst zero
          simpa [transitionTo] using eq_comm
        · simp only [zero, if_false, Pass.again.injEq, exists_eq_left', Except.ok.injEq,
            reduceCtorEq, false_and, exists_false, and_false, or_false, true_and, ne_eq,
            and_iff_right_iff_imp]
          intro equal
          subst equal
          exact zero
  · simp only [PassFails, chunkedPass, inside, if_true, expected, found]
    cases stoul ((data.drop pos).take (lineEnd - pos)) 16 with
    | error error => simp [handleError]
    | ok value =>
        by_cases zero : value = 0
        · subst zero
          simp [transitionTo]
        · simp [zero]

/-- **Lengths and numerals.**  At the end of the header, a `Content-Length` is taken
only from a decimal numeral that fits exactly if it is a decimal numeral or a text that
`std::stoul` rejects; and the same holds of size lines and chunks. -/
theorem lengths_taken_iff (parser : HttpParser) (data : Bytes) (pos : Nat) :
    (∀ request, parser.request = some request → findCRLF data pos = some pos →
      request.getHeader (bytes "Content-Length") ≠ [] →
      (TakesOnly (IsNumeral 10 (request.getHeader (bytes "Content-Length")))
          (EntersBody (parser.parseHeaders data pos)) (Fails (parser.parseHeaders data pos)) ↔
        (∃ length, IsNumeral 10 (request.getHeader (bytes "Content-Length")) length) ∨
          StoulRejects (request.getHeader (bytes "Content-Length")) 10)) ∧
    ∀ (lineEnd : Nat) (result : ParseResult),
      parser.chunkSizeParsed = false → findCRLF data pos = some lineEnd →
      (TakesOnly (IsSizeLine ((data.drop pos).take (lineEnd - pos)))
          (StartsChunk (chunkedPass data result (parser, pos)))
          (PassFails (chunkedPass data result (parser, pos))) ↔
        (∃ size, IsSizeLine ((data.drop pos).take (lineEnd - pos)) size) ∨
          StoulRejects ((data.drop pos).take (lineEnd - pos)) 16) :=
  ⟨fun _ => contentLength_takesOnly_iff, fun _ _ => chunkSize_takesOnly_iff⟩

/-- A decimal `Content-Length` and a size line with an extension. -/
theorem lengths_taken_iff_five :
    (TakesOnly (IsNumeral 10 (bytes "5"))
        (EntersBody (parseHeaders
          { state := .headers
            request := some (({} : HttpRequest).addHeader (bytes "Content-Length") (bytes "5")) }
          crlf 0))
        (Fails (parseHeaders
          { state := .headers
            request := some (({} : HttpRequest).addHeader (bytes "Content-Length") (bytes "5")) }
          crlf 0)) ↔
      (∃ length, IsNumeral 10 (bytes "5") length) ∨ StoulRejects (bytes "5") 10) ∧
    (TakesOnly (IsSizeLine (bytes "5;a"))
        (StartsChunk (chunkedPass (bytes "5;a\r\n") {} ({ state := .chunkedBody }, 0)))
        (PassFails (chunkedPass (bytes "5;a\r\n") {} ({ state := .chunkedBody }, 0))) ↔
      (∃ size, IsSizeLine (bytes "5;a") size) ∨ StoulRejects (bytes "5;a") 16) :=
  ⟨(lengths_taken_iff _ _ _).1
      (({} : HttpRequest).addHeader (bytes "Content-Length") (bytes "5")) rfl (by decide)
      (by decide),
    (lengths_taken_iff { state := .chunkedBody } (bytes "5;a\r\n") 0).2 3 {} rfl (by decide)⟩

/-- A negative `Content-Length` is taken for a length just below `2 ^ 64`. -/
theorem lengths_taken_from_negative :
    (∃ result after,
      Parses {} (bytes "POST / HTTP/1.1\r\nContent-Length: -1\r\n\r\n") result after ∧
        after.state = .body ∧ after.contentLength = 2 ^ 64 - 1) ∧
      ¬∃ length, IsNumeral 10 (bytes "-1") length := by
  refine ⟨⟨_, _, parses_get 4 (by decide), by decide, by decide⟩, ?_⟩
  intro isNumeral
  rcases isNumeral with ⟨length, numeral⟩
  exact absurd (numeral.isDigit 45 (by decide)) (by decide)

end PPServer.Http.HttpParser
