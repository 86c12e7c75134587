import PPServer.Library.Marks
import PPServer.Net.Readable

/-!
# Requests sent back to back

`HandleRead` looks for the end of a request in all that it has read, answers once if it is there,
and forgets what it has read.  So a read answers one request at most, whatever it brings, and
the bytes of the next request that it brings are lost with those of the first.
-/

namespace PPServer.Net

open Locking

/-- The empty line by which the handler knows the end of a request. -/
def headerEnd : Bytes := bytes "\r\n\r\n"

theorem length_headerEnd : headerEnd.length = 4 := rfl

/-- A request without a body: it ends with an empty line, and there is none before. -/
structure BodylessRequest where
  text : Bytes
  ends : headerEnd <:+ text
  once : ¬headerEnd <:+: text.dropLast

/-- Where the texts end that follow each other from an offset on. -/
def endsFrom : Nat → List Bytes → List Nat
  | _, [] => []
  | offset, text :: texts =>
      (offset + text.length) :: endsFrom (offset + text.length) texts

variable {texts : List Bytes} {offset mark : Nat}

theorem le_of_mem_endsFrom {size : Nat} (long : ∀ text ∈ texts, size ≤ text.length)
    (member : mark ∈ endsFrom offset texts) : offset + size ≤ mark := by
  induction texts generalizing offset with
  | nil => cases member
  | cons text texts ih =>
      rw [List.forall_mem_cons] at long
      rcases List.mem_cons.mp member with rfl | later
      · omega
      · have further := ih long.2 later
        omega

theorem last_mem_endsFrom (offset : Nat) (nonempty : texts ≠ []) :
    offset + texts.flatten.length ∈ endsFrom offset texts := by
  induction texts generalizing offset with
  | nil => exact absurd rfl nonempty
  | cons text texts ih =>
      rw [List.flatten_cons, List.length_append, ← Nat.add_assoc, endsFrom]
      by_cases last : texts = []
      · simp [last]
      · exact List.mem_cons_of_mem _ (ih _ last)

theorem endsFrom_increasing (nonempty : ∀ text ∈ texts, text ≠ []) :
    (endsFrom offset texts).Pairwise (· < ·) := by
  induction texts generalizing offset with
  | nil => exact .nil
  | cons text texts ih =>
      rw [List.forall_mem_cons] at nonempty
      refine List.pairwise_cons.mpr ⟨fun mark later => ?_, ih nonempty.2⟩
      exact le_of_mem_endsFrom
        (fun other member => List.length_pos_iff.mpr (nonempty.2 other member)) later

/-! ## Empty lines -/

/-- Where the empty lines end that end a header. -/
def headerEnds (stream : Bytes) : List Nat :=
  (List.range (stream.length + 1)).filter fun mark => headerEnd <:+ stream.take mark

theorem occurs_ne_nil (front back : Bytes) : front ++ headerEnd ++ back ≠ [] := by
  intro empty
  have lengths := congrArg List.length empty
  simp [length_headerEnd] at lengths

theorem mem_headerEnds_iff {stream : Bytes} :
    mark ∈ headerEnds stream ↔
      ∃ front back, stream = front ++ headerEnd ++ back ∧
        front.length + headerEnd.length = mark := by
  rw [headerEnds, List.mem_filter, List.mem_range, decide_eq_true_iff, Nat.lt_succ_iff]
  constructor
  · rintro ⟨inside, front, ended⟩
    refine ⟨front, stream.drop mark, by rw [ended, List.take_append_drop], ?_⟩
    rw [← List.length_append, ended, List.length_take, Nat.min_eq_left inside]
  · rintro ⟨front, back, rfl, rfl⟩
    rw [← List.length_append, List.take_left]
    exact ⟨by simp, List.suffix_append front headerEnd⟩

/-- Some of the stream has been read, and forgotten up to a point: in the rest there is an empty
line exactly if one ends in what has been read and began after that point. -/
theorem shows_iff {start : Nat} {stream read unread : Bytes} (isRead : read ++ unread = stream) :
    headerEnd <:+: read.drop start ↔
      Marks.Shows headerEnd.length (headerEnds stream) start read.length := by
  constructor
  · rintro ⟨front, back, occurs⟩
    have inside : start ≤ read.length := by
      by_contra beyond
      rw [List.drop_eq_nil_of_le (Nat.le_of_not_le beyond)] at occurs
      exact occurs_ne_nil front back occurs
    have whole : read = (read.take start ++ front) ++ headerEnd ++ back := by
      conv_lhs => rw [← List.take_append_drop start read, ← occurs]
      simp
    have lengths := congrArg List.length whole
    simp only [List.length_append, List.length_take, Nat.min_eq_left inside] at lengths
    refine ⟨start + front.length + headerEnd.length, ?_, by omega, by omega⟩
    refine mem_headerEnds_iff.mpr ⟨read.take start ++ front, back ++ unread, ?_, ?_⟩
    · conv_lhs => rw [← isRead, whole]
      simp
    · rw [List.length_append, List.length_take, Nat.min_eq_left inside]
  · rintro ⟨mark, member, begins, ends⟩
    rcases mem_headerEnds_iff.mp member with ⟨front, back, occurs, rfl⟩
    have isPrefix : front ++ headerEnd <+: read := by
      apply List.prefix_of_prefix_length_le ⟨back, occurs.symm⟩ ⟨unread, isRead⟩
      rwa [List.length_append]
    rcases isPrefix with ⟨rest, rfl⟩
    have before : start ≤ front.length := by omega
    refine ⟨front.drop start, rest, ?_⟩
    rw [List.append_assoc, List.append_assoc, List.drop_append_of_le_length before]

namespace BodylessRequest

variable {request : BodylessRequest} {requests : List BodylessRequest} {front back : Bytes}

/-- The bytes of the requests. -/
def stream (requests : List BodylessRequest) : Bytes := (requests.map text).flatten

theorem stream_cons (request : BodylessRequest) (requests : List BodylessRequest) :
    stream (request :: requests) = request.text ++ stream requests := rfl

/-- The first empty line in the stream ends the first request. -/
theorem length_le_of_occurs
    (occurs : stream (request :: requests) = front ++ headerEnd ++ back) :
    request.text.length ≤ front.length + headerEnd.length := by
  by_contra short
  rw [← List.length_append, Nat.not_le] at short
  have isPrefix : front ++ headerEnd <+: request.text.dropLast := by
    refine List.prefix_of_prefix_length_le ⟨back, occurs.symm⟩ ?_ ?_
    · exact (List.dropLast_prefix _).trans (List.prefix_append _ _)
    · rw [List.length_dropLast]
      omega
  exact request.once ((List.suffix_append _ _).isInfix.trans isPrefix.isInfix)

/-- There are no more empty lines that do not overlap than there are requests. -/
theorem length_le_of_parted {marks cuts : List Nat}
    (ends : ∀ mark ∈ marks, ∃ front back, stream requests = front ++ headerEnd ++ back ∧
      offset + front.length + headerEnd.length = mark)
    (parted : marks.IsChain (Marks.Parted headerEnd.length cuts)) :
    marks.length ≤ requests.length := by
  induction requests generalizing offset marks with
  | nil =>
      cases marks with
      | nil => exact Nat.le_refl 0
      | cons mark marks =>
          rcases ends mark List.mem_cons_self with ⟨front, back, occurs, -⟩
          exact absurd occurs.symm (occurs_ne_nil front back)
  | cons request requests ih =>
      cases marks with
      | nil => exact Nat.zero_le _
      | cons mark marks =>
          -- The other marks lie behind the first request.
          refine Nat.succ_le_succ (@ih (offset + request.text.length) marks ?_ parted.tail)
          intro other member
          have behind := Marks.add_le_of_parted parted other member
          rcases ends mark List.mem_cons_self with ⟨front, back, occurs, rfl⟩
          rcases ends other (List.mem_cons_of_mem _ member) with ⟨before, after, split, rfl⟩
          have first := length_le_of_occurs occurs
          have isPrefix : request.text <+: before := by
            refine List.prefix_of_prefix_length_le (stream_cons request requests ▸
              List.prefix_append _ _) ?_ (by omega : request.text.length ≤ before.length)
            exact ⟨headerEnd ++ after, by rw [split, List.append_assoc]⟩
          rcases isPrefix with ⟨within, rfl⟩
          refine ⟨within, after, ?_, by rw [List.length_append, Nat.add_assoc offset]⟩
          rw [stream_cons, List.append_assoc, List.append_assoc] at split
          rw [List.append_cancel_left split, List.append_assoc]

end BodylessRequest

namespace Connection

variable {conn middle next last : Connection} {size count : Nat} {now : Nat} {data : Bytes}

/-! ## Reads and writes in turn -/

/-- Calls of `HandleWrite` that return, until nothing is left to be written. -/
inductive Writes : Connection → Connection → Prop where
  | done {conn : Connection} : conn.writeBuffer = [] → Writes conn conn
  | write {conn middle last : Connection} (write : SocketWrite) (epoll : EpollMod) :
      Handler.handleWrite write epoll conn = .returned ⟨⟩ middle → Writes middle last →
      Writes conn last

/-- The bytes come in these reads, each of which returns and is followed by writing what it has
enqueued; in all, `count` responses are enqueued. -/
inductive Serves : Connection → List Bytes → Nat → Connection → Prop where
  | nil (conn : Connection) : Serves conn [] 0 conn
  | cons {conn middle next last : Connection} {piece : Bytes} {pieces : List Bytes}
      {nonempty : piece ≠ []} {fits : piece.length ≤ 4096} {now count more : Nat}
      {epoll : EpollMod} :
      Handler.handleRead (.received piece nonempty fits) now epoll conn = .returned ⟨⟩ middle →
      middle.writeBuffer =
        conn.writeBuffer ++ (List.replicate count Handler.response).flatten →
      Writes middle next → Serves next pieces more last →
      Serves conn (piece :: pieces) (count + more) last

/-- A connection that waits for data with nothing to write. -/
structure Waiting (conn : Connection) (size : Nat) : Prop where
  unlocked : conn.Unlocked
  reads : conn.Reads
  nothingToWrite : conn.writeBuffer = []
  maxBufferSize : conn.maxBufferSize = size

/-- A connection that waits as soon as nothing is left to be written. -/
structure Writing (conn : Connection) (size : Nat) : Prop where
  unlocked : conn.Unlocked
  isOpen : conn.IsOpen
  reads : conn.writeBuffer = [] → conn.Reads
  maxBufferSize : conn.maxBufferSize = size

theorem Waiting.writing (waiting : conn.Waiting size) : conn.Writing size :=
  ⟨waiting.unlocked, waiting.reads.isOpen, fun _ => waiting.reads, waiting.maxBufferSize⟩

theorem Writing.handleWrite (writing : conn.Writing size) {write : SocketWrite}
    {epoll : EpollMod} (returns : Handler.handleWrite write epoll conn = .returned ⟨⟩ middle) :
    middle.Writing size ∧ middle.readBuffer = conn.readBuffer := by
  have ends := defaultHandleWrite_outcome writing.unlocked write epoll
  rw [show defaultHandleWrite write epoll conn = .returned ⟨⟩ middle from returns] at ends
  cases ends with
  | nothing | none | wouldBlock => exact ⟨writing, rfl⟩
  | part positive short =>
      have rest : (conn.sent _).writeBuffer ≠ [] :=
        mt List.drop_eq_nil_iff.mp (Nat.not_le.mpr short)
      exact ⟨⟨writing.unlocked, writing.isOpen, fun empty => absurd empty rest,
        writing.maxBufferSize⟩, rfl⟩
  | all =>
      exact ⟨⟨writing.unlocked, by simp [IsOpen, drained], fun _ => .inl rfl,
        writing.maxBufferSize⟩, rfl⟩
  | failedLate _ closed => exact absurd writing.isOpen closed

theorem Writes.waiting (writes : Writes conn last) (writing : conn.Writing size) :
    last.Waiting size ∧ last.readBuffer = conn.readBuffer := by
  induction writes with
  | done empty =>
      exact ⟨⟨writing.unlocked, writing.reads empty, empty, writing.maxBufferSize⟩, rfl⟩
  | write _ _ returns _ ih =>
      rcases writing.handleWrite returns with ⟨still, same⟩
      rcases ih still with ⟨waiting, sameLater⟩
      exact ⟨waiting, sameLater.trans same⟩

/-- Whatever is to be written can be written at once. -/
theorem exists_writes (writing : conn.Writing size) : ∃ last, Writes conn last := by
  by_cases empty : conn.writeBuffer = []
  · exact ⟨conn, .done empty⟩
  · obtain ⟨count, whole⟩ : ∃ count, conn.writeBuffer.length = count := ⟨_, rfl⟩
    have ends := defaultHandleWrite_outcome writing.unlocked (.accepted count) .done
    generalize outcome : defaultHandleWrite (.accepted count) .done conn = ended at ends
    cases ends with
    | nothing none => exact absurd none empty
    | none => exact absurd (List.length_eq_zero_iff.mp whole) empty
    | part _ short => exact absurd whole (Nat.ne_of_gt short)
    | all unwritten last => exact ⟨_, .write _ _ outcome (.done (List.drop_eq_nil_iff.mpr last))⟩

/-! ## How many responses there are -/

theorem responses_injective {first second : Nat}
    (same : (List.replicate first Handler.response).flatten =
      (List.replicate second Handler.response).flatten) : first = second := by
  have lengths := congrArg List.length same
  simp only [List.length_flatten, List.map_replicate, List.sum_replicate_nat] at lengths
  exact Nat.eq_of_mul_eq_mul_right (List.length_pos_iff.mpr response_ne_nil) lengths

variable {piece : Bytes} {pieces : List Bytes}

theorem Waiting.takesIn (waiting : conn.Waiting size)
    (room : conn.readBuffer.length + piece.length ≤ size) : conn.TakesIn piece := by
  rwa [TakesIn, waiting.maxBufferSize]

theorem Waiting.takesResponse_iff (waiting : conn.Waiting size) :
    conn.TakesResponse ↔ Handler.response.length ≤ size := by
  rw [TakesResponse, waiting.maxBufferSize, waiting.nothingToWrite, List.length_nil, Nat.zero_add]

theorem Waiting.received (waiting : conn.Waiting size) (piece : Bytes) (now : Nat) :
    (conn.received piece now).Waiting size :=
  ⟨waiting.unlocked, .inr rfl, waiting.nothingToWrite, waiting.maxBufferSize⟩

theorem Waiting.answered (waiting : conn.Waiting size) (piece : Bytes) (now : Nat) :
    (conn.answered piece now).Writing size := by
  refine ⟨waiting.unlocked, by simp [IsOpen, Connection.answered, wrote], fun empty => ?_,
    waiting.maxBufferSize⟩
  exact absurd (List.append_eq_nil_iff.mp empty).2 response_ne_nil

/-- What a read comes to that a waiting connection has room for. -/
theorem Serves.cons_cases (serves : Serves conn (piece :: pieces) count last)
    (waiting : conn.Waiting size) :
    (¬conn.Completes piece ∧
        ∃ next, next.Waiting size ∧ next.readBuffer = conn.readBuffer ++ piece ∧
          Serves next pieces count last) ∨
      conn.Completes piece ∧ Handler.response.length ≤ size ∧
        ∃ next more, next.Waiting size ∧ next.readBuffer = [] ∧ count = more + 1 ∧
          Serves next pieces more last := by
  cases serves with
  | @cons _ middle next _ _ _ nonempty fits now added more epoll returns enqueues writes rest =>
      have ends := handleRead_outcome waiting.unlocked (.received piece nonempty fits) now epoll
      rw [returns] at ends
      cases ends with
      | ignored notOpen => exact absurd waiting.reads.isOpen notOpen
      | refused _ notReads => exact absurd waiting.reads notReads
      | incomplete _ _ incomplete =>
          have none : added = 0 := by
            apply responses_injective
            exact (List.append_cancel_left ((List.append_nil _).trans enqueues)).symm
          rcases writes.waiting (waiting.received piece now).writing with ⟨still, same⟩
          rw [none, Nat.zero_add]
          exact .inl ⟨incomplete, next, still, same, rest⟩
      | answered _ _ completes takesResponse =>
          have one : added = 1 := by
            apply responses_injective
            rw [List.replicate_one, List.flatten_singleton]
            exact (List.append_cancel_left enqueues).symm
          rcases writes.waiting (waiting.answered piece now) with ⟨still, same⟩
          rw [one, Nat.add_comm]
          exact .inr ⟨completes, waiting.takesResponse_iff.mp takesResponse, next, more, still,
            same, rfl, rest⟩

/-- A read that does not complete a request is kept. -/
theorem Waiting.exists_incomplete (waiting : conn.Waiting size) (nonempty : piece ≠ [])
    (fits : piece.length ≤ 4096) (room : conn.readBuffer.length + piece.length ≤ size)
    (incomplete : ¬conn.Completes piece) :
    ∃ next, next.Waiting size ∧ next.readBuffer = conn.readBuffer ++ piece ∧
      ∀ pieces more last, Serves next pieces more last →
        Serves conn (piece :: pieces) more last := by
  have ends := handleRead_outcome waiting.unlocked (.received piece nonempty fits) 0 .done
  generalize outcome : Handler.handleRead (.received piece nonempty fits) 0 .done conn = ended
    at ends
  cases ends with
  | ignored notOpen => exact absurd waiting.reads.isOpen notOpen
  | refused _ notReads => exact absurd waiting.reads notReads
  | overflow _ full => exact absurd (waiting.takesIn room) full
  | answered _ _ completes _ => exact absurd completes incomplete
  | noRoom _ _ completes _ => exact absurd completes incomplete
  | incomplete _ _ _ =>
      refine ⟨_, waiting.received piece 0, rfl, fun pieces more last rest => ?_⟩
      have enqueues : (conn.received piece 0).writeBuffer =
          conn.writeBuffer ++ (List.replicate 0 Handler.response).flatten :=
        (List.append_nil _).symm
      have serves := Serves.cons outcome enqueues (.done waiting.nothingToWrite) rest
      rwa [Nat.zero_add] at serves

/-- A read that completes a request is answered, and nothing is kept. -/
theorem Waiting.exists_answered (waiting : conn.Waiting size) (nonempty : piece ≠ [])
    (fits : piece.length ≤ 4096) (room : conn.readBuffer.length + piece.length ≤ size)
    (completes : conn.Completes piece) (response : Handler.response.length ≤ size) :
    ∃ next, next.Waiting size ∧ next.readBuffer = [] ∧
      ∀ pieces more last, Serves next pieces more last →
        Serves conn (piece :: pieces) (more + 1) last := by
  have ends := handleRead_outcome waiting.unlocked (.received piece nonempty fits) 0 .done
  generalize outcome : Handler.handleRead (.received piece nonempty fits) 0 .done conn = ended
    at ends
  cases ends with
  | ignored notOpen => exact absurd waiting.reads.isOpen notOpen
  | refused _ notReads => exact absurd waiting.reads notReads
  | overflow _ full => exact absurd (waiting.takesIn room) full
  | incomplete _ _ incomplete => exact absurd completes incomplete
  | noRoom _ _ _ full => exact absurd (waiting.takesResponse_iff.mpr response) full
  | answered _ _ _ _ =>
      rcases exists_writes (waiting.answered piece 0) with ⟨next, writes⟩
      rcases writes.waiting (waiting.answered piece 0) with ⟨still, same⟩
      refine ⟨next, still, same, fun pieces more last rest => ?_⟩
      have enqueues : (conn.answered piece 0).writeBuffer =
          conn.writeBuffer ++ (List.replicate 1 Handler.response).flatten := by
        rw [List.replicate_one, List.flatten_singleton]
        rfl
      have serves := Serves.cons outcome enqueues writes rest
      rwa [Nat.add_comm] at serves

variable {stream : Bytes}

/-- The next read brings the end of an empty line that began after what has been forgotten. -/
theorem completes_iff_shows {read unread : Bytes} {start : Nat} (inside : start ≤ read.length)
    (kept : conn.readBuffer = read.drop start) (whole : read ++ piece ++ unread = stream) :
    conn.Completes piece ↔
      Marks.Shows headerEnd.length (headerEnds stream) start (read ++ piece).length := by
  rw [← shows_iff whole, List.drop_append_of_le_length inside, ← kept]
  rfl

/-- Reads of a stream, of which a part has been read and forgotten up to a point, enqueue a
response for each read that brings the end of an empty line which began after that. -/
theorem serves_iff (count : Nat) {read : Bytes} {start : Nat} (fits : stream.length ≤ size)
    (small : ∀ piece ∈ pieces, piece ≠ [] ∧ piece.length ≤ 4096)
    (waiting : conn.Waiting size) (inside : start ≤ read.length)
    (kept : conn.readBuffer = read.drop start) (whole : read ++ pieces.flatten = stream) :
    (∃ last, Serves conn pieces count last) ↔
      count = Marks.found headerEnd.length (headerEnds stream) start
          (endsFrom read.length pieces) ∧
        (count = 0 ∨ Handler.response.length ≤ size) := by
  induction pieces generalizing conn read start count with
  | nil =>
      constructor
      · rintro ⟨last, serves⟩
        cases serves
        exact ⟨rfl, .inl rfl⟩
      · rintro ⟨rfl, -⟩
        exact ⟨conn, .nil conn⟩
  | cons piece pieces ih =>
      rw [List.forall_mem_cons] at small
      rcases small with ⟨⟨nonempty, short⟩, small⟩
      rw [List.flatten_cons, ← List.append_assoc] at whole
      have room : conn.readBuffer.length + piece.length ≤ size := by
        have lengths := congrArg List.length whole
        simp only [List.length_append] at lengths
        rw [kept, List.length_drop]
        omega
      have shown := completes_iff_shows inside kept whole
      rw [endsFrom, ← List.length_append]
      by_cases completes : conn.Completes piece
      case neg =>
        rw [Marks.found_cons_of_not_shows (mt shown.mpr completes)]
        have follow {next : Connection} (still : next.Waiting size)
            (same : next.readBuffer = conn.readBuffer ++ piece) :=
          @ih next count (read ++ piece) start small still (by simp; omega)
            (by rw [same, kept, List.drop_append_of_le_length inside]) whole
        constructor
        · rintro ⟨last, serves⟩
          rcases serves.cons_cases waiting with ⟨-, next, still, same, rest⟩ | ⟨other, -⟩
          · exact (follow still same).mp ⟨last, rest⟩
          · exact absurd other completes
        · intro counted
          rcases waiting.exists_incomplete nonempty short room completes with
            ⟨next, still, same, serves⟩
          rcases (follow still same).mpr counted with ⟨last, rest⟩
          exact ⟨last, serves _ _ _ rest⟩
      case pos =>
        rw [Marks.found_cons_of_shows (shown.mp completes)]
        have follow {next : Connection} {more : Nat} (still : next.Waiting size)
            (forgotten : next.readBuffer = []) :=
          @ih next more (read ++ piece) (read ++ piece).length small still le_rfl
            (by rw [forgotten, List.drop_length]) whole
        constructor
        · rintro ⟨last, serves⟩
          rcases serves.cons_cases waiting with
            ⟨other, -⟩ | ⟨-, response, next, more, still, forgotten, rfl, rest⟩
          · exact absurd completes other
          · exact ⟨congrArg (· + 1) ((follow still forgotten).mp ⟨last, rest⟩).1, .inr response⟩
        · rintro ⟨rfl, none | response⟩
          · cases none
          · rcases waiting.exists_answered nonempty short room completes response with
              ⟨next, still, forgotten, serves⟩
            rcases (follow still forgotten).mpr ⟨rfl, .inr response⟩ with ⟨last, rest⟩
            exact ⟨last, serves _ _ _ rest⟩

/-- A read comes after the end of each empty line, if all are read. -/
theorem exists_read_after (whole : pieces.flatten = stream) {mark : Nat}
    (member : mark ∈ headerEnds stream) : ∃ cut ∈ endsFrom 0 pieces, mark ≤ cut := by
  rcases mem_headerEnds_iff.mp member with ⟨front, back, rfl, rfl⟩
  refine ⟨0 + pieces.flatten.length, last_mem_endsFrom 0 ?_, ?_⟩
  · rintro rfl
    exact absurd whole.symm (occurs_ne_nil front back)
  · rw [whole]
    simp

/-- The requests are sent in these reads, and every run of reads enqueues a response for each. -/
def AnswersEach (conn : Connection) (requests : List BodylessRequest) (pieces : List Bytes) :
    Prop :=
  (∃ count last, Serves conn pieces count last) ∧
    ∀ count last, Serves conn pieces count last → count = requests.length

/-- **One response for each request** is enqueued exactly if a response fits into the buffer, and
there are as many empty lines as requests of which each is parted from the next one by the end of
a read. -/
theorem answersEach_iff {requests : List BodylessRequest} (waiting : conn.Waiting size)
    (nothingRead : conn.readBuffer = [])
    (fits : (BodylessRequest.stream requests).length ≤ size)
    (small : ∀ piece ∈ pieces, piece ≠ [] ∧ piece.length ≤ 4096)
    (whole : pieces.flatten = BodylessRequest.stream requests) :
    conn.AnswersEach requests pieces ↔
      (requests = [] ∨ Handler.response.length ≤ size) ∧
        ∃ marks : List Nat, marks.length = requests.length ∧
          (∀ mark ∈ marks, mark ∈ headerEnds (BodylessRequest.stream requests)) ∧
          marks.IsChain (Marks.Parted headerEnd.length (endsFrom 0 pieces)) := by
  have served (count : Nat) := serves_iff count fits small waiting
    (Nat.le_refl ([] : Bytes).length) nothingRead whole
  have bounded (marks : List Nat)
      (members : ∀ mark ∈ marks, mark ∈ headerEnds (BodylessRequest.stream requests))
      (parted : marks.IsChain (Marks.Parted headerEnd.length (endsFrom 0 pieces))) :
      marks.length ≤ requests.length := by
    refine @BodylessRequest.length_le_of_parted 0 _ _ _ (fun mark member => ?_) parted
    simpa only [Nat.zero_add] using mem_headerEnds_iff.mp (members mark member)
  have ahead : ∀ mark ∈ headerEnds (BodylessRequest.stream requests),
      0 + headerEnd.length ≤ mark := by
    intro mark member
    rcases mem_headerEnds_iff.mp member with ⟨front, back, -, rfl⟩
    omega
  have seen := Marks.found_eq_iff (by decide : 0 < headerEnd.length)
    ((endsFrom_increasing fun piece member => (small piece member).1).imp Nat.le_of_lt)
    ahead (fun _ => exists_read_after whole) bounded
  rw [← seen]
  constructor
  · rintro ⟨⟨count, last, serves⟩, each⟩
    rcases (served count).mp ⟨last, serves⟩ with ⟨counted, room⟩
    have all : count = requests.length := each count last serves
    refine ⟨room.imp_left fun none => ?_, counted.symm.trans all⟩
    exact List.length_eq_zero_iff.mp (all.symm.trans none)
  · rintro ⟨room, all⟩
    constructor
    · have room' := room.imp_left List.length_eq_zero_iff.mpr
      exact ⟨requests.length, (served _).mpr ⟨all.symm, room'⟩⟩
    · exact fun count last serves => ((served count).mp ⟨last, serves⟩).1.trans all

/-- A request for the root. -/
def getRoot : BodylessRequest where
  text := bytes "GET / HTTP/1.1\r\n\r\n"
  ends := by decide
  once := by decide

theorem waiting_served : served.Waiting 1048576 := ⟨rfl, .inl rfl, rfl, rfl⟩

/-- Two of them, the second of which comes in two reads. -/
theorem answersEach_iff_parted :
    served.AnswersEach [getRoot, getRoot]
        [getRoot.text, getRoot.text.take 5, getRoot.text.drop 5] ↔
      ([getRoot, getRoot] = [] ∨ Handler.response.length ≤ 1048576) ∧
        ∃ marks : List Nat, marks.length = [getRoot, getRoot].length ∧
          (∀ mark ∈ marks, mark ∈ headerEnds (BodylessRequest.stream [getRoot, getRoot])) ∧
          marks.IsChain (Marks.Parted headerEnd.length
            (endsFrom 0 [getRoot.text, getRoot.text.take 5, getRoot.text.drop 5])) :=
  answersEach_iff waiting_served rfl (by decide) (by decide) (by decide)

/-- Two of them in one read get one response. -/
theorem not_answersEach_together :
    served.Waiting 1048576 ∧ served.readBuffer = [] ∧
      (BodylessRequest.stream [getRoot, getRoot]).length ≤ 1048576 ∧
      (∀ piece ∈ [BodylessRequest.stream [getRoot, getRoot]],
        piece ≠ [] ∧ piece.length ≤ 4096) ∧
      ¬served.AnswersEach [getRoot, getRoot] [BodylessRequest.stream [getRoot, getRoot]] := by
  have small : ∀ piece ∈ [BodylessRequest.stream [getRoot, getRoot]],
      piece ≠ [] ∧ piece.length ≤ 4096 := by decide
  refine ⟨waiting_served, rfl, by decide, small, ?_⟩
  have one := serves_iff 1 (by decide) small waiting_served
    (Nat.le_refl ([] : Bytes).length) rfl
    (show [] ++ _ = BodylessRequest.stream [getRoot, getRoot] by decide)
  rcases one.mpr ⟨by decide, .inr (by decide +kernel)⟩ with ⟨last, serves⟩
  intro each
  exact absurd (each.2 1 last serves) (by decide)

end Connection

end PPServer.Net
