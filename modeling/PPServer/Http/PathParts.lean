import PPServer.Http.RequestLine

/-!
# The parts of the path

`GetBasePath`, `GetFilename` and `GetExtension` divide the path at its last `/` and its last `.`.
The parser leaves the query of the target in the path, where it becomes a part of the filename, or
takes its place.
-/

namespace PPServer.Http

open Separator

/-- `/`. -/
abbrev slash : Byte := 47

/-- `.`. -/
abbrev dot : Byte := 46

namespace HttpRequest

def getBasePath (request : HttpRequest) : Bytes :=
  match findLast slash request.path with
  | some pos => substr request.path 0 (pos + 1)
  | none => bytes "/"

/-- `GetExtension`; `npos` is the greatest position, so a path without a slash has none after its
dot. -/
def getExtension (request : HttpRequest) : Bytes :=
  match findLast dot request.path, findLast slash request.path with
  | some dotPos, some slashPos =>
      if slashPos < dotPos then request.path.drop (dotPos + 1) else []
  | some dotPos, none => request.path.drop (dotPos + 1)
  | none, _ => []

def getFilename (request : HttpRequest) : Bytes :=
  match findLast slash request.path with
  | some slashPos => request.path.drop (slashPos + 1)
  | none => request.path

variable {request : HttpRequest} {dir name ext front back : Bytes}

/-! ## Where the path is divided -/

theorem parts_of_slash (path : request.path = front ++ slash :: back) (absent : slash ∉ back) :
    request.getBasePath = front ++ [slash] ∧ request.getFilename = back := by
  simp only [getBasePath, getFilename, path, findLast_append_cons absent]
  constructor
  · rw [substr, List.drop_zero, List.take_length_add_append]
    rfl
  · rw [← List.drop_drop, List.drop_left]
    rfl

theorem parts_of_notMem (absent : slash ∉ request.path) :
    request.getBasePath = [slash] ∧ request.getFilename = request.path := by
  simp only [getBasePath, getFilename, findLast_of_notMem absent]
  exact ⟨by decide, trivial⟩

theorem getFilename_eq (request : HttpRequest) :
    request.getFilename = afterLast slash request.path := by
  by_cases member : slash ∈ request.path
  · rcases eq_append_cons_of_mem_last member with ⟨front, back, path, absent⟩
    rw [(parts_of_slash path absent).2, path, afterLast_append_cons absent]
  · rw [(parts_of_notMem member).2, afterLast_of_notMem member]

theorem findLast_dot_eq (path : request.path = front ++ back) (absent : dot ∉ back) :
    findLast dot request.path = findLast dot front := by
  by_cases member : dot ∈ front
  · rcases eq_append_cons_of_mem_last member with ⟨start, tail, rfl, absentTail⟩
    rw [path, List.append_assoc, List.cons_append, findLast_append_cons absentTail,
      findLast_append_cons (by simp [absentTail, absent])]
  · rw [path, findLast_of_notMem member, findLast_of_notMem (by simp [member, absent])]

theorem drop_length_succ (front : Bytes) (separator : Byte) (back : Bytes) :
    (front ++ separator :: back).drop (front.length + 1) = back := by
  rw [← List.drop_drop, List.drop_left]
  rfl

/-- A dot in a directory is no part of the extension. -/
theorem getExtension_of_dotless (path : request.path = front ++ slash :: back)
    (absent : slash ∉ back) (dotless : dot ∉ back) : request.getExtension = [] := by
  have rest : dot ∉ slash :: back := by
    rw [List.mem_cons, not_or]
    exact ⟨by decide, dotless⟩
  rw [getExtension, findLast_dot_eq path rest, path, findLast_append_cons absent]
  by_cases member : dot ∈ front
  · rcases eq_append_cons_of_mem_last member with ⟨start, tail, rfl, absentTail⟩
    rw [findLast_append_cons absentTail]
    exact if_neg (by simp)
  · rw [findLast_of_notMem member]

theorem getExtension_of_dot (name : request.getFilename = front ++ dot :: back)
    (absent : dot ∉ back) : request.getExtension = back := by
  by_cases member : slash ∈ request.path
  · rcases eq_append_cons_of_mem_last member with ⟨start, tail, path, absentTail⟩
    rw [(parts_of_slash path absentTail).2] at name
    have whole : request.path = (start ++ slash :: front) ++ dot :: back := by
      rw [path, name]
      simp
    simp only [getExtension]
    rw [show findLast slash request.path = some start.length from
        path ▸ findLast_append_cons absentTail, whole, findLast_append_cons absent]
    simp only [drop_length_succ]
    exact if_pos (by simp)
  · rw [(parts_of_notMem member).2] at name
    rw [getExtension, findLast_of_notMem member, name, findLast_append_cons absent]
    exact drop_length_succ front dot back

/-- The extension is that of the filename. -/
theorem getExtension_eq (request : HttpRequest) :
    request.getExtension =
      if dot ∈ request.getFilename then afterLast dot request.getFilename else [] := by
  split
  next member =>
      rcases eq_append_cons_of_mem_last member with ⟨stem, ext, name, absent⟩
      rw [getExtension_of_dot name absent, name, afterLast_append_cons absent]
  next dotless =>
      by_cases member : slash ∈ request.path
      · rcases eq_append_cons_of_mem_last member with ⟨front, back, path, absent⟩
        rw [(parts_of_slash path absent).2] at dotless
        exact getExtension_of_dotless path absent dotless
      · rw [(parts_of_notMem member).2] at dotless
        rw [getExtension, findLast_of_notMem dotless]

/-! ## What the parts are -/

/-- The path is a directory and a filename, and the filename a stem and an extension. -/
structure IsDivided (path dir name ext : Bytes) : Prop where
  slashless : slash ∉ name
  /-- Without a slash the path is a file in the root directory. -/
  path : path = dir ++ name ∧ dir.getLast? = some slash ∨ path = name ∧ dir = [slash]
  name : (∃ stem, name = stem ++ dot :: ext ∧ dot ∉ ext) ∨ dot ∉ name ∧ ext = []

theorem isDivided_parts (request : HttpRequest) :
    IsDivided request.path request.getBasePath request.getFilename request.getExtension where
  slashless := by
    rw [getFilename_eq]
    exact notMem_afterLast slash request.path
  path := by
    by_cases member : slash ∈ request.path
    · rcases eq_append_cons_of_mem_last member with ⟨front, back, path, absent⟩
      rcases parts_of_slash path absent with ⟨base, name⟩
      rw [base, name, path]
      exact .inl ⟨by simp, List.getLast?_concat⟩
    · exact .inr ⟨(parts_of_notMem member).2.symm, (parts_of_notMem member).1⟩
  name := by
    rw [getExtension_eq]
    split
    next member =>
        rcases eq_append_cons_of_mem_last member with ⟨stem, ext, name, absent⟩
        rw [name, afterLast_append_cons absent]
        exact .inl ⟨stem, rfl, absent⟩
    next dotless => exact .inr ⟨dotless, rfl⟩

/-- **The parts of the path.**  They are the only way to divide it into a directory, a filename
without a slash and the extension of the filename. -/
theorem parts_iff :
    (request.getBasePath = dir ∧ request.getFilename = name ∧ request.getExtension = ext) ↔
      IsDivided request.path dir name ext := by
  constructor
  · rintro ⟨rfl, rfl, rfl⟩
    exact request.isDivided_parts
  · intro divided
    have parts : request.getBasePath = dir ∧ request.getFilename = name := by
      rcases divided.path with ⟨path, isDir⟩ | ⟨path, rfl⟩
      · rcases List.getLast?_eq_some_iff.mp isDir with ⟨front, rfl⟩
        rw [List.append_assoc] at path
        exact parts_of_slash path divided.slashless
      · have absent : slash ∉ request.path := path ▸ divided.slashless
        exact ⟨(parts_of_notMem absent).1, (parts_of_notMem absent).2.trans path⟩
    refine ⟨parts.1, parts.2, ?_⟩
    rcases divided.name with ⟨stem, isName, absent⟩ | ⟨dotless, rfl⟩
    · exact getExtension_of_dot (parts.2.trans isName) absent
    · rw [getExtension_eq, parts.2, if_neg dotless]

/-- The path of a target with a query, query and all, has the filename of the path alone only if
the query ends in a path to a file of the same name. -/
theorem getFilename_of_target_iff {target : Bytes} (path : request.path = target) :
    request.getFilename = afterLast slash (before questionMark target) ↔
      questionMark ∉ target ∨ slash ∈ after questionMark target ∧
        afterLast slash (after questionMark target) =
          afterLast slash (before questionMark target) := by
  rw [getFilename_eq, path]
  by_cases member : questionMark ∈ target
  · rcases List.eq_append_cons_of_mem member with ⟨front, back, rfl, absent⟩
    rw [before_append_cons absent, after_append_cons absent, or_iff_right (not_not.mpr member)]
    by_cases inQuery : slash ∈ back
    · have isLast : afterLast slash (front ++ questionMark :: back) = afterLast slash back := by
        rw [List.append_cons, afterLast_append_of_mem inQuery]
      rw [isLast, and_iff_right inQuery]
    · have absentRest : slash ∉ questionMark :: back := by
        rw [List.mem_cons, not_or]
        exact ⟨by decide, inQuery⟩
      rw [afterLast_append_of_notMem absentRest]
      exact iff_of_false (by simp) fun both => inQuery both.1
  · rw [before_of_notMem member]
    exact iff_of_true rfl (.inl member)

end HttpRequest

namespace HttpParser

variable {start after : HttpParser} {pieces : List Bytes} {line rest target : Bytes}
variable {method : Method} {version : Version}

/-- **The filename of a request.**  However a request with an accepted request line is cut into
calls that return, `GetFilename` is the last segment of the path of the target exactly if the target
has no query, or the last segment of the query is the same. -/
theorem getFilename_of_feeds_iff (new : start.IsNew) (free : CRLFFree line)
    (accepted : requestLineOf line = some (method, target, version))
    (equal : pieces.flatten = line ++ crlf ++ rest) (feeds : Feeds start pieces after) :
    ∃ request, after.request = some request ∧
      (request.getFilename = afterLast slash (before questionMark target) ↔
        questionMark ∉ target ∨ slash ∈ Separator.after questionMark target ∧
          afterLast slash (Separator.after questionMark target) =
            afterLast slash (before questionMark target)) := by
  rcases new.spec with ⟨invariant, settled, view⟩
  rcases feeds.view invariant settled with ⟨-, afterSettled, afterView⟩
  have parts := (Reader.foldl_feed_requestLine free accepted (by simpa using equal)).2
  rw [← view, ← afterView, view_request afterSettled] at parts
  rcases Option.map_eq_some_iff.mp parts with ⟨request, present, bare⟩
  have path : request.path = target := congrArg HttpRequest.path bare
  exact ⟨request, present, HttpRequest.getFilename_of_target_iff path⟩

/-- A page that is asked for with a query about a file. -/
def queryPieces : List Bytes :=
  [bytes "GET /docs/show.php?file=a/b.txt HTTP/1.1\r\n", bytes "\r\n"]

theorem getFilename_of_feeds_iff_queryPieces :
    ∃ after request, Feeds {} queryPieces after ∧ after.request = some request ∧
      request.getFilename ≠ bytes "show.php" := by
  have returned : (feedAll 4 {} queryPieces).isSome := by decide
  have accepted : requestLineOf (bytes "GET /docs/show.php?file=a/b.txt HTTP/1.1") =
      some (.get, bytes "/docs/show.php?file=a/b.txt", .http11) := by decide
  have equal : queryPieces.flatten =
      bytes "GET /docs/show.php?file=a/b.txt HTTP/1.1" ++ crlf ++ bytes "\r\n" := by decide
  rcases getFilename_of_feeds_iff (.inl rfl) (by decide) accepted equal (feeds_get 4 returned) with
    ⟨request, present, named⟩
  have name : afterLast slash (before questionMark (bytes "/docs/show.php?file=a/b.txt")) =
      bytes "show.php" := by decide
  rw [name] at named
  exact ⟨_, request, feeds_get 4 returned, present, fun same => absurd (named.mp same) (by decide)⟩

end HttpParser

end PPServer.Http
