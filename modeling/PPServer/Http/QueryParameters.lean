import PPServer.Http.Request
import PPServer.Library.FiniteMap
import PPServer.Library.Loop
import PPServer.Library.Separator
import PPServer.Library.Transition

/-!
# The query parameters of a request

`ParseQueryString` goes through the query with absolute positions, found by two independent
searches.  `parametersOf` says what it is for: the segments between the `&`, each read as a key and
a value.  `ParseQueryParameters` keeps its result in `query_params_` and guards it with
`query_parsed_`, but does nothing at all for an empty query.
-/

namespace PPServer.Http

open FiniteMap Loop Separator

/-- `&`. -/
abbrev ampersand : Byte := 38

/-- `=`. -/
abbrev equalsSign : Byte := 61

/-! ## What a query says -/

/-- The key and the value of a segment, which is ignored if it has no `=`. -/
def parameterOf (segment : Bytes) : Option (Bytes × Bytes) :=
  if equalsSign ∈ segment then
    some (before equalsSign segment, after equalsSign segment)
  else none

/-- The parameters written in a query, in their order. -/
def queryFields (query : Bytes) : List (Bytes × Bytes) :=
  (query.splitOn ampersand).filterMap parameterOf

/-- The map of these parameters: a later one takes the place of an earlier one with its key. -/
def parametersOf (query : Bytes) : StringMap :=
  (queryFields query).foldl (fun params field => params.insert field.1 field.2) ∅

/-- A key has the value of its last occurrence in the query. -/
theorem lookup_parametersOf (query key : Bytes) :
    (parametersOf query).lookup key =
      (((queryFields query).filter fun field => field.1 = key).map Prod.snd).getLast? := by
  rw [parametersOf, lookup_foldl_insert, Finmap.lookup_empty, Option.or_none]

/-- The map with the parameter of one more segment. -/
def withSegment (params : StringMap) (segment : Bytes) : StringMap :=
  match parameterOf segment with
  | some field => params.insert field.1 field.2
  | none => params

theorem parametersOf_eq (query : Bytes) :
    parametersOf query = (query.splitOn ampersand).foldl withSegment ∅ := by
  rw [parametersOf, queryFields, List.foldl_filterMap]
  congr 1
  funext params segment
  rw [withSegment]
  cases parameterOf segment <;> rfl

@[simp] theorem parametersOf_nil : parametersOf [] = ∅ := by
  rw [parametersOf_eq, List.splitOn_nil]
  rfl

/-! ## The loop of `ParseQueryString` -/

/-- `text.substr(pos, count)`. -/
def substr (text : Bytes) (pos count : Nat) : Bytes := (text.drop pos).take count

/-- The locals of `ParseQueryString` between two passes of its loop, and `query_params_`. -/
structure QueryLoop where
  start : Nat
  params : StringMap

/-- One pass of the loop. -/
def queryPass (query : Bytes) (loop : QueryLoop) : Pass QueryLoop StringMap :=
  if loop.start < query.length then
    let stop := (findFrom ampersand query loop.start).getD query.length
    let params :=
      match findFrom equalsSign query loop.start with
      | none => loop.params
      | some equalPos =>
          if equalPos < stop then
            loop.params.insert (substr query loop.start (equalPos - loop.start))
              (substr query (equalPos + 1) (stop - equalPos - 1))
          else loop.params
    .again ⟨stop + 1, params⟩
  else .leave loop.params

variable {query segment more : Bytes} {start : Nat}

theorem substr_of_drop (split : query.drop start = segment ++ more) :
    substr query start segment.length = segment := by
  rw [substr, split, List.take_left]

/-- The search for `=` runs past the end of the segment; what it finds there does not count. -/
theorem withSegment_eq (split : query.drop start = segment ++ more) (params : StringMap) :
    (match findFrom equalsSign query start with
      | none => params
      | some equalPos =>
          if equalPos < start + segment.length then
            params.insert (substr query start (equalPos - start))
              (substr query (equalPos + 1) (start + segment.length - equalPos - 1))
          else params) =
      withSegment params segment := by
  rw [findFrom_eq, withSegment, parameterOf, split]
  by_cases inSegment : equalsSign ∈ segment
  · rcases List.eq_append_cons_of_mem inSegment with ⟨key, value, rfl, absent⟩
    have atValue : query.drop (start + key.length + 1) = value ++ more := by
      rw [Nat.add_assoc, ← List.drop_drop, split, ← List.drop_drop]
      simp
    have valueLength : start + (key ++ equalsSign :: value).length - (start + key.length) - 1 =
        value.length := by
      rw [List.length_append, List.length_cons]
      omega
    have atKey : query.drop start = key ++ equalsSign :: (value ++ more) := by
      rw [split]
      simp
    have found : equalsSign ∈ (key ++ equalsSign :: value) ++ more := by simp
    simp only [if_pos found, if_pos inSegment, before_append_of_mem inSegment,
      before_append_cons absent, after_append_cons absent, valueLength, Nat.add_sub_cancel_left,
      substr_of_drop atKey, substr_of_drop atValue]
    exact if_pos (by simp)
  · simp only [if_neg inSegment]
    split
    next => rfl
    next equalPos found =>
        rcases Option.ite_none_right_eq_some.mp found with ⟨-, position⟩
        cases position
        -- The first `=` is not before the end of the segment, or it would be in it.
        rw [before_append_of_notMem inSegment, List.length_append]
        exact if_neg (by omega)

/-- `find('&', start)`, or the length of the query, is where the segment ends. -/
theorem segmentEnd_eq (inside : start < query.length) :
    (findFrom ampersand query start).getD query.length =
      start + (before ampersand (query.drop start)).length := by
  rw [findFrom_eq]
  split
  next => rfl
  next absent =>
      rw [before_of_notMem absent, List.length_drop, Option.getD_none]
      omega

/-- A pass reads the segment that starts there. -/
theorem queryPass_of_unread (inside : start < query.length) (params : StringMap) :
    queryPass query ⟨start, params⟩ =
      .again ⟨start + (before ampersand (query.drop start)).length + 1,
        withSegment params (before ampersand (query.drop start))⟩ := by
  rcases isPrefix_before ampersand (query.drop start) with ⟨more, split⟩
  rw [← withSegment_eq split.symm params]
  simp only [queryPass, if_pos inside, segmentEnd_eq inside]

theorem queryPass_decreases (query : Bytes) :
    Decreases (queryPass query) fun loop => query.length - loop.start := by
  intro loop next step
  by_cases inside : loop.start < query.length
  · rw [queryPass_of_unread inside] at step
    cases step
    dsimp only
    omega
  · rw [queryPass, if_neg inside] at step
    cases step

/-- From any position the loop reads the segments of the rest of the query. -/
theorem total_queryPass (query : Bytes) (loop : QueryLoop) :
    total (queryPass query) _ (queryPass_decreases query) loop =
      ((query.drop loop.start).splitOn ampersand).foldl withSegment loop.params := by
  refine total_induction (queryPass_decreases query)
    (fun loop params =>
      params = ((query.drop loop.start).splitOn ampersand).foldl withSegment loop.params) ?_ ?_ loop
  · intro loop params leaves
    simp only [queryPass] at leaves
    split at leaves
    next => cases leaves
    next past =>
        cases leaves
        rw [List.drop_eq_nil_of_le (Nat.le_of_not_lt past), List.splitOn_nil]
        rfl
  · intro loop next params step carried
    by_cases inside : loop.start < query.length
    · rw [queryPass_of_unread inside] at step
      cases step
      rw [carried, foldl_splitOn (fun _ => rfl) ampersand (query.drop loop.start),
        ← drop_length_before, List.drop_drop]
      rfl
    · rw [queryPass, if_neg inside] at step
      cases step

namespace HttpRequest

/-! ## The members of the request -/

def setQueryString (request : HttpRequest) (query : Bytes) : HttpRequest :=
  { request with queryString := query, queryParsed := false }

/-- `ParseQueryString`, which adds to the parameters that are there. -/
def parseQueryString (request : HttpRequest) (query : Bytes) : HttpRequest :=
  { request with
    queryParams :=
      total (queryPass query) _ (queryPass_decreases query) ⟨0, request.queryParams⟩ }

def parseQueryParameters (request : HttpRequest) : HttpRequest :=
  if request.queryParsed || request.queryString = [] then request
  else
    let request := { request with queryParams := ∅ }
    { request.parseQueryString request.queryString with queryParsed := true }

def addQueryParameter (request : HttpRequest) (key value : Bytes) : HttpRequest :=
  { request with queryParams := request.queryParams.insert key value }

def getQueryParameter (request : HttpRequest) (key : Bytes) : Bytes :=
  (request.queryParams.lookup key).getD []

def hasQueryParameter (request : HttpRequest) (key : Bytes) : Bool :=
  key ∈ request.queryParams

variable {request next : HttpRequest}

theorem total_queryPass_empty (query : Bytes) :
    total (queryPass query) _ (queryPass_decreases query) ⟨0, ∅⟩ = parametersOf query := by
  rw [total_queryPass, parametersOf_eq]
  rfl

theorem parseQueryString_of_empty (empty : request.queryParams = ∅) (query : Bytes) :
    request.parseQueryString query = { request with queryParams := parametersOf query } := by
  rw [parseQueryString, empty, total_queryPass_empty]

/-- **`ParseQueryString` splits as specified.**  On an empty map its loop comes to an end with
exactly the parameters written in the query. -/
theorem parseQueryString_eq (request : HttpRequest) (empty : request.queryParams = ∅)
    (query : Bytes) :
    Returns (queryPass query) ⟨0, request.queryParams⟩ (parametersOf query) ∧
      request.parseQueryString query = { request with queryParams := parametersOf query } := by
  constructor
  · rw [empty, ← total_queryPass_empty]
    exact returns_total (queryPass_decreases query) _
  · exact parseQueryString_of_empty empty query

/-- Segments without `=`, an `=` only in a later segment, several `=`, an empty key, a repeated key
and a last `&`. -/
theorem parseQueryString_segments :
    Returns (queryPass (bytes "flag&a=1&&b=x=y&=z&a=2&")) ⟨0, ({} : HttpRequest).queryParams⟩
        (parametersOf (bytes "flag&a=1&&b=x=y&=z&a=2&")) ∧
      ({} : HttpRequest).parseQueryString (bytes "flag&a=1&&b=x=y&=z&a=2&") =
        { queryParams := parametersOf (bytes "flag&a=1&&b=x=y&=z&a=2&") } :=
  parseQueryString_eq {} rfl _

/-! ## The cache -/

theorem parseQueryParameters_of_empty (empty : request.queryString = []) :
    request.parseQueryParameters = request := by
  simp [parseQueryParameters, empty]

theorem queryParams_of_unparsed (unparsed : request.queryParsed = false)
    (nonempty : request.queryString ≠ []) :
    request.parseQueryParameters.queryParams = parametersOf request.queryString := by
  have emptied : ({ request with queryParams := ∅ } : HttpRequest).queryParams = ∅ := rfl
  have parsed := parseQueryString_of_empty emptied request.queryString
  rw [parseQueryParameters, if_neg (by simp [unparsed, nonempty])]
  exact congrArg queryParams parsed

/-- What the parameters are after a new query has been set and parsed. -/
theorem queryParams_of_setQueryString (request : HttpRequest) (query : Bytes) :
    (request.setQueryString query).parseQueryParameters.queryParams =
      if query = [] then request.queryParams else parametersOf query := by
  split
  next empty => rw [parseQueryParameters_of_empty (show _ = [] from empty)]; rfl
  next nonempty => exact queryParams_of_unparsed rfl nonempty

/-- A parameter of a new query that is not empty is found by its key, with the value of its last
occurrence. -/
theorem getQueryParameter_of_setQueryString (request : HttpRequest) (nonempty : query ≠ [])
    (key : Bytes) :
    let request := (request.setQueryString query).parseQueryParameters
    let values := ((queryFields query).filter fun field => field.1 = key).map Prod.snd
    (request.hasQueryParameter key = true ↔ values ≠ []) ∧
      request.getQueryParameter key = values.getLast?.getD [] := by
  simp only [hasQueryParameter, getQueryParameter, decide_eq_true_eq, ← Finmap.lookup_isSome]
  rw [queryParams_of_setQueryString, if_neg nonempty, lookup_parametersOf]
  exact ⟨List.getLast?_isSome, rfl⟩

/-- Setting the query and parsing it gives the parameters it would give on a new request. -/
def Reflects (request : HttpRequest) (query : Bytes) : Prop :=
  (request.setQueryString query).parseQueryParameters.queryParams =
    (({} : HttpRequest).setQueryString query).parseQueryParameters.queryParams

theorem reflects_iff (request : HttpRequest) (query : Bytes) :
    request.Reflects query ↔ query ≠ [] ∨ request.queryParams = ∅ := by
  rw [Reflects, queryParams_of_setQueryString, queryParams_of_setQueryString]
  by_cases empty : query = []
  · simp [empty]
  · simp [empty]

inductive QueryAction where
  | setQueryString (query : Bytes)
  | setPath (path : Bytes)
  | addQueryParameter (key value : Bytes)
  | parseQueryParameters

def queryStep (request : HttpRequest) : QueryAction → Option HttpRequest
  | .setQueryString query => some (request.setQueryString query)
  | .setPath path => some (request.setPath path)
  | .addQueryParameter key value => some (request.addQueryParameter key value)
  | .parseQueryParameters => some request.parseQueryParameters

/-- **Whether the parameters reflect the query.**  After any sequence of operations, setting a
query and parsing it gives what it gives on a new request, exactly if the query is not empty or no
parameters were there. -/
theorem reflects_query_iff (actions : List QueryAction) :
    ∀ request, Transition.Visits queryStep {} actions request → ∀ query,
      (request.Reflects query ↔ query ≠ [] ∨ request.queryParams = ∅) :=
  fun request _ query => reflects_iff request query

/-- The parameters of the first query stay when the second one is empty. -/
def staleActions : List QueryAction :=
  [.setQueryString (bytes "a=1"), .parseQueryParameters]

theorem reflects_query_iff_stale :
    ∃ request, Transition.Visits queryStep {} staleActions request ∧
      (request.Reflects (bytes "b=2") ↔ bytes "b=2" ≠ [] ∨ request.queryParams = ∅) :=
  have visits := ⟨_, List.prefix_rfl, rfl⟩
  ⟨_, visits, reflects_query_iff staleActions _ visits (bytes "b=2")⟩

theorem not_reflects_empty_query :
    ∃ request, Transition.Visits queryStep {} staleActions request ∧ ¬request.Reflects [] ∧
      ((request.setQueryString []).parseQueryParameters).getQueryParameter (bytes "a") =
        bytes "1" := by
  refine ⟨_, ⟨_, List.prefix_rfl, rfl⟩, fun reflects => ?_, by decide⟩
  have same := congrArg (Finmap.lookup (bytes "a")) reflects
  exact absurd same (by decide)

end HttpRequest

end PPServer.Http
