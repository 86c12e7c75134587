import PPServer.Http.Request
import PPServer.Library.FiniteMap
import PPServer.Library.Transition

/-!
# The two header tables of a request

`headers_` keeps the names as they were given, `headers_lowercase_` finds them without regard to
letter case.  The second is to be an index of the first, and each of the four operations on
headers keeps it one, except where `RemoveHeader` takes away one of several spellings of a name:
it erases the entry that the other spellings share.
-/

namespace PPServer.Http.HttpRequest

open FiniteMap

variable {request next : HttpRequest}

/-! ## What the tables are for -/

/-- What `HasHeader` and `GetHeader` say is what is stored under some spelling of the name. -/
structure Coherent (request : HttpRequest) : Prop where
  hasHeader_iff : ∀ name,
    request.hasHeader name = true ↔ ∃ key ∈ request.headers, toLower key = toLower name
  getHeader : ∀ name, request.hasHeader name = true →
    ∃ key, request.headers.lookup key = some (request.getHeader name) ∧
      toLower key = toLower name

/-- Every key of the second table is in lower case. -/
def Lowered (request : HttpRequest) : Prop :=
  ∀ key ∈ request.headersLowercase, toLower key = key

theorem toLowerByte_idem (byte : Byte) : toLowerByte (toLowerByte byte) = toLowerByte byte := by
  simp only [toLowerByte]
  grind

@[simp] theorem toLower_toLower (text : Bytes) : toLower (toLower text) = toLower text := by
  simp [toLower, toLowerByte_idem]

theorem hasHeader_eq_true_iff (name : Bytes) :
    request.hasHeader name = true ↔ toLower name ∈ request.headersLowercase :=
  decide_eq_true_iff

/-- The tables are coherent exactly if the second is an index of the first. -/
theorem coherent_iff_indexes (lowered : request.Lowered) :
    request.Coherent ↔ Indexes toLower request.headers request.headersLowercase := by
  constructor
  · intro coherent
    constructor
    case backed =>
      intro folded value found
      have member : folded ∈ request.headersLowercase := Finmap.mem_iff.mpr ⟨value, found⟩
      have isLower := lowered folded member
      have has : request.hasHeader folded = true := by
        rwa [hasHeader_eq_true_iff, isLower]
      rcases coherent.getHeader folded has with ⟨key, stored, same⟩
      rw [getHeader, isLower, found, Option.getD_some] at stored
      exact ⟨key, stored, same.trans isLower⟩
    case covers =>
      intro key member
      exact (hasHeader_eq_true_iff key).mp ((coherent.hasHeader_iff key).mpr ⟨key, member, rfl⟩)
  · intro indexes
    have stores (name : Bytes) (has : request.hasHeader name = true) :
        ∃ key, request.headers.lookup key = some (request.getHeader name) ∧
          toLower key = toLower name := by
      rcases Finmap.mem_iff.mp ((hasHeader_eq_true_iff name).mp has) with ⟨value, found⟩
      rw [getHeader, found, Option.getD_some]
      exact indexes.backed _ value found
    refine ⟨fun name => ⟨fun has => ?_, fun spelled => ?_⟩, stores⟩
    · rcases stores name has with ⟨key, stored, same⟩
      exact ⟨key, Finmap.mem_iff.mpr ⟨_, stored⟩, same⟩
    · rcases spelled with ⟨key, member, same⟩
      rw [hasHeader_eq_true_iff, ← same]
      exact indexes.covers key member

theorem lowered_of_indexes (indexes : Indexes toLower request.headers request.headersLowercase) :
    request.Lowered := by
  intro key member
  rcases Finmap.mem_iff.mp member with ⟨value, found⟩
  rcases indexes.backed key value found with ⟨name, -, rfl⟩
  exact toLower_toLower name

/-! ## Sequences of operations -/

inductive HeaderAction where
  | addHeader (name value : Bytes)
  /-- `order` is the one in which the new `headers_` is visited. -/
  | setHeaders (headers : StringMap) (order : List (Σ _ : Bytes, Bytes))
  | removeHeader (name : Bytes)
  | clearHeaders

def headerStep (request : HttpRequest) : HeaderAction → Option HttpRequest
  | .addHeader name value => some (request.addHeader name value)
  | .setHeaders headers order =>
      if headers.IsOrder order then some (request.setHeaders headers order) else none
  | .removeHeader name => some (request.removeHeader name).2
  | .clearHeaders => some request.clearHeaders

/-- A header is removed that another spelling of its name is still stored under. -/
def LosesSpelling (request : HttpRequest) : HeaderAction → Prop
  | .removeHeader name => name ∈ request.headers ∧
      ∃ other ∈ request.headers, other ≠ name ∧ toLower other = toLower name
  | _ => False

theorem lowered_headerStep {action : HeaderAction} (lowered : request.Lowered)
    (taken : request.headerStep action = some next) : next.Lowered := by
  cases action with
  | addHeader name value =>
      cases taken
      intro key member
      rcases Finmap.mem_insert.mp member with rfl | earlier
      · exact toLower_toLower name
      · exact lowered key earlier
  | setHeaders headers order =>
      rcases Option.ite_none_right_eq_some.mp taken with ⟨isOrder, made⟩
      cases made
      exact lowered_of_indexes (IsOrder.indexes isOrder toLower)
  | removeHeader name =>
      cases taken
      rw [removeHeader]
      split
      next => exact fun key member => lowered key (Finmap.mem_erase.mp member).2
      next => exact lowered
  | clearHeaders =>
      cases taken
      exact fun key member => absurd member Finmap.notMem_empty

theorem keeps_lowered : Transition.Keeps headerStep (fun _ => True) Lowered :=
  fun _ _ _ _ taken lowered => lowered_headerStep lowered taken

theorem indexes_headerStep_iff {action : HeaderAction}
    (taken : request.headerStep action = some next)
    (indexes : Indexes toLower request.headers request.headersLowercase) :
    Indexes toLower next.headers next.headersLowercase ↔ ¬request.LosesSpelling action := by
  cases action with
  | addHeader name value =>
      cases taken
      exact iff_of_true (indexes.insert name value) not_false
  | setHeaders headers order =>
      rcases Option.ite_none_right_eq_some.mp taken with ⟨isOrder, made⟩
      cases made
      exact iff_of_true (IsOrder.indexes isOrder toLower) not_false
  | removeHeader name =>
      cases taken
      rw [removeHeader, LosesSpelling]
      split
      next present =>
          rw [indexes.erase_iff]
          simp only [present, true_and, not_exists, not_and]
          exact forall₂_congr fun other _ => ⟨fun single differs same => differs (single same),
            fun alone same => by_contra fun differs => alone differs same⟩
      next absent => exact iff_of_true indexes fun loses => absent loses.1
  | clearHeaders =>
      cases taken
      exact iff_of_true (indexes_empty toLower) not_false

/-- **The header tables stay coherent** through a sequence of operations exactly if none of them
removes a header that is also stored under another spelling of its name. -/
theorem coherent_iff (actions : List HeaderAction) :
    (∀ request, Transition.Visits headerStep {} actions request → request.Coherent) ↔
      ∀ request action next, Transition.Takes headerStep {} actions request action next →
        ¬request.LosesSpelling action := by
  have empty : Indexes toLower ({} : HttpRequest).headers ({} : HttpRequest).headersLowercase :=
    indexes_empty toLower
  have lifted :
      (∀ request, Transition.Visits headerStep {} actions request →
        Indexes toLower request.headers request.headersLowercase) ↔
      ∀ request action next, Transition.Takes headerStep {} actions request action next →
        ¬request.LosesSpelling action :=
    Transition.forall_visits_iff empty fun _ _ _ => indexes_headerStep_iff
  rw [← lifted]
  refine forall₂_congr fun request visits => coherent_iff_indexes ?_
  rcases visits with ⟨before, -, ran⟩
  exact keeps_lowered.run ran (fun _ _ => trivial) (lowered_of_indexes empty)

/-- Removing one of two spellings hides the other from `HasHeader`. -/
theorem not_coherent_twoSpellings :
    ∃ request, Transition.Visits headerStep {}
        [.addHeader (bytes "Accept") (bytes "*/*"), .addHeader (bytes "accept") (bytes "text/html"),
          .removeHeader (bytes "accept")] request ∧
      ¬request.Coherent := by
  refine ⟨_, ⟨_, List.prefix_rfl, rfl⟩, fun coherent => ?_⟩
  have has := (coherent.hasHeader_iff (bytes "accept")).mpr
    ⟨bytes "Accept", by decide, by decide⟩
  exact absurd has (by decide)

/-! ## Removing a header -/

/-- What `RemoveHeader` is to do, with `HasHeader` as the measure. -/
structure Removes (request : HttpRequest) (name : Bytes) : Prop where
  returned : (request.removeHeader name).1 = true ↔ request.hasHeader name = true
  hidden : ∀ other, toLower other = toLower name →
    (request.removeHeader name).2.hasHeader other = false
  gone : ∀ key ∈ (request.removeHeader name).2.headers, toLower key ≠ toLower name
  kept : ∀ other, toLower other ≠ toLower name →
    (request.removeHeader name).2.headers.lookup other = request.headers.lookup other ∧
      (request.removeHeader name).2.hasHeader other = request.hasHeader other ∧
      (request.removeHeader name).2.getHeader other = request.getHeader other

/-- The name is stored in the spelling it is asked for in, or not at all, and a name that is stored
is found. -/
def OnlySpelling (request : HttpRequest) (name : Bytes) : Prop :=
  (∀ key ∈ request.headers, toLower key = toLower name → key = name) ∧
    (name ∈ request.headers → request.hasHeader name = true)

/-- Whatever `GetHeader` finds is stored under some spelling; this is never lost. -/
theorem keeps_backed : Transition.Keeps headerStep (fun _ => True) fun request =>
    Backed toLower request.headers request.headersLowercase := by
  intro request action next _ taken backed
  cases action with
  | addHeader name value =>
      cases taken
      exact backed.insert name value
  | setHeaders headers order =>
      rcases Option.ite_none_right_eq_some.mp taken with ⟨isOrder, made⟩
      cases made
      exact (IsOrder.indexes isOrder toLower).backed
  | removeHeader name =>
      cases taken
      rw [removeHeader]
      split
      next => exact backed.erase name
      next => exact backed
  | clearHeaders =>
      cases taken
      exact (indexes_empty toLower).backed

theorem exists_spelling (backed : Backed toLower request.headers request.headersLowercase)
    {name : Bytes} (has : request.hasHeader name = true) :
    ∃ key ∈ request.headers, toLower key = toLower name := by
  rcases Finmap.mem_iff.mp ((hasHeader_eq_true_iff name).mp has) with ⟨value, found⟩
  rcases backed _ value found with ⟨key, stored, same⟩
  exact ⟨key, Finmap.mem_iff.mpr ⟨value, stored⟩, same⟩

theorem removeHeader_of_mem {name : Bytes} (present : name ∈ request.headers) :
    request.removeHeader name =
      (true, { request with
        headers := request.headers.erase name
        headersLowercase := request.headersLowercase.erase (toLower name) }) :=
  if_pos present

theorem removeHeader_of_notMem {name : Bytes} (absent : name ∉ request.headers) :
    request.removeHeader name = (false, request) :=
  if_neg absent

/-- Headers with other names are left alone. -/
theorem removeHeader_kept (request : HttpRequest) {name other : Bytes}
    (differs : toLower other ≠ toLower name) :
    (request.removeHeader name).2.headers.lookup other = request.headers.lookup other ∧
      (request.removeHeader name).2.hasHeader other = request.hasHeader other ∧
      (request.removeHeader name).2.getHeader other = request.getHeader other := by
  by_cases present : name ∈ request.headers
  · have otherKey : other ≠ name := fun same => differs (congrArg toLower same)
    rw [removeHeader_of_mem present]
    refine ⟨Finmap.lookup_erase_ne otherKey, ?_, ?_⟩
    · simp [hasHeader, Finmap.mem_erase, differs]
    · rw [getHeader, Finmap.lookup_erase_ne differs, getHeader]
  · rw [removeHeader_of_notMem present]
    exact ⟨rfl, rfl, rfl⟩

theorem removes_iff_of_mem {name : Bytes} (present : name ∈ request.headers) :
    request.Removes name ↔ request.OnlySpelling name := by
  constructor
  · intro removes
    constructor
    · intro key member same
      by_contra differs
      refine removes.gone key ?_ same
      rw [removeHeader_of_mem present]
      exact Finmap.mem_erase.mpr ⟨differs, member⟩
    · intro _
      apply removes.returned.mp
      rw [removeHeader_of_mem present]
  · intro only
    constructor
    case returned =>
      rw [removeHeader_of_mem present]
      exact iff_of_true rfl (only.2 present)
    case hidden =>
      intro other same
      rw [removeHeader_of_mem present]
      simp [hasHeader, same]
    case gone =>
      intro key member same
      rw [removeHeader_of_mem present] at member
      rcases Finmap.mem_erase.mp member with ⟨differs, stored⟩
      exact differs (only.1 key stored same)
    case kept => exact fun other differs => removeHeader_kept request differs

theorem removes_iff_of_notMem (backed : Backed toLower request.headers request.headersLowercase)
    {name : Bytes} (absent : name ∉ request.headers) :
    request.Removes name ↔ request.OnlySpelling name := by
  constructor
  · intro removes
    refine ⟨fun key member same => ?_, fun stored => absurd stored absent⟩
    have gone := removes.gone key
    rw [removeHeader_of_notMem absent] at gone
    exact absurd same (gone member)
  · intro only
    have unspelled : ∀ key ∈ request.headers, toLower key ≠ toLower name :=
      fun key member same => absent (only.1 key member same ▸ member)
    have unseen (other : Bytes) (same : toLower other = toLower name) :
        request.hasHeader other = false := by
      rw [← Bool.not_eq_true]
      intro has
      rcases exists_spelling backed has with ⟨key, member, spelled⟩
      exact unspelled key member (spelled.trans same)
    constructor
    case returned =>
      rw [removeHeader_of_notMem absent]
      simp [unseen name rfl]
    case hidden =>
      rw [removeHeader_of_notMem absent]
      exact unseen
    case gone =>
      rw [removeHeader_of_notMem absent]
      exact unspelled
    case kept => exact fun other differs => removeHeader_kept request differs

/-- **Whether `RemoveHeader` removes.**  After any sequence of operations on headers, it returns
whether there was such a header and takes away every spelling of it and no other header, exactly if
the name is stored in no other spelling than the one it is asked for in, and is found if it is
stored in that one. -/
theorem removes_iff (actions : List HeaderAction) :
    ∀ request, Transition.Visits headerStep {} actions request → ∀ name,
      (request.Removes name ↔ request.OnlySpelling name) := by
  intro request visits name
  rcases visits with ⟨before, -, ran⟩
  have backed := keeps_backed.run ran (fun _ _ => trivial) (indexes_empty toLower).backed
  by_cases present : name ∈ request.headers
  · exact removes_iff_of_mem present
  · exact removes_iff_of_notMem backed present

theorem removes_iff_host :
    ∃ request, Transition.Visits headerStep {}
        [.addHeader (bytes "Host") (bytes "a"), .addHeader (bytes "Via") (bytes "b")] request ∧
      (request.Removes (bytes "Host") ↔ request.OnlySpelling (bytes "Host")) :=
  have visits := ⟨_, List.prefix_rfl, rfl⟩
  ⟨_, visits, removes_iff _ _ visits (bytes "Host")⟩

/-- A header is not removed under another spelling than the one it is stored under. -/
theorem not_removes_lowercase :
    ∃ request, Transition.Visits headerStep {}
        [.addHeader (bytes "Content-Type") (bytes "text/html")] request ∧
      request.hasHeader (bytes "content-type") = true ∧
      (request.removeHeader (bytes "content-type")).1 = false ∧
      ¬request.Removes (bytes "content-type") := by
  refine ⟨_, ⟨_, List.prefix_rfl, rfl⟩, by decide, by decide, fun removes => ?_⟩
  exact absurd (removes.returned.mpr (by decide)) (by decide)

end PPServer.Http.HttpRequest
