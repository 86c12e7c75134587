import PPServer.Http.Observation
import PPServer.Library.FiniteMap

/-!
# Serialising and parsing a request

`ToString` writes the headers in whatever order the hash table is visited.  For a
request whose parts survive being written on lines of their own, the text is a head
followed by the body, and parsing it gives the parts back.
-/

namespace PPServer.Http

/-- The entries of a list put into a map one after the other. -/
def StringMap.insertAll (map : StringMap) (order : List (Σ _ : Bytes, Bytes)) : StringMap :=
  order.foldl (fun map entry => map.insert entry.1 entry.2) map

/-- The entries of a table under lower-cased names. -/
def lowercased (order : List (Σ _ : Bytes, Bytes)) : List (Σ _ : Bytes, Bytes) :=
  order.map fun entry => ⟨toLower entry.1, entry.2⟩

/-- A request whose parts can be told apart in its text. -/
structure Printable (request : HttpRequest) : Prop where
  method : request.method ≠ .unknown
  version : request.version ≠ .unknown
  path : IsWord request.path
  noQuery : request.queryString = []
  distinct : ∀ name ∈ request.headers, ∀ other ∈ request.headers,
    toLower name = toLower other → name = other
  name_plain : ∀ name ∈ request.headers, ∀ byte ∈ name, byte ≠ 58 ∧ byte ≠ cr ∧ byte ≠ lf
  name_trimmed : ∀ name ∈ request.headers, Trimmed name
  value_plain : ∀ name value, request.headers.lookup name = some value →
    ∀ byte ∈ value, byte ≠ cr ∧ byte ≠ lf
  value_trimmed : ∀ name value, request.headers.lookup name = some value → Trimmed value
  noTransferEncoding : ∀ name ∈ request.headers,
    toLower name ≠ toLower (bytes "Transfer-Encoding")
  length :
    (∀ name ∈ request.headers, toLower name ≠ toLower (bytes "Content-Length")) ∧
        request.body = [] ∨
      ∃ name value, request.headers.lookup name = some value ∧
        toLower name = toLower (bytes "Content-Length") ∧
        IsNumeral 10 value request.body.length ∧ request.body ≠ [] ∧
        request.body.length < sizeModulus

variable {request : HttpRequest} {order : List (Σ _ : Bytes, Bytes)}

/-! ## Tables -/

theorem StringMap.lookup_insertAll (map : StringMap) (nodup : order.NodupKeys) (name : Bytes) :
    (map.insertAll order).lookup name = (order.dlookup name).or (map.lookup name) := by
  induction order generalizing map with
  | nil => simp [insertAll]
  | cons entry order ih =>
      rcases List.nodupKeys_cons.mp nodup with ⟨fresh, tailNodup⟩
      rw [insertAll, List.foldl_cons, ← insertAll, ih _ tailNodup]
      by_cases same : name = entry.1
      · subst same
        have absent : order.dlookup entry.1 = none := List.dlookup_eq_none.mpr fresh
        rw [absent, Finmap.lookup_insert, Option.none_or]
        exact (congrArg (Option.or · _) (List.dlookup_cons_eq order entry.1 entry.2)).symm
      · rw [Finmap.lookup_insert_of_ne _ same, List.dlookup_cons_ne _ _ same]

/-- An order of iteration lists every entry once. -/
theorem StringMap.IsOrder.nodupKeys {map : StringMap} (isOrder : map.IsOrder order) :
    order.NodupKeys :=
  FiniteMap.IsOrder.nodupKeys isOrder

theorem StringMap.IsOrder.lookup {map : StringMap} (isOrder : map.IsOrder order)
    (name : Bytes) : map.lookup name = order.dlookup name :=
  FiniteMap.IsOrder.lookup isOrder name

/-- Reading the entries back in any order gives the table. -/
theorem StringMap.IsOrder.insertAll_empty {map : StringMap} (isOrder : map.IsOrder order) :
    StringMap.insertAll ∅ order = map := by
  refine Finmap.ext_lookup fun name => ?_
  rw [lookup_insertAll _ isOrder.nodupKeys, isOrder.lookup]
  simp

theorem mem_of_mem_order (isOrder : request.headers.IsOrder order) {entry : Σ _ : Bytes, Bytes}
    (member : entry ∈ order) : request.headers.lookup entry.1 = some entry.2 := by
  rw [isOrder.lookup]
  exact List.mem_dlookup isOrder.nodupKeys member

/-- Names that differ by more than case stay different in lower case. -/
theorem Printable.lowercased_nodupKeys (printable : Printable request)
    (isOrder : request.headers.IsOrder order) : (lowercased order).NodupKeys := by
  have keys : (lowercased order).keys = order.keys.map toLower := by
    simp [lowercased, List.keys]
  rw [List.NodupKeys, keys]
  refine List.Nodup.map_on ?_ isOrder.nodupKeys
  intro name member other otherMember same
  have present : ∀ name ∈ order.keys, name ∈ request.headers := by
    intro name member
    rw [Finmap.mem_iff, isOrder.lookup, ← Option.isSome_iff_exists, List.dlookup_isSome]
    exact member
  exact printable.distinct name (present name member) other (present other otherMember) same

/-! ## Lines -/

/-- The line of a header, as `ToString` writes it. -/
def headerLine (entry : Σ _ : Bytes, Bytes) : Bytes := entry.1 ++ bytes ": " ++ entry.2

def requestLine (request : HttpRequest) : Bytes :=
  request.getMethodString ++ bytes " " ++ request.path ++ bytes " " ++ request.getVersionString

theorem free_of_not_mem {text : Bytes} (absent : cr ∉ text) : CRLFFree text :=
  fun occurs => absent (occurs.subset (by simp))

theorem method_roundTrip (known : request.method ≠ .unknown) :
    IsWord request.getMethodString ∧ validateHttpMethod request.getMethodString = true ∧
      stringToMethod request.getMethodString = request.method := by
  simp only [HttpRequest.getMethodString]
  cases equal : request.method <;> first | exact absurd equal known | decide

theorem version_roundTrip (known : request.version ≠ .unknown) :
    IsWord request.getVersionString ∧ validateHttpVersion request.getVersionString = true ∧
      stringToVersion request.getVersionString = request.version := by
  simp only [HttpRequest.getVersionString]
  cases equal : request.version <;> first | exact absurd equal known | decide

theorem Printable.requestLineOf (printable : Printable request) :
    requestLineOf (requestLine request) =
      some (request.method, request.path, request.version) := by
  rcases method_roundTrip printable.method with ⟨methodWord, methodValid, methodBack⟩
  rcases version_roundTrip printable.version with ⟨versionWord, versionValid, versionBack⟩
  have parts : extractRequestLine (requestLine request) =
      some (request.getMethodString, request.path, request.getVersionString) := by
    have space : bytes " " = [32] := by decide
    have split : requestLine request = request.getMethodString ++
        32 :: (request.path ++ 32 :: (request.getVersionString ++ [])) := by
      simp [requestLine, space]
    have atSpace (rest : Bytes) : ∀ byte ∈ ((32 : Byte) :: rest).head?, isSpace byte = true := by
      simp [isSpace]
    rw [extractRequestLine, split, extractWord_append methodWord (atSpace _)]
    simp only [Option.bind_eq_bind, Option.bind_some]
    rw [extractWord_space_cons (by decide), extractWord_append printable.path (atSpace _)]
    simp only [Option.bind_some]
    rw [extractWord_space_cons (by decide), extractWord_append versionWord (by simp)]
    rfl
  simp [Http.requestLineOf, parts, methodValid, methodBack, versionValid, versionBack]

theorem not_mem_of_isWord {word : Bytes} (isWord : IsWord word) : cr ∉ word := by
  intro member
  have notSpace := isWord.2 cr member
  simp at notSpace

theorem Printable.requestLine_free (printable : Printable request) :
    CRLFFree (requestLine request) := by
  apply free_of_not_mem
  have space : cr ∉ bytes " " := by decide
  simp only [requestLine, List.mem_append, not_or]
  exact ⟨⟨⟨⟨not_mem_of_isWord (method_roundTrip printable.method).1, space⟩,
    not_mem_of_isWord printable.path⟩, space⟩,
    not_mem_of_isWord (version_roundTrip printable.version).1⟩

theorem Printable.headerOf (printable : Printable request) {name value : Bytes}
    (present : request.headers.lookup name = some value) :
    headerOf (headerLine ⟨name, value⟩) = some (name, value) := by
  have member : name ∈ request.headers := Finmap.mem_iff.mpr ⟨value, present⟩
  have noColon : ∀ byte ∈ name, (byte == 58) = false := by
    intro byte inName
    simpa using (printable.name_plain name member byte inName).1
  have split : headerLine ⟨name, value⟩ = name ++ 58 :: 32 :: value := by
    simp [headerLine, show bytes ": " = [58, 32] by decide]
  have colon : (headerLine ⟨name, value⟩).findIdx? (· == 58) = some name.length := by
    rw [split, List.findIdx?_append, List.findIdx?_eq_none_iff.mpr noColon, List.findIdx?_cons]
    simp
  have valueTrimmed := printable.value_trimmed name value present
  have afterColon : (headerLine ⟨name, value⟩).drop (name.length + 1) = 32 :: value := by
    rw [split, ← List.drop_drop, List.drop_left]
    rfl
  rw [Http.headerOf, colon, Option.map_some, afterColon, split, List.take_left,
    trim_of_trimmed (printable.name_trimmed name member),
    trim_blank_cons (by decide) valueTrimmed]

theorem Printable.headerLine_free (printable : Printable request) {name value : Bytes}
    (present : request.headers.lookup name = some value) :
    CRLFFree (headerLine ⟨name, value⟩) := by
  have member : name ∈ request.headers := Finmap.mem_iff.mpr ⟨value, present⟩
  apply free_of_not_mem
  have colon : cr ∉ bytes ": " := by decide
  simp only [headerLine, List.mem_append, not_or]
  exact ⟨⟨fun inName => (printable.name_plain name member cr inName).2.1 rfl, colon⟩,
    fun inValue => (printable.value_plain name value present cr inValue).1 rfl⟩

/-! ## The text of a request -/

/-- The head of the text. -/
def Printable.head (printable : Printable request) (isOrder : request.headers.IsOrder order) :
    Head where
  requestLine := requestLine request
  headerLines := order.map headerLine
  requestLine_free := printable.requestLine_free
  requestLine_parts := by simp [printable.requestLineOf]
  headerLines_free := by
    simp only [List.mem_map, forall_exists_index, and_imp]
    intro line entry member image
    subst image
    exact printable.headerLine_free (mem_of_mem_order isOrder member)
  headerLines_parts := by
    simp only [List.mem_map, forall_exists_index, and_imp]
    intro line entry member image
    subst image
    rw [printable.headerOf (mem_of_mem_order isOrder member)]
    rfl

theorem Printable.toString_eq (printable : Printable request)
    (isOrder : request.headers.IsOrder order) :
    request.toString order = (printable.head isOrder).text ++ request.body := by
  have lines : HttpRequest.headerText order =
      (order.map headerLine).flatMap (· ++ crlf) := by
    simp [HttpRequest.headerText, List.flatMap_map, headerLine]
  simp [HttpRequest.toString, Head.text, Head.openText, head, requestLine,
    printable.noQuery, lines]

/-- Reading the header lines back adds the entries in their order. -/
theorem Printable.foldl_withHeaderLine (printable : Printable request) (start : HttpRequest)
    (present : ∀ entry ∈ order, request.headers.lookup entry.1 = some entry.2) :
    (order.map headerLine).foldl HttpRequest.withHeaderLine start =
      { start with
        headers := StringMap.insertAll start.headers order
        headersLowercase := StringMap.insertAll start.headersLowercase (lowercased order) } := by
  induction order generalizing start with
  | nil => rfl
  | cons entry order ih =>
      have header := printable.headerOf (present entry (by simp))
      have first : start.withHeaderLine (headerLine entry) =
          start.addHeader entry.1 entry.2 := by
        simp only [HttpRequest.withHeaderLine]
        rw [header]
      rw [List.map_cons, List.foldl_cons, first,
        ih _ fun other member => present other (by simp [member])]
      rfl

theorem Printable.head_request (printable : Printable request)
    (isOrder : request.headers.IsOrder order) :
    (printable.head isOrder).request =
      { method := request.method
        path := request.path
        version := request.version
        headers := request.headers
        headersLowercase := StringMap.insertAll ∅ (lowercased order) } := by
  have parts : (Http.requestLineOf (printable.head isOrder).requestLine).get
      (printable.head isOrder).requestLine_parts =
        (request.method, request.path, request.version) := by
    simp [head, printable.requestLineOf]
  rw [Head.request, parts,
    show (printable.head isOrder).headerLines = order.map headerLine from rfl,
    printable.foldl_withHeaderLine _ fun entry member => mem_of_mem_order isOrder member]
  have table := isOrder.insertAll_empty
  simp [HttpRequest.withRequestLine, HttpRequest.setMethod, HttpRequest.setPath,
    HttpRequest.setVersion, table]

/-- The header fields are found under their names whatever the order. -/
theorem Printable.getHeader (printable : Printable request)
    (isOrder : request.headers.IsOrder order) (query : Bytes) :
    (printable.head isOrder).request.getHeader query =
      ((lowercased order).dlookup (toLower query)).getD [] := by
  rw [printable.head_request isOrder, HttpRequest.getHeader]
  dsimp only
  rw [StringMap.lookup_insertAll _ (printable.lowercased_nodupKeys isOrder)]
  simp

theorem Printable.getHeader_of_lookup (printable : Printable request)
    (isOrder : request.headers.IsOrder order) {name value query : Bytes}
    (present : request.headers.lookup name = some value) (same : toLower name = toLower query) :
    (printable.head isOrder).request.getHeader query = value := by
  have member : (⟨toLower query, value⟩ : Σ _ : Bytes, Bytes) ∈ lowercased order := by
    rw [isOrder.lookup] at present
    rw [← same]
    exact List.mem_map.mpr ⟨_, List.of_mem_dlookup present, rfl⟩
  rw [printable.getHeader isOrder,
    List.mem_dlookup (printable.lowercased_nodupKeys isOrder) member]
  rfl

theorem Printable.getHeader_of_absent (printable : Printable request)
    (isOrder : request.headers.IsOrder order) {query : Bytes}
    (absent : ∀ name ∈ request.headers, toLower name ≠ toLower query) :
    (printable.head isOrder).request.getHeader query = [] := by
  have notKey : toLower query ∉ (lowercased order).keys := by
    intro key
    simp only [lowercased, List.keys, List.map_map, List.mem_map] at key
    rcases key with ⟨entry, member, same⟩
    have present := mem_of_mem_order isOrder member
    exact absent entry.1 (Finmap.mem_iff.mpr ⟨_, present⟩) same
  rw [printable.getHeader isOrder, List.dlookup_eq_none.mpr notKey]
  rfl

/-- The text of a printable request is a message that describes its parts. -/
theorem Printable.exists_message (printable : Printable request)
    (isOrder : request.headers.IsOrder order) :
    ∃ message : Message, message.text = request.toString order ∧ message.isChunked = false ∧
      message.request = (printable.head isOrder).request.appendBody request.body := by
  have transferEncoding :=
    printable.getHeader_of_absent isOrder printable.noTransferEncoding
  rcases printable.length with ⟨absent, empty⟩ | ⟨name, value, present, same, numeral, some, fits⟩
  · have contentLength := printable.getHeader_of_absent isOrder absent
    have framing : (printable.head isOrder).request.framing = .none := by
      have other : bytes "chunked" ≠ [] := by decide
      simp [HttpRequest.framing, contentLength, transferEncoding, other.symm]
    refine ⟨.bodyless _ framing, ?_, rfl, ?_⟩
    · rw [printable.toString_eq isOrder, empty]
      simp [Message.text]
    · rw [empty]
      simp [Message.request]
  · have hasLength : (printable.head isOrder).HasLength request.body.length :=
      ⟨by rwa [printable.getHeader_of_lookup isOrder present same], fits⟩
    exact ⟨.counted _ request.body some hasLength, (printable.toString_eq isOrder).symm, rfl, rfl⟩

namespace HttpParser

/-- **Serialising and parsing.**  One call with the text of a printable request, in
whatever order its headers are written, ends in `COMPLETE` without unread bytes and
with the same method, path, version, headers and body. -/
theorem parse_toString (printable : Printable request)
    (isOrder : request.headers.IsOrder order) :
    ∃ result after parsed, Parses {} (request.toString order) result after ∧
      after.state = .complete ∧ after.buffer = [] ∧ after.request = some parsed ∧
      parsed.method = request.method ∧ parsed.path = request.path ∧
      parsed.version = request.version ∧ parsed.headers = request.headers ∧
      parsed.body = request.body := by
  rcases printable.exists_message isOrder with ⟨message, text, unchunked, describes⟩
  rcases exists_parses_message message [] with ⟨result, after, parses, state, parsed, buffer⟩
  rw [List.append_nil, text] at parses
  rw [describes, printable.head_request isOrder] at parsed
  refine ⟨result, after, _, parses, state, ?_, parsed, rfl, rfl, rfl, rfl, ?_⟩
  · simp [buffer, Message.unread, unchunked]
  · simp [HttpRequest.appendBody]

/-- A request with two headers and a body that contains CRLF. -/
def postHost : HttpRequest where
  method := .post
  path := bytes "/a"
  version := .http11
  headers := (Finmap.insert (bytes "Host") (bytes "x")
    (Finmap.insert (bytes "Content-Length") (bytes "4") ∅))
  body := bytes "a\r\nb"

theorem postHost_lookup {name value : Bytes}
    (present : postHost.headers.lookup name = some value) :
    name = bytes "Host" ∧ value = bytes "x" ∨
      name = bytes "Content-Length" ∧ value = bytes "4" := by
  have member : name ∈ postHost.headers := Finmap.mem_iff.mpr ⟨value, present⟩
  simp only [postHost, Finmap.mem_insert, Finmap.notMem_empty, or_false] at member
  rcases member with rfl | rfl
  · exact .inl ⟨rfl, Option.some.inj (present.symm.trans (by decide))⟩
  · exact .inr ⟨rfl, Option.some.inj (present.symm.trans (by decide))⟩

theorem postHost_printable : Printable postHost := by
  have names : ∀ name ∈ postHost.headers, name = bytes "Host" ∨ name = bytes "Content-Length" := by
    intro name member
    simpa only [postHost, Finmap.mem_insert, Finmap.notMem_empty, or_false] using member
  have trimmed (text : Bytes)
      (ends : text.head?.all (!isBlank ·) = true ∧ text.getLast?.all (!isBlank ·) = true) :
      Trimmed text := by
    constructor <;> intro byte member <;> simp_all
  refine
    { method := by decide
      version := by decide
      path := by decide
      noQuery := rfl
      distinct := ?_
      name_plain := ?_
      name_trimmed := ?_
      value_plain := ?_
      value_trimmed := ?_
      noTransferEncoding := ?_
      length := .inr ⟨bytes "Content-Length", bytes "4", by decide, rfl,
        ⟨by decide, by decide, by decide⟩, by decide, by decide⟩ }
  · intro name member other otherMember
    rcases names name member with rfl | rfl <;>
      rcases names other otherMember with rfl | rfl <;> decide
  · intro name member
    rcases names name member with rfl | rfl <;> decide
  · intro name member
    rcases names name member with rfl | rfl <;> exact trimmed _ (by decide)
  · intro name value present
    rcases postHost_lookup present with ⟨-, rfl⟩ | ⟨-, rfl⟩ <;> decide
  · intro name value present
    rcases postHost_lookup present with ⟨-, rfl⟩ | ⟨-, rfl⟩ <;> exact trimmed _ (by decide)
  · intro name member
    rcases names name member with rfl | rfl <;> decide

theorem parse_toString_postHost :
    ∃ result after parsed,
      Parses {} (postHost.toString [⟨bytes "Content-Length", bytes "4"⟩, ⟨bytes "Host", bytes "x"⟩])
          result after ∧
        after.state = .complete ∧ after.buffer = [] ∧ after.request = some parsed ∧
        parsed.method = postHost.method ∧ parsed.path = postHost.path ∧
        parsed.version = postHost.version ∧ parsed.headers = postHost.headers ∧
        parsed.body = postHost.body :=
  parse_toString postHost_printable (by decide)

end HttpParser

end PPServer.Http
