import Mathlib.Data.Finmap
import PPServer.Text.Numeral

/-!
# `HttpRequest`

The request under construction: the fields the parser writes, the two header tables
and the query parameters.  `std::unordered_map` is a finite map; wherever the source
iterates over one, the order of iteration is an argument.

The metadata of a request (remote address, receive time, identifier) is not read by
anything modelled here and is left out.
-/

namespace PPServer.Http

inductive Method where
  | get | post | put | delete | head | options | patch | trace | connect | unknown
  deriving DecidableEq, Repr

inductive Version where
  | http10 | http11 | http20 | unknown
  deriving DecidableEq, Repr

/-- `METHOD_STRINGS`. -/
def methodStrings : List (Method × Bytes) :=
  [(.get, bytes "GET"), (.post, bytes "POST"), (.put, bytes "PUT"),
    (.delete, bytes "DELETE"), (.head, bytes "HEAD"), (.options, bytes "OPTIONS"),
    (.patch, bytes "PATCH"), (.trace, bytes "TRACE"), (.connect, bytes "CONNECT"),
    (.unknown, bytes "UNKNOWN")]

/-- `VERSION_STRINGS`. -/
def versionStrings : List (Version × Bytes) :=
  [(.http10, bytes "HTTP/1.0"), (.http11, bytes "HTTP/1.1"),
    (.http20, bytes "HTTP/2.0"), (.unknown, bytes "UNKNOWN")]

/-- `std::unordered_map<std::string, std::string>`. -/
abbrev StringMap := Finmap fun _ : Bytes => Bytes

/-- One order in which the entries of a map can be visited. -/
def StringMap.IsOrder (map : StringMap) (order : List (Σ _ : Bytes, Bytes)) : Prop :=
  (order : Multiset (Σ _ : Bytes, Bytes)) = map.entries

instance (map : StringMap) (order : List (Σ _ : Bytes, Bytes)) :
    Decidable (map.IsOrder order) :=
  inferInstanceAs (Decidable (_ = _))

structure HttpRequest where
  method : Method := .unknown
  path : Bytes := []
  version : Version := .unknown
  queryString : Bytes := []
  headers : StringMap := ∅
  headersLowercase : StringMap := ∅
  body : Bytes := []
  queryParams : StringMap := ∅
  queryParsed : Bool := false
  deriving DecidableEq

/-- `StringToMethod`. -/
def stringToMethod (text : Bytes) : Method :=
  match methodStrings.find? fun entry => entry.2 == text with
  | some entry => entry.1
  | none => .unknown

/-- `StringToVersion`. -/
def stringToVersion (text : Bytes) : Version :=
  match versionStrings.find? fun entry => entry.2 == text with
  | some entry => entry.1
  | none => .unknown

/-- `ToLower`. -/
def toLower (text : Bytes) : Bytes := text.map toLowerByte

namespace HttpRequest

def setMethod (request : HttpRequest) (method : Method) : HttpRequest :=
  { request with method }

def setPath (request : HttpRequest) (path : Bytes) : HttpRequest :=
  { request with path, queryParsed := false }

def setVersion (request : HttpRequest) (version : Version) : HttpRequest :=
  { request with version }

def addHeader (request : HttpRequest) (name value : Bytes) : HttpRequest :=
  { request with
    headers := request.headers.insert name value
    headersLowercase := request.headersLowercase.insert (toLower name) value }

/-- `SetHeaders`; `order` is the one in which `headers_` is visited afterwards. -/
def setHeaders (request : HttpRequest) (headers : StringMap)
    (order : List (Σ _ : Bytes, Bytes)) : HttpRequest :=
  { request with
    headers
    headersLowercase :=
      order.foldl (fun lowercase entry => lowercase.insert (toLower entry.1) entry.2) ∅ }

/-- `RemoveHeader`, with the value it returns. -/
def removeHeader (request : HttpRequest) (name : Bytes) : Bool × HttpRequest :=
  if name ∈ request.headers then
    (true,
      { request with
        headers := request.headers.erase name
        headersLowercase := request.headersLowercase.erase (toLower name) })
  else (false, request)

def clearHeaders (request : HttpRequest) : HttpRequest :=
  { request with headers := ∅, headersLowercase := ∅ }

def appendBody (request : HttpRequest) (data : Bytes) : HttpRequest :=
  { request with body := request.body ++ data }

def getMethodString (request : HttpRequest) : Bytes :=
  match methodStrings.find? fun entry => entry.1 == request.method with
  | some entry => entry.2
  | none => []

def getVersionString (request : HttpRequest) : Bytes :=
  match versionStrings.find? fun entry => entry.1 == request.version with
  | some entry => entry.2
  | none => []

/-- `GetHeader`: the value under the lower-cased name, or the empty string. -/
def getHeader (request : HttpRequest) (name : Bytes) : Bytes :=
  (request.headersLowercase.lookup (toLower name)).getD []

def hasHeader (request : HttpRequest) (name : Bytes) : Bool :=
  toLower name ∈ request.headersLowercase

/-- The header lines `ToString` prints, in the order the table is visited. -/
def headerText (order : List (Σ _ : Bytes, Bytes)) : Bytes :=
  order.flatMap fun entry => entry.1 ++ bytes ": " ++ entry.2 ++ crlf

/-- `ToString`. -/
def toString (request : HttpRequest) (order : List (Σ _ : Bytes, Bytes)) : Bytes :=
  request.getMethodString ++ bytes " " ++ request.path ++
    (if request.queryString = [] then [] else bytes "?" ++ request.queryString) ++
    bytes " " ++ request.getVersionString ++ crlf ++ headerText order ++ crlf ++
    request.body

def getBodySize (request : HttpRequest) : Nat := request.body.length

/-- `GetContentLength`, which falls back on the body where there is no such header. -/
def getContentLength (request : HttpRequest) : Nat :=
  let contentLength := request.getHeader (bytes "Content-Length")
  if contentLength ≠ [] then
    match stoul contentLength 10 with
    | .ok length => length
    | .error _ => 0
  else request.body.length

/-- `IsChunked`: `encoding.find("chunked") != npos`. -/
def isChunked (request : HttpRequest) : Bool :=
  bytes "chunked" <:+: request.getHeader (bytes "Transfer-Encoding")

/-! Each setter changes its own field. -/

@[simp] theorem setMethod_body (request : HttpRequest) (method : Method) :
    (request.setMethod method).body = request.body := rfl

@[simp] theorem setPath_body (request : HttpRequest) (path : Bytes) :
    (request.setPath path).body = request.body := rfl

@[simp] theorem setVersion_body (request : HttpRequest) (version : Version) :
    (request.setVersion version).body = request.body := rfl

@[simp] theorem addHeader_body (request : HttpRequest) (name value : Bytes) :
    (request.addHeader name value).body = request.body := rfl

@[simp] theorem appendBody_body (request : HttpRequest) (data : Bytes) :
    (request.appendBody data).body = request.body ++ data := rfl

@[simp] theorem appendBody_nil (request : HttpRequest) : request.appendBody [] = request := by
  simp [appendBody]

@[simp] theorem appendBody_append (request : HttpRequest) (first second : Bytes) :
    (request.appendBody first).appendBody second = request.appendBody (first ++ second) := by
  simp [appendBody]

@[simp] theorem getHeader_appendBody (request : HttpRequest) (data name : Bytes) :
    (request.appendBody data).getHeader name = request.getHeader name := rfl

/-- A line takes the place of every earlier one with its name, in whatever letter case. -/
theorem getHeader_addHeader (request : HttpRequest) (name value other : Bytes) :
    (request.addHeader name value).getHeader other =
      if toLower name = toLower other then value else request.getHeader other := by
  simp only [addHeader, getHeader]
  split
  next same => rw [← same, Finmap.lookup_insert]; rfl
  next differs => rw [Finmap.lookup_insert_of_ne _ (Ne.symm differs)]

end HttpRequest

end PPServer.Http
