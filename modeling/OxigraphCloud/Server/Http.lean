import OxigraphCloud.Server.Changelog

-- Requests and responses of the HTTP server, and what the handlers do to them.

structure Body where
  -- The declared length.
  length    : Option ℕ
  content   : Bytes
  readError : Option String

structure Request where
  method        : String
  path          : String
  queryString   : String
  -- Headers are absent if they are not visible ASCII.
  authorization : Option String
  contentType   : Option String
  body          : Body

structure Response where
  status  : ℕ
  headers : List (String × String)
  body    : String

-- The status code and the message.
abbrev HttpError := ℕ × String

def maxSparqlBodySize : ℕ := 128 * 1024 * 1024

def maxDiffStoreSize : ℕ := 1000000

def badRequest (message : String) : HttpError := (400, message)

def unsupportedMediaType (contentType : String) : HttpError :=
  (415, "Unsupported Content-Type: " ++ contentType)

def internalServerError (message : String) : HttpError := (500, message)

-- The largest number of bytes of a vector, `isize::MAX`.
def maxCapacity : ℕ := 2 ^ 63 - 1

namespace Body

-- `read_to_end`, which fails when the vector cannot grow any more.
def readToEnd (body : Body) : Except HttpError Bytes :=
  if body.content.length ≤ maxCapacity then
    match body.readError with
    | some e => .error <| internalServerError e
    | none   => .ok body.content
  else
    .error <| internalServerError "out of memory"

-- An error behind the first `limit` bytes is not noticed.
def take (body : Body) (limit : UInt64) : Body :=
  if limit.toNat ≤ body.content.length then
    { body with content := body.content.take limit.toNat, readError := none }
  else
    body

-- `limited_body_with_max` on the body of the request, where `none` stands for a panic:
-- `Vec::with_capacity` does so if the capacity is too large.
def limitedWithMax (body : Body) (maxSize : UInt64) : Option (Except HttpError Bytes) :=
  match body.length with
  | some bodyLen =>
    if bodyLen > maxSize.toNat then
      some <| .error <| badRequest <| "Body too large: " ++ toString bodyLen ++ " bytes (limit " ++
        toString maxSize ++ ")"
    else if bodyLen ≤ maxCapacity then
      some body.readToEnd
    else
      none
  | none => some do
    -- The addition wraps around, as in a release build.
    let payload ← (body.take (maxSize + 1)).readToEnd
    if payload.length > maxSize.toNat then
      .error <| badRequest <| "Body too large (limit " ++ toString maxSize ++ " bytes)"
    else
      .ok payload

end Body

-- `strip_prefix`
def stripPrefix (pre str : String) : Option String :=
  if pre.toList.isPrefixOf str.toList then
    some <| .ofList <| str.toList.drop pre.toList.length
  else
    none

-- `split_once`
def splitOnce (c : Char) (str : String) : Option (String × String) :=
  match str.toList.span (· ≠ c) with
  | (_, [])         => none
  | (before, _ :: after) => some (.ofList before, .ofList after)

namespace Request

variable (request : Request)

def mediaType : Option String :=
  request.contentType.map fun value =>
    let value := ((splitOnce ';' value).map Prod.fst).getD value
    value.trimAscii.toString.map Char.toLower

-- A panic ends the process. It leaves the store as it is, like an error does.
def limitedBodyWithMax (maxSize : ℕ) : Except HttpError Bytes :=
  (request.body.limitedWithMax (.ofNat maxSize)).getD <| .error <| internalServerError ""

def limitedBody : Except HttpError Bytes := request.limitedBodyWithMax maxSparqlBodySize

def limitedStringBody (sv : Services) : Except HttpError String := do
  let body ← request.limitedBody
  match String.fromUTF8? ⟨body.toArray⟩ with
  | some str => .ok str
  | none     => .error <| badRequest <| "Invalid UTF-8 body: " ++ sv.utf8Error body

def checkWriteAuth (writeKey : Option String) : Except HttpError Unit :=
  match writeKey with
  | none => .ok ()
  | some expectedKey =>
    let authHeader := request.authorization.getD ""
    let providedKey := (stripPrefix "Bearer " authHeader).getD authHeader
    if providedKey = expectedKey then
      .ok ()
    else
      .error (401, "Write operations require a valid Authorization: Bearer <key> header")

def requireContentType : Except HttpError String :=
  match request.mediaType with
  | some ct => .ok ct
  | none    => .error <| badRequest "No Content-Type given"

def requireFormat (sv : Services) : Except HttpError RdfFormat := do
  let ct ← request.requireContentType
  match sv.fromMediaType ct with
  | some format => .ok format
  | none        => .error <| unsupportedMediaType ct

-- The update in the body, either as it is or as a field of a form.
def updateText (sv : Services) : Except HttpError String := do
  let ct ← request.requireContentType
  if ct = "application/sparql-update" then
    request.limitedStringBody sv
  else if ct = "application/x-www-form-urlencoded" then
    let body ← request.limitedBody
    match (sv.parseForm body).find? (·.1 = "update") with
    | some (_, v) => .ok v
    | none        => .error <| badRequest "Missing 'update' parameter in form body"
  else
    .error <| unsupportedMediaType ct

end Request

def noContent : Response where
  status  := 204
  headers := []
  body    := ""

def jsonResponse (status : ℕ) (headers : List (String × String)) (body : String) : Response where
  status  := status
  headers := ("Content-Type", "application/json") :: headers
  body    := body

def TransactionError.toHttp : TransactionError → HttpError
  | notFound    => (404, "Transaction not found or already committed/rolled back")
  | parse msg   => (400, msg)
  | query msg   => (400, msg)
  | storage msg => (500, msg)

def ChangelogError.toHttp : ChangelogError → HttpError
  | disabled     => (404, "Changelog is not enabled (use --changelog to enable)")
  | notFound     => (404, "Changelog entry not found")
  | notUndoable  => (422, "Changelog entry is not undoable")
  | internal msg => (500, msg)

def ShaclError.toMessage : ShaclError → String
  | shapeCompilation msg   => "Failed to compile SHACL shapes: " ++ msg
  | storeSerialization msg => "Failed to serialize store data: " ++ msg
  | dataLoading msg        => "Failed to load data for validation: " ++ msg
  | validationEngine msg   => "Validation engine error: " ++ msg

-- `str::replace` of a character
def replaceChar (c : Char) (replacement : List Char) (str : String) : String :=
  .ofList <| str.toList.flatMap fun d => if d = c then replacement else [d]

def escapeJson (str : String) : String :=
  replaceChar '\t' ['\\', 't'] <| replaceChar '\r' ['\\', 'r'] <| replaceChar '\n' ['\\', 'n'] <|
    replaceChar '"' ['\\', '"'] <| replaceChar '\\' ['\\', '\\'] str

namespace ChangelogEntry

def toListJson (entry : ChangelogEntry) : String :=
  "\x7b\"id\":" ++ toString entry.id ++ ",\"timestamp\":\"" ++ escapeJson entry.timestamp ++
    "\",\"operation\":\"" ++ escapeJson entry.operation ++ "\",\"undoable\":" ++
    toString entry.undoable ++ "\x7d"

def toDetailJson (sv : Services) (entry : ChangelogEntry) : String :=
  "\x7b\"id\":" ++ toString entry.id ++ ",\"timestamp\":\"" ++ escapeJson entry.timestamp ++
    "\",\"operation\":\"" ++ escapeJson entry.operation ++ "\",\"undoable\":" ++
    toString entry.undoable ++ ",\"insertCount\":" ++ toString entry.inserted.length ++
    ",\"removeCount\":" ++ toString entry.removed.length ++ ",\"inserted\":\"" ++
    escapeJson (sv.quadsToNquads entry.inserted) ++ "\",\"removed\":\"" ++
    escapeJson (sv.quadsToNquads entry.removed) ++ "\"\x7d"

end ChangelogEntry
