import OxigraphCloud.Server.Http

inductive ShaclMode
  | off
  | warn
  | enforce
  deriving DecidableEq

def ShaclMode.toStr : ShaclMode → String
  | off     => "off"
  | warn    => "warn"
  | enforce => "enforce"

inductive ValidationOutcome
  | skipped
  | passed
  | failed (report : ValidationReport)

structure ShaclValidator where
  mode   : ShaclMode
  shapes : Option CompiledShapes

namespace ShaclValidator

variable (sv : Services)

def new (mode : ShaclMode) : ShaclValidator where
  mode   := mode
  shapes := none

def validate (v : ShaclValidator) (s : Store) : Except ShaclError ValidationOutcome :=
  if v.mode = .off then
    .ok .skipped
  else
    match v.shapes with
    | none        => .error <| .validationEngine "No shapes loaded"
    | some shapes => do
      let report ← sv.validate shapes (sv.serializeStoreToNtriples s)
      return if report.conforms then .passed else .failed report

def validateAfterWrite (v : ShaclValidator) (s : Store) : Except HttpError Unit :=
  if v.shapes.isNone ∨ v.mode = .off then
    .ok ()
  else
    match v.validate sv s with
    | .ok .passed          => .ok ()
    | .ok .skipped         => .ok ()
    | .ok (.failed report) => if v.mode = .warn then .ok () else .error (422, report.json)
    | .error e             => .error <| internalServerError e.toMessage

end ShaclValidator

-- The configuration that requests are handled with.
structure Config where
  maxUploadSize : ℕ
  writeKey      : Option String

structure Server where
  store     : Store
  registry  : TransactionRegistry
  changelog : Changelog
  validator : ShaclValidator

abbrev Handler := Server → Except HttpError Response × Server

-- Handles a request after the parts of it that do not touch the server.
def Handler.after (x : Except HttpError α) (f : α → Handler) : Handler := fun server =>
  match x with
  | .error e => (.error e, server)
  | .ok a    => f a server

def Handler.answer (response : Except HttpError Response) : Handler := fun server =>
  (response, server)

section Write

variable (sv : Services) (am : Ambient)

def evaluateSparqlUpdate (s : Store) (update : String) : Except HttpError Response × Store :=
  match sv.parseUpdate update with
  | .error e     => (.error (badRequest e), s)
  | .ok prepared =>
    match s.transact (am.faults .write) id (prepared.onStore s) with
    | (.error e, s') => (.error (internalServerError e), s')
    | (.ok (), s')   => (.ok noContent, s')

-- The operations for the changelog that lead from one set of quads to another one.
def diffOps (before after : Finset Rdf.Quad) : Option (List BufferedOp) :=
  let inserted := sv.scan (after \ before)
  let removed := sv.scan (before \ after)
  if inserted = [] ∧ removed = [] then
    none
  else
    some <|
      (if inserted = [] then [] else [.insertQuads inserted]) ++
      (if removed = [] then [] else [.removeQuads removed])

def evaluateSparqlUpdateWithDiff (s : Store) (update : String) (changelog : Changelog) :
    Except HttpError (Response × Option (List BufferedOp)) × Store :=
  match evaluateSparqlUpdate sv am s update with
  | (.error e, s')  => (.error e, s')
  | (.ok resp, s') =>
    if !changelog.enabled then
      (.ok (resp, none), s')
    else if s.len > maxDiffStoreSize then
      (.ok (resp, some [.sparqlUpdate update]), s')
    else
      (.ok (resp, diffOps sv s.quads s'.quads), s')

-- `drop(changelog.record(..))`
def Server.record (ops : List BufferedOp) (operation : String) (server : Server) : Server :=
  let (_, changelog, store) := server.changelog.record sv am ops operation server.store
  { server with changelog, store }

-- The writing routes are the same with and without validation.
variable (validate : Server → Except HttpError Unit)

def postUpdate (update : String) : Handler := fun server =>
  match evaluateSparqlUpdateWithDiff sv am server.store update server.changelog with
  | (.error e, store)        => (.error e, { server with store })
  | (.ok (resp, ops), store) =>
    let server := { server with store }
    match validate server with
    | .error e => (.error e, server)
    | .ok ()   =>
      match ops with
      | none     => (.ok resp, server)
      | some ops => (.ok resp, server.record sv am ops "update")

def postStore (format : RdfFormat) (body : Bytes) : Handler := fun server =>
  let quads := sv.parseOk format body
  match sv.loadFromReader am format body server.store with
  | (.error e, store) => (.error (internalServerError e), { server with store })
  | (.ok (), store)   =>
    let server := { server with store }
    match validate server with
    | .error e => (.error e, server)
    | .ok ()   =>
      if server.changelog.enabled ∧ quads ≠ [] then
        (.ok noContent, server.record sv am [.insertQuads quads] "store")
      else
        (.ok noContent, server)

def commitTransaction (txnId : String) : Handler := fun server =>
  match server.registry.commit sv am txnId server.store with
  | (.error e, registry, store)   => (.error e.toHttp, { server with registry, store })
  | (.ok result, registry, store) =>
    let server := { server with registry, store }
    let server := if server.changelog.enabled then
      server.record sv am result.ops "transaction" else server
    let body := "\x7b\"committed\":true,\"transaction_id\":\"" ++ result.txnId ++ "\"\x7d"
    (.ok (jsonResponse 200 [("X-Transaction-Id", result.txnId)] body), server)

def undoEntry (id : UInt64) : Handler := fun server =>
  match server.changelog.undo sv am id server.store with
  | (.error e, changelog, store)         => (.error e.toHttp, { server with changelog, store })
  | (.ok undoneEntry, changelog, store) =>
    (.ok (jsonResponse 200 [("X-Transaction-Id", toString undoneEntry.id)]
      (undoneEntry.toDetailJson sv)), { server with changelog, store })

def purgeChangelog : Handler := fun server =>
  match server.changelog.purge sv am server.store with
  | (.error e, store)   => (.error e.toHttp, { server with store })
  | (.ok count, store) =>
    (.ok (jsonResponse 200 [] ("\x7b\"purged\":" ++ toString count ++ "\x7d")),
      { server with store })

end Write

section Routes

variable (sv : Services) (am : Ambient) (cfg : Config) (request : Request)

-- A change of the registry, with the response to it.
def Server.updateRegistry
    (f : TransactionRegistry → Except TransactionError α × TransactionRegistry)
    (respond : α → Response) : Handler := fun server =>
  match f server.registry with
  | (.error e, registry) => (.error e.toHttp, { server with registry })
  | (.ok a, registry)    => (.ok (respond a), { server with registry })

def handleTransactionRoutes (rest : String) : Handler :=
  if rest = "" ∧ request.method = "POST" then
    .after (request.checkWriteAuth cfg.writeKey) fun _ server =>
      let (txnId, registry) := server.registry.begin am
      (.ok (jsonResponse 201 [("Location", "/transactions/" ++ txnId)]
        ("\x7b\"transaction_id\":\"" ++ txnId ++ "\"\x7d")), { server with registry })
  else
    let rest := (stripPrefix "/" rest).getD rest
    let (txnId, action) := (splitOnce '/' rest).getD (rest, "")
    if txnId = "" then
      .answer <| .error <| badRequest "Missing transaction ID"
    else
      match action, request.method with
      | "add", "PUT" =>
        .after (do
          request.checkWriteAuth cfg.writeKey
          return (← request.requireFormat sv, ← request.limitedBody)) fun (format, body) =>
            Server.updateRegistry (·.add sv am txnId format body) fun count =>
              jsonResponse 200 [] ("\x7b\"added\":" ++ toString count ++ "\x7d")
      | "remove", "PUT" =>
        .after (do
          request.checkWriteAuth cfg.writeKey
          return (← request.requireFormat sv, ← request.limitedBody)) fun (format, body) =>
            Server.updateRegistry (·.remove sv am txnId format body) fun count =>
              jsonResponse 200 [] ("\x7b\"removed\":" ++ toString count ++ "\x7d")
      | "query", "POST" =>
        .after (request.limitedStringBody sv) fun sparql server =>
          match server.registry.query sv am txnId server.store sparql with
          | .error e  => (.error e.toHttp, server)
          | .ok result =>
            (.ok ⟨200, [("Content-Type", "application/sparql-results+json")], result⟩, server)
      | "update", "POST" =>
        .after (do
          request.checkWriteAuth cfg.writeKey
          request.limitedStringBody sv) fun sparql =>
            Server.updateRegistry (·.update am txnId sparql) fun _ => noContent
      | "commit", "PUT" =>
        .after (request.checkWriteAuth cfg.writeKey) fun _ => commitTransaction sv am txnId
      | "", "DELETE" =>
        .after (request.checkWriteAuth cfg.writeKey) fun _ =>
          Server.updateRegistry (·.rollback txnId) fun _ => noContent
      | _, method =>
        .answer <| .error (404, "Not found: " ++ method ++ " /transactions/" ++ rest)

-- `url_query_parameter(..).and_then(|v| v.parse().ok()).unwrap_or(default)`
def numberParameter (param : String) (default : ℕ) : ℕ :=
  let params := sv.parseForm (SmallString.strBytes request.queryString)
  (((params.find? (·.1 = param)).bind fun (_, v) => parseU64 v).map UInt64.toNat).getD default

def handleChangelogRoutes (rest : String) : Handler :=
  if rest = "" ∧ request.method = "GET" then fun server =>
    let offset := numberParameter sv request "offset" 0
    let limit := numberParameter sv request "limit" 20
    match server.changelog.list sv server.store offset limit with
    | .error e    => (.error e.toHttp, server)
    | .ok entries =>
      let body := "\x7b\"entries\":[" ++ ",".intercalate (entries.map (·.toListJson)) ++ "]\x7d"
      (.ok (jsonResponse 200 [] body), server)
  else if rest = "" ∧ request.method = "DELETE" then
    .after (request.checkWriteAuth cfg.writeKey) fun _ => purgeChangelog sv am
  else
    let rest := (stripPrefix "/" rest).getD rest
    let (idStr, action) := (splitOnce '/' rest).getD (rest, "")
    match parseU64 idStr with
    | none    => .answer <| .error <| badRequest <| "Invalid changelog ID: " ++ idStr
    | some id =>
      match action, request.method with
      | "", "GET" => fun server =>
        match server.changelog.get sv server.store id with
        | .error e          => (.error e.toHttp, server)
        | .ok none          => (.error (404, "Changelog entry not found"), server)
        | .ok (some target) => (.ok (jsonResponse 200 [] (target.toDetailJson sv)), server)
      | "undo", "POST" =>
        .after (request.checkWriteAuth cfg.writeKey) fun _ => undoEntry sv am id
      | _, method =>
        .answer <| .error (404, "Not found: " ++ method ++ " /changelog/" ++ rest)

-- The routes for SPARQL updates and graph uploads.
def handleUpdate (validate : Server → Except HttpError Unit) : Handler :=
  .after (do
    request.checkWriteAuth cfg.writeKey
    request.updateText sv) <| postUpdate sv am validate

def handleStore (validate : Server → Except HttpError Unit) : Handler :=
  .after (do
    request.checkWriteAuth cfg.writeKey
    return (← request.requireFormat sv, ← request.limitedBodyWithMax cfg.maxUploadSize))
      fun (format, body) => postStore sv am validate format body

-- What the routes answer that only look at the request and at the store.
variable (reads : Request → Store → Except HttpError Response)

def handleRequestCore : Handler :=
  match stripPrefix "/transactions" request.path with
  | some rest => handleTransactionRoutes sv am cfg request rest
  | none =>
    match stripPrefix "/changelog" request.path with
    | some rest => handleChangelogRoutes sv am cfg request rest
    | none =>
      match request.path, request.method with
      | "/update", "POST" => handleUpdate sv am cfg request fun _ => .ok ()
      | "/store", "POST"  => handleStore sv am cfg request fun _ => .ok ()
      | _, _              => fun server => (reads request server.store, server)

def handleShaclUploadShapes : Handler :=
  .after (do
    request.checkWriteAuth cfg.writeKey
    let turtle ← request.limitedStringBody sv
    (sv.compileShapes turtle).mapError fun e =>
      badRequest <| "Failed to compile shapes: " ++ e.toMessage) fun shapes server =>
        let body :=
          "\x7b\"loaded\": true, \"shape_count\": " ++ toString shapes.shapeCount ++ "\x7d"
        (.ok (jsonResponse 201 [] body),
          { server with validator := { server.validator with shapes := some shapes } })

def handleShaclGetShapes : Handler := fun server =>
  let (loaded, count) := match server.validator.shapes with
    | some shapes => (true, shapes.shapeCount)
    | none        => (false, 0)
  let body :=
    "\x7b\"loaded\": " ++ toString loaded ++ ", \"shape_count\": " ++ toString count ++ "\x7d"
  (.ok (jsonResponse 200 [] body), server)

def handleShaclDeleteShapes : Handler :=
  .after (request.checkWriteAuth cfg.writeKey) fun _ server =>
    (.ok noContent, { server with validator := .new server.validator.mode })

def handleShaclValidate : Handler := fun server =>
  if server.validator.shapes.isNone then
    (.error (badRequest "No SHACL shapes loaded. Upload shapes first via POST /shacl/shapes"),
      server)
  else
    match server.validator.validate sv server.store with
    | .error e             => (.error (internalServerError e.toMessage), server)
    | .ok .skipped         =>
      (.ok (jsonResponse 200 [] "\x7b\"conforms\": null, \"skipped\": true\x7d"), server)
    | .ok .passed          =>
      (.ok (jsonResponse 200 [] "\x7b\"conforms\": true, \"results_count\": 0\x7d"), server)
    | .ok (.failed report) => (.ok (jsonResponse 200 [] report.json), server)

def handleShaclGetMode : Handler := fun server =>
  (.ok (jsonResponse 200 [] ("\x7b\"mode\": \"" ++ server.validator.mode.toStr ++ "\"\x7d")),
    server)

def handleShaclSetMode : Handler :=
  .after (do
    request.checkWriteAuth cfg.writeKey
    let parts := (← request.limitedStringBody sv).splitOn "\""
    let modeStr ← match (parts.dropWhile (· ≠ "mode"))[2]? with
      | some modeStr => .ok modeStr
      | none         => .error <| badRequest <|
        "Expected JSON body with \"mode\" field, e.g. \x7b\"mode\": \"enforce\"\x7d"
    match modeStr with
    | "off"     => .ok ShaclMode.off
    | "warn"    => .ok .warn
    | "enforce" => .ok .enforce
    | other     => .error <| badRequest <|
      "Invalid mode: \"" ++ other ++ "\". Must be one of: off, warn, enforce") fun mode server =>
        (.ok (jsonResponse 200 [] ("\x7b\"mode\": \"" ++ mode.toStr ++ "\"\x7d")),
          { server with validator := { server.validator with mode } })

def handleRequest : Handler :=
  match request.path, request.method with
  | "/shacl/shapes", "POST"   => handleShaclUploadShapes sv cfg request
  | "/shacl/shapes", "GET"    => handleShaclGetShapes
  | "/shacl/shapes", "DELETE" => handleShaclDeleteShapes cfg request
  | "/shacl/validate", "POST" => handleShaclValidate sv
  | "/shacl/mode", "GET"      => handleShaclGetMode
  | "/shacl/mode", "PUT"      => handleShaclSetMode sv cfg request
  | "/update", "POST" =>
    handleUpdate sv am cfg request fun server => server.validator.validateAfterWrite sv server.store
  | "/store", "POST" =>
    handleStore sv am cfg request fun server => server.validator.validateAfterWrite sv server.store
  | _, _ => handleRequestCore sv am cfg request reads

end Routes
