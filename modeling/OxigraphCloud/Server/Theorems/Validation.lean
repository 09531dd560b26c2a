import OxigraphCloud.Server.Theorems.Undo

-- The computation does not end with the status code for a failed validation.
def NeverRejects (x : Except HttpError α) : Prop := ∀ message, x ≠ .error (422, message)

namespace NeverRejects

theorem bind {x : Except HttpError α} {f : α → Except HttpError β} (hx : NeverRejects x)
    (hf : ∀ a, NeverRejects (f a)) : NeverRejects (x >>= f) := by
  cases x
  case error e => exact fun message h => hx message <| congrArg Except.error <| Except.error.inj h
  case ok a => exact hf a

theorem pure (a : α) : NeverRejects (Pure.pure a) := nofun

variable {sv : Services} {request : Request}

theorem readToEnd {body : Body} : NeverRejects body.readToEnd := by
  intro message
  rw [Body.readToEnd]
  repeat' split
  all_goals simp [internalServerError]

theorem limitedBodyWithMax : NeverRejects (request.limitedBodyWithMax maxSize) := by
  rw [Request.limitedBodyWithMax, Body.limitedWithMax]
  split
  case h_1 =>
    split
    case isTrue =>
      intro message
      simp [badRequest]
    case isFalse =>
      split
      case isTrue => exact readToEnd
      case isFalse =>
        intro message
        simp [internalServerError]
  case h_2 =>
    apply readToEnd.bind
    intro payload message
    split <;> simp [badRequest]

theorem limitedStringBody : NeverRejects (request.limitedStringBody sv) := by
  apply limitedBodyWithMax.bind
  intro body message
  split <;> simp [badRequest]

theorem checkWriteAuth : NeverRejects (request.checkWriteAuth writeKey) := by
  intro message
  simp only [Request.checkWriteAuth]
  repeat' split
  all_goals simp

theorem requireContentType : NeverRejects request.requireContentType := by
  intro message
  rw [Request.requireContentType]
  split <;> simp [badRequest]

theorem requireFormat : NeverRejects (request.requireFormat sv) := by
  apply requireContentType.bind
  intro ct message
  split <;> simp [unsupportedMediaType]

theorem updateText : NeverRejects (request.updateText sv) := by
  apply requireContentType.bind
  intro ct
  split
  case isTrue => exact limitedStringBody
  case isFalse =>
    split
    case isTrue =>
      apply limitedBodyWithMax.bind
      intro body message
      split <;> simp [badRequest]
    case isFalse =>
      intro message
      simp [unsupportedMediaType]

end NeverRejects

theorem Handler.after_rejected {x : Except HttpError α} {f : α → Handler} (hx : NeverRejects x)
    (h : Handler.after x f server = (.error (422, message), server')) :
    ∃ a, x = .ok a ∧ f a server = (.error (422, message), server') := by
  cases x
  case error e =>
    exact absurd (congrArg Except.error <| Except.error.inj (Prod.mk.inj h).left) (hx message)
  case ok a => exact ⟨a, rfl, h⟩

section Validation

variable {sv : Services} {am : Ambient} {cfg : Config} {request : Request}
  {reads : Request → Store → Except HttpError Response} {server server' : Server}
  {validate : Server → Except HttpError Unit}

theorem handleRequest_update (hp : request.path = "/update") (hm : request.method = "POST") :
    handleRequest sv am cfg request reads = handleUpdate sv am cfg request fun server =>
      server.validator.validateAfterWrite sv server.store := by
  simp [handleRequest, hp, hm]

theorem handleRequest_store (hp : request.path = "/store") (hm : request.method = "POST") :
    handleRequest sv am cfg request reads = handleStore sv am cfg request fun server =>
      server.validator.validateAfterWrite sv server.store := by
  simp [handleRequest, hp, hm]

-- An update fails before it writes anything or is committed. The last conjunct is about what is
-- left for the changelog.
theorem evaluateSparqlUpdateWithDiff_cases (sv : Services) (am : Ambient) (s : Store)
    (update : String) (c : Changelog) :
    (∃ e, evaluateSparqlUpdateWithDiff sv am s update c = (.error (badRequest e), s)) ∨
    (∃ e, evaluateSparqlUpdateWithDiff sv am s update c = (.error (internalServerError e), s)) ∨
    ∃ u s' ops, sv.parseUpdate update = .ok u ∧ u.onStore s s = .ok s' ∧
      evaluateSparqlUpdateWithDiff sv am s update c = (.ok (noContent, ops), s') ∧
      (c.enabled = false → ops = none) := by
  rw [evaluateSparqlUpdateWithDiff, evaluateSparqlUpdate]
  rcases sv.parseUpdate update with e | u
  case error => exact .inl ⟨e, rfl⟩
  case ok =>
    right
    obtain ⟨e, h⟩ | ⟨s', h, hs⟩ := s.transact_cases (am.faults .write) id (u.onStore s)
    · exact .inl ⟨e, by simp only [h]⟩
    · right
      simp only [h]
      cases c.enabled
      case false => exact ⟨u, s', _, rfl, hs, rfl, fun _ => rfl⟩
      case true =>
        by_cases hl : s.len > maxDiffStoreSize
        case pos => exact ⟨u, s', _, rfl, hs, by simp [hl]; rfl, nofun⟩
        case neg => exact ⟨u, s', _, rfl, hs, by simp [hl]; rfl, nofun⟩

-- If an update is rejected then what it has written stays.
theorem postUpdate_rejected
    (h : postUpdate sv am validate update server = (.error (422, message), server')) :
    ∃ u s', sv.parseUpdate update = .ok u ∧ u.onStore server.store server.store = .ok s' ∧
      server' = { server with store := s' } := by
  rw [postUpdate] at h
  obtain ⟨_, he⟩ | ⟨_, he⟩ | ⟨u, s', _, hu, hs, he, _⟩ :=
    evaluateSparqlUpdateWithDiff_cases sv am server.store update server.changelog
  all_goals simp only [he] at h
  case inl => simp [badRequest] at h
  case inr.inl => simp [internalServerError] at h
  case inr.inr =>
    refine ⟨u, s', hu, hs, ?_⟩
    split at h
    case h_1 => exact (Prod.mk.inj h).right.symm
    case h_2 => split at h <;> simp at h

theorem postStore_rejected
    (h : postStore sv am validate format body server = (.error (422, message), server')) :
    server' = { server with store :=
      server.store.insertAll ((sv.parseOk format body).map (·.rename am.names)) } := by
  rw [postStore] at h
  rcases hl : sv.loadFromReader am format body server.store with ⟨_ | _, s'⟩
  all_goals simp only [hl] at h
  case error => simp [internalServerError] at h
  case ok =>
    rw [← Services.loadFromReader_ok hl]
    split at h
    case h_1 => exact (Prod.mk.inj h).right.symm
    case h_2 => split at h <;> simp at h

-- The write that the request asks for changes nothing.
def Request.Idle (sv : Services) (am : Ambient) (cfg : Config) (request : Request) (s : Store) :
    Prop :=
  (request.path = "/update" → ∀ text u, request.updateText sv = .ok text →
    sv.parseUpdate text = .ok u → u.onStore s s = .ok s) ∧
  (request.path = "/store" → ∀ format body, request.requireFormat sv = .ok format →
    request.limitedBodyWithMax cfg.maxUploadSize = .ok body → ∀ q ∈ sv.parseOk format body,
      q.rename am.names ∈ s.quads ∧ ∀ g ∈ (q.rename am.names).graphName.toNode, g ∈ s.namedGraphs)

-- The first letter is forbidden.
def strictServer (s : Store) : Server where
  store     := s
  registry  := .new 60
  changelog := .new true 0
  validator := ⟨.enforce, some ⟨"a", 1⟩⟩

def sampleConfig : Config where
  maxUploadSize := 10
  writeKey      := none

def upload (body : Bytes) : Request where
  method        := "POST"
  path          := "/store"
  queryString   := ""
  authorization := none
  contentType   := some "application/n-quads"
  body          := ⟨some body.length, body, none⟩

def noReads (_ : Request) (_ : Store) : Except HttpError Response := .ok noContent

theorem validate_letters (shapes : CompiledShapes) (s : Store) :
    letterServices.validate shapes (letterServices.serializeStoreToNtriples s) =
      .ok ⟨((letterServices.parseOk .nQuads (SmallString.strBytes shapes.schema)).all fun quad =>
        ∀ q ∈ s.quads, (q.subject, q.predicate, q.object) ≠
          (quad.subject, quad.predicate, quad.object)), ""⟩ := by
  refine congrArg (fun conforms => Except.ok (ValidationReport.mk conforms "")) ?_
  refine congrArg (List.all _) (funext fun quad => ?_)
  simp [Services.serializeStoreToNtriples, letterServices.mem_scan]

theorem upload_rejected (reads : Request → Store → Except HttpError Response) (s : Store) :
    handleRequest letterServices .plain sampleConfig (upload [98, 97]) reads (strictServer s) =
      (.error (422, ""), strictServer ((s.insert (letterQuad 'b')).insert (letterQuad 'a'))) := by
  rw [handleRequest_store rfl rfl]
  have hv : (strictServer s).validator.validateAfterWrite letterServices
      ((s.insert (letterQuad 'b')).insert (letterQuad 'a')) = .error (422, "") := by
    have ho : letterServices.parseOk .nQuads (SmallString.strBytes "a") = [letterQuad 'a'] := rfl
    simp [strictServer, ShaclValidator.validateAfterWrite, ShaclValidator.validate,
      validate_letters, ho, bind, Except.bind, pure, Except.pure]
  have hl : letterServices.loadFromReader .plain .nQuads [98, 97] (strictServer s).store =
      (.ok (), (s.insert (letterQuad 'b')).insert (letterQuad 'a')) := rfl
  have ha : (upload [98, 97]).checkWriteAuth sampleConfig.writeKey = .ok () := rfl
  have hf : (upload [98, 97]).requireFormat letterServices = .ok .nQuads := rfl
  have hb : (upload [98, 97]).limitedBodyWithMax sampleConfig.maxUploadSize = .ok [98, 97] := rfl
  simp only [handleStore, ha, hf, hb, Handler.after, bind, Except.bind, pure, Except.pure,
    postStore, hl, hv]
  rfl

end Validation
