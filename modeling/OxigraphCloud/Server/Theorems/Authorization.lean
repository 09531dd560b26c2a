import OxigraphCloud.Server.Routes

theorem stripPrefix_eq_some {pre str rest : String} (h : stripPrefix pre str = some rest) :
    str = pre ++ rest := by
  unfold stripPrefix at h
  split at h
  case isFalse => contradiction
  case isTrue hp =>
    have ⟨rest', hr⟩ := List.isPrefixOf_iff_prefix.mp hp
    refine String.toList_injective ?_
    simp [← Option.some.inj h, ← hr]

-- The `Authorization` header neither is the key nor carries it.
structure Request.Unauthorized (request : Request) (key : String) : Prop where
  plain  : request.authorization ≠ some key
  bearer : request.authorization ≠ some ("Bearer " ++ key)

-- The empty key is what a request without the header provides.
theorem Request.Unauthorized.checkWriteAuth {request : Request} {key : String}
    (h : request.Unauthorized key) (hk : key ≠ "") :
    request.checkWriteAuth (some key) =
      .error (401, "Write operations require a valid Authorization: Bearer <key> header") := by
  have hp : (stripPrefix "Bearer " (request.authorization.getD "")).getD
      (request.authorization.getD "") ≠ key := by
    intro he
    cases ha : request.authorization
    case none =>
      rw [ha] at he
      exact hk he.symm
    case some header =>
      rw [ha] at he
      cases hs : stripPrefix "Bearer " header
      case none =>
        simp only [Option.getD_some, hs, Option.getD_none] at he
        exact h.plain <| ha.trans <| he ▸ rfl
      case some rest =>
        simp only [Option.getD_some, hs] at he
        exact h.bearer <| ha.trans <| by rw [stripPrefix_eq_some hs, he]
  simp only [Request.checkWriteAuth, if_neg hp]

namespace Handler

-- The handler leaves the server as it is.
def Keeps (handler : Handler) : Prop := ∀ server, (handler server).2 = server

theorem keeps_answer : (answer response).Keeps := fun _ => rfl

theorem keeps_after_error {x : Except HttpError α} {f : α → Handler} (h : x = .error e) :
    (after x f).Keeps := by
  subst h
  exact fun _ => rfl

-- Nothing of what follows a failed authorization check is done.
theorem keeps_after_bind {auth : Except HttpError Unit} {x : Except HttpError α} {f : α → Handler}
    (h : auth = .error e) : (after (auth >>= fun _ => x) f).Keeps := by
  subst h
  exact keeps_after_error rfl

theorem keeps_after {x : Except HttpError α} {f : α → Handler} (h : ∀ a, (f a).Keeps) :
    (after x f).Keeps := by
  intro server
  cases x
  case error => rfl
  case ok a => exact h a server

end Handler

open Handler

section Routes

variable {sv : Services} {am : Ambient} {cfg : Config} {request : Request}
  {reads : Request → Store → Except HttpError Response}
  (h : request.checkWriteAuth cfg.writeKey = .error e)

include h

theorem handleTransactionRoutes_keeps :
    (handleTransactionRoutes sv am cfg request rest).Keeps := by
  unfold handleTransactionRoutes
  split
  case isTrue => exact keeps_after_error h
  case isFalse =>
    dsimp only
    generalize (splitOnce '/' _).getD _ = parts
    rcases parts with ⟨txnId, action⟩
    split
    case isTrue => exact keeps_answer
    case isFalse =>
      split
      case h_3 =>
        refine keeps_after fun sparql server => ?_
        dsimp only
        split <;> rfl
      case h_7 => exact keeps_answer
      all_goals first | exact keeps_after_error h | exact keeps_after_bind h

theorem handleChangelogRoutes_keeps :
    (handleChangelogRoutes sv am cfg request rest).Keeps := by
  unfold handleChangelogRoutes
  split
  case isTrue =>
    intro server
    dsimp only
    split <;> rfl
  case isFalse =>
    split
    case isTrue => exact keeps_after_error h
    case isFalse =>
      dsimp only
      generalize (splitOnce '/' _).getD _ = parts
      rcases parts with ⟨idStr, action⟩
      split
      case h_1 => exact keeps_answer
      case h_2 =>
        split
        case h_1 =>
          intro server
          dsimp only
          split <;> rfl
        case h_2 => exact keeps_after_error h
        case h_3 => exact keeps_answer

theorem handleUpdate_keeps {validate : Server → Except HttpError Unit} :
    (handleUpdate sv am cfg request validate).Keeps :=
  keeps_after_bind h

theorem handleStore_keeps {validate : Server → Except HttpError Unit} :
    (handleStore sv am cfg request validate).Keeps :=
  keeps_after_bind h

theorem handleRequestCore_keeps : (handleRequestCore sv am cfg request reads).Keeps := by
  unfold handleRequestCore
  split
  case h_1 => exact handleTransactionRoutes_keeps h
  case h_2 =>
    split
    case h_1 => exact handleChangelogRoutes_keeps h
    case h_2 =>
      split
      case h_1 => exact handleUpdate_keeps h
      case h_2 => exact handleStore_keeps h
      case h_3 => exact fun _ => rfl

omit h in
theorem handleShaclValidate_keeps : (handleShaclValidate sv).Keeps := by
  intro server
  unfold handleShaclValidate
  split
  case isTrue => rfl
  case isFalse => split <;> rfl

theorem handleRequest_keeps : (handleRequest sv am cfg request reads).Keeps := by
  unfold handleRequest
  split
  case h_1 => exact keeps_after_bind h
  case h_2 => exact fun _ => rfl
  case h_3 => exact keeps_after_error h
  case h_4 => exact handleShaclValidate_keeps
  case h_5 => exact fun _ => rfl
  case h_6 => exact keeps_after_bind h
  case h_7 => exact handleUpdate_keeps h
  case h_8 => exact handleStore_keeps h
  case h_9 => exact handleRequestCore_keeps h

end Routes

-- A request that begins a transaction without saying who sent it.
def anonymousBegin : Request where
  method        := "POST"
  path          := "/transactions"
  queryString   := ""
  authorization := none
  contentType   := none
  body          := { length := none, content := [], readError := none }

def freshServer : Server where
  store     := .empty
  registry  := .new 0
  changelog := .new false 0
  validator := .new .off

theorem anonymousBegin_core : (handleRequestCore .plain .plain ⟨0, some ""⟩ anonymousBegin
    (fun _ _ => .ok noContent) freshServer).2.registry.txns.lookup "" = some ⟨[], 0⟩ := by
  have hp : stripPrefix "/transactions" anonymousBegin.path = some "" := by decide
  have ha : anonymousBegin.checkWriteAuth (some "") = .ok () := by decide
  have hm : "" = "" ∧ anonymousBegin.method = "POST" := ⟨rfl, rfl⟩
  rw [handleRequestCore, hp]
  dsimp only
  rw [handleTransactionRoutes, if_pos hm, ha]
  exact Finmap.lookup_insert _

-- Without the key nothing can be changed, unless the key is empty.
theorem unauthorized_keeps_iff (key : String) :
    (∀ (sv : Services) (am : Ambient) (cfg : Config) (request : Request)
      (reads : Request → Store → Except HttpError Response),
      cfg.writeKey = some key → request.Unauthorized key →
      (handleRequest sv am cfg request reads).Keeps ∧
      (handleRequestCore sv am cfg request reads).Keeps) ↔ key ≠ "" where
  mp h hk := by
    subst hk
    have hc := (h .plain .plain ⟨0, some ""⟩ anonymousBegin (fun _ _ => .ok noContent) rfl
      ⟨nofun, nofun⟩).right freshServer
    have hl := anonymousBegin_core
    rw [hc] at hl
    contradiction
  mpr hk sv am cfg request reads hc hu :=
    have ha := hc ▸ hu.checkWriteAuth hk
    ⟨handleRequest_keeps ha, handleRequestCore_keeps ha⟩

theorem unauthorized_changes :
    anonymousBegin.Unauthorized "" ∧ (handleRequest .plain .plain ⟨0, some ""⟩ anonymousBegin
      (fun _ _ => .ok noContent) freshServer).2 ≠ freshServer := by
  refine ⟨⟨nofun, nofun⟩, fun he => ?_⟩
  have hr : handleRequest .plain .plain ⟨0, some ""⟩ anonymousBegin (fun _ _ => .ok noContent) =
      handleRequestCore .plain .plain ⟨0, some ""⟩ anonymousBegin (fun _ _ => .ok noContent) := rfl
  have hl := anonymousBegin_core
  rw [← hr, he] at hl
  contradiction

theorem unauthorized_keeps_sample : (handleRequest .plain .plain ⟨0, some "secret"⟩ anonymousBegin
    (fun _ _ => .ok noContent)).Keeps :=
  (unauthorized_keeps_iff "secret").mpr (by decide) .plain .plain ⟨0, some "secret"⟩ anonymousBegin
    (fun _ _ => .ok noContent) rfl ⟨nofun, nofun⟩ |>.left
