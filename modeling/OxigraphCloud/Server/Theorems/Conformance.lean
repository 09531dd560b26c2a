import OxigraphCloud.Primitives.Run
import OxigraphCloud.Server.Theorems.Authorization
import OxigraphCloud.Server.Theorems.Validation

-- What the requests write, whatever they are answered, and when this conforms to the shapes.

inductive Write
  | update (text : String)
  | store (format : RdfFormat) (body : Bytes)
  | commit (txnId : String)
  | undo (id : UInt64)
  | purge

-- The transaction or the entry that a path is about, and what is to be done with it.
def pathParts (rest : String) : String × String :=
  let rest := (stripPrefix "/" rest).getD rest
  (splitOnce '/' rest).getD (rest, "")

def Request.transactionWrite (request : Request) (rest : String) : Option Write :=
  match pathParts rest with
  | (txnId, action) => if txnId ≠ "" ∧ action = "commit" ∧ request.method = "PUT" then
      some (.commit txnId) else none

def Request.changelogWrite (request : Request) (rest : String) : Option Write :=
  if rest = "" ∧ request.method = "DELETE" then
    some .purge
  else
    match pathParts rest with
    | (idStr, action) => if action = "undo" ∧ request.method = "POST" then
        (parseU64 idStr).map .undo else none

def Request.coreWrite (request : Request) : Option Write :=
  match stripPrefix "/transactions" request.path, stripPrefix "/changelog" request.path with
  | some rest, _    => request.transactionWrite rest
  | none, some rest => request.changelogWrite rest
  | none, none      => none

-- The write that a request asks for.
def Request.write (sv : Services) (cfg : Config) (request : Request) : Option Write :=
  match request.checkWriteAuth cfg.writeKey with
  | .error _ => none
  | .ok ()   =>
    match request.path, request.method with
    | "/update", "POST" => (request.updateText sv).toOption.map .update
    | "/store", "POST"  =>
      (request.requireFormat sv).toOption.bind fun format =>
        (request.limitedBodyWithMax cfg.maxUploadSize).toOption.map (.store format)
    | _, _ => request.coreWrite

-- The store after an entry has been recorded and old ones have been removed.
def Changelog.logged (c : Changelog) (sv : Services) (am : Ambient) (ops : List BufferedOp)
    (operation : String) (s : Store) : Store :=
  if c.enabled ∧ (am.faults .entry).isNone then
    let s := s.insertAll ((c.entry am ops operation).quads sv)
    if 0 < c.retain ∧ c.retain < c.counter ∧ (am.faults .prune).isNone then
      s.removeAll <| (oldSubjects sv s (c.counter - c.retain)).flatMap fun node =>
        sv.scan (s.changelogQuads (some node) none)
    else
      s
  else
    s

namespace Write

variable (sv : Services) (am : Ambient) (server : Server)

-- Only these are validated.
def isValidated : Write → Bool
  | update _ | store _ _ => true
  | _                    => false

-- What the transaction of the write makes of the store.
def body : Write → Option Store
  | update text =>
    (sv.parseUpdate text).toOption.bind fun u => (u.onStore server.store server.store).toOption
  | store format body =>
    ((sv.parse format body).foldlM (Services.insertParsed am.names) server.store).toOption
  | commit txnId =>
    (server.registry.txns.lookup txnId).bind fun txn => (sv.replayOps txn.ops server.store).toOption
  | undo id =>
    match server.changelog.get sv server.store id with
    | .ok (some target) => if target.undoable then
        some <| (server.store.insertAll target.removed).removeAll target.inserted else none
    | _ => none
  | purge => if server.changelog.enabled then
      some <| server.store.removeAll (sv.scan (server.store.changelogQuads none none)) else none

def committed (write : Write) : Option Store :=
  if (am.faults .write).isNone then write.body sv am server else none

-- The store with the changelog entry of the write that leads to `s`.
def recorded (s : Store) : Write → Store
  | update text =>
    match if server.store.len > maxDiffStoreSize then some [.sparqlUpdate text]
      else diffOps sv server.store.quads s.quads with
    | some ops => server.changelog.logged sv am ops "update" s
    | none     => s
  | store format body =>
    if sv.parseOk format body = [] then s
    else server.changelog.logged sv am [.insertQuads (sv.parseOk format body)] "store" s
  | commit txnId =>
    match server.registry.txns.lookup txnId with
    | some txn => server.changelog.logged sv am txn.ops "transaction" s
    | none     => s
  | undo id =>
    match server.changelog.get sv server.store id with
    | .ok (some target) => server.changelog.logged sv am
        [.insertQuads target.removed, .removeQuads target.inserted] ("undo:" ++ toString id) s
    | _ => s
  | purge => s

-- Nothing is taken back if the validation fails, but then nothing is recorded.
def result (write : Write) : Store :=
  match write.committed sv am server with
  | none   => server.store
  | some s =>
    if write.isValidated → (server.validator.validateAfterWrite sv s).isOk then
      write.recorded sv am server s
    else
      s

end Write

section Result

variable {sv : Services} {am : Ambient} {server : Server}

theorem Write.transact_cases (sv : Services) (am : Ambient) (server : Server) (write : Write)
    (storageError : String → ε) (body : Store → Except ε Store)
    (hb : write.body sv am server = (body server.store).toOption) :
    (∃ e, server.store.transact (am.faults .write) storageError body = (.error e, server.store) ∧
      write.committed sv am server = none) ∨
    ∃ s, server.store.transact (am.faults .write) storageError body = (.ok (), s) ∧
      write.committed sv am server = some s := by
  rw [committed, hb]
  rcases am.faults .write with ⟨_ | _, _ | _⟩ <;> cases h : body server.store <;>
    simp [Store.transact, h, Faults.isNone, Except.toOption]

theorem Changelog.prune_store (sv : Services) (am : Ambient) (c : Changelog) (id : UInt64)
    (s : Store) : (c.prune sv am id s).2 =
    if c.retain < id ∧ (am.faults .prune).isNone then
      s.removeAll <| (oldSubjects sv s (id - c.retain)).flatMap fun node =>
        sv.scan (s.changelogQuads (some node) none)
    else s := by
  rw [prune]
  split
  case isTrue h => simp [UInt64.not_lt.mpr h]
  case isFalse h =>
    split
    case h_1 hs => simp [hs, Store.removeAll]
    case h_2 =>
      rcases am.faults .prune with ⟨_ | _, _ | _⟩ <;>
        simp [UInt64.not_le.mp h, Store.transact, Faults.isNone]

theorem Changelog.record_store {c : Changelog} {s : Store} :
    (c.record sv am ops operation s).2.2 = c.logged sv am ops operation s := by
  rw [logged]
  by_cases he : c.enabled
  case neg => simp [record, he]
  case pos =>
    by_cases hf : (am.faults .entry).isNone
    case neg =>
      obtain ⟨_, ht⟩ : ∃ e, s.transact (am.faults .entry) ChangelogError.internal
          (fun s => .ok <| s.insertAll ((c.entry am ops operation).quads sv)) = (.error e, s) :=
        Store.transact_of_not_isNone (Bool.of_not_eq_true hf)
      simp [record, writeEntryToStore, ht, he, hf]
    case pos =>
      have ht : s.transact (am.faults .entry) ChangelogError.internal
        (fun s => .ok <| s.insertAll ((c.entry am ops operation).quads sv)) = (.ok (), _) :=
        Store.transact_of_isNone hf rfl
      have hp := prune_store sv am { c with counter := c.counter + 1 } c.counter
        (s.insertAll ((c.entry am ops operation).quads sv))
      by_cases hr : 0 < c.retain
      case neg => simp [record, writeEntryToStore, ht, he, hf, hr]
      case pos =>
        simp only [record, writeEntryToStore, ht, he, hf, hr, Bool.not_true, Bool.false_eq_true,
          if_false, if_true, and_self, true_and] at hp ⊢
        rw [← hp, show (c.entry am ops operation).id = c.counter from rfl]
        generalize prune _ _ _ _ _ = pruned
        rcases pruned with ⟨_ | _, _⟩ <;> rfl

@[simp]
theorem Changelog.logged_of_disabled {c : Changelog} {s : Store} (h : c.enabled = false) :
    c.logged sv am ops operation s = s := by
  simp [logged, h]

theorem Server.record_validator :
    (server.record sv am ops operation).validator = server.validator := rfl

theorem Server.record_store : (server.record sv am ops operation).store =
    server.changelog.logged sv am ops operation server.store :=
  Changelog.record_store

end Result

-- The handler keeps the mode and the shapes and performs the write.
def Handler.Performs (sv : Services) (am : Ambient) (write : Option Write) (f : Handler) : Prop :=
  ∀ server, (f server).2.validator = server.validator ∧
    (f server).2.store = write.elim server.store (·.result sv am server)

section Performs

open Handler (Performs)

variable {sv : Services} {am : Ambient} {cfg : Config} {request : Request}
  {reads : Request → Store → Except HttpError Response}

theorem Handler.Keeps.performs {f : Handler} (h : f.Keeps) : f.Performs sv am none :=
  fun server => by simp [h server]

theorem Handler.Performs.after {f : α → Handler} (h : ∀ a, (f a).Performs sv am none) :
    (Handler.after x f).Performs sv am none := by
  intro server
  cases x
  case error => exact ⟨rfl, rfl⟩
  case ok a => exact h a server

theorem updateRegistry_performs : (Server.updateRegistry f respond).Performs sv am none := by
  intro server
  rw [Server.updateRegistry]
  split <;> exact ⟨rfl, rfl⟩

theorem postUpdate_performs : (postUpdate sv am
    (fun server => server.validator.validateAfterWrite sv server.store) text).Performs sv am
      (some (.update text)) := by
  intro server
  rcases hp : sv.parseUpdate text with _ | u
  case error =>
    simp [postUpdate, evaluateSparqlUpdateWithDiff, evaluateSparqlUpdate, hp, Write.result,
      Write.committed, Write.body, Except.toOption]
  case ok =>
    obtain ⟨_, ht, hc⟩ | ⟨s, ht, hc⟩ := Write.transact_cases sv am server (.update text) id
      (u.onStore server.store) (by simp [Write.body, hp, Except.toOption])
    all_goals simp only [postUpdate, evaluateSparqlUpdateWithDiff, evaluateSparqlUpdate, hp, ht,
      Option.elim_some, Write.result, hc]
    case inl => simp
    case inr =>
      rcases he : server.changelog.enabled <;> by_cases hl : server.store.len > maxDiffStoreSize <;>
        rcases hd : diffOps sv server.store.quads s.quads <;>
        rcases hv : server.validator.validateAfterWrite sv s <;>
        simp [he, hl, hd, hv, Write.isValidated, Write.recorded, Except.isOk, Except.toBool,
          Server.record_store, Server.record_validator]

theorem postStore_performs : (postStore sv am
    (fun server => server.validator.validateAfterWrite sv server.store) format body).Performs sv am
      (some (.store format body)) := by
  intro server
  obtain ⟨_, ht, hc⟩ | ⟨s, ht, hc⟩ := Write.transact_cases sv am server (.store format body) id
    (fun s => (sv.parse format body).foldlM (Services.insertParsed am.names) s) rfl
  all_goals simp only [postStore, Services.loadFromReader, ht, Option.elim_some, Write.result, hc]
  case inl => simp
  case inr =>
    rcases he : server.changelog.enabled <;>
      rcases server.validator.validateAfterWrite sv s <;>
      by_cases hq : sv.parseOk format body = [] <;>
      simp [he, hq, Write.isValidated, Write.recorded, Except.isOk, Except.toBool,
        Server.record_store, Server.record_validator]

theorem commitTransaction_performs :
    (commitTransaction sv am txnId).Performs sv am (some (.commit txnId)) := by
  intro server
  rcases hl : server.registry.txns.lookup txnId with _ | txn
  case none =>
    simp [commitTransaction, TransactionRegistry.commit, hl, Write.result, Write.committed,
      Write.body]
  case some =>
    obtain ⟨_, ht, hc⟩ | ⟨s, ht, hc⟩ := Write.transact_cases sv am server (.commit txnId)
      TransactionError.storage (sv.replayOps txn.ops) (by simp [Write.body, hl])
    all_goals simp only [commitTransaction, TransactionRegistry.commit, hl, ht, Option.elim_some,
      Write.result, hc]
    case inl => simp
    case inr =>
      rcases he : server.changelog.enabled <;> simp [he, hl, Write.isValidated, Write.recorded,
        Server.record_store, Server.record_validator]

theorem undoEntry_performs {id : UInt64} :
    (undoEntry sv am id).Performs sv am (some (.undo id)) := by
  intro server
  refine ⟨by rw [undoEntry]; split <;> rfl, ?_⟩
  rw [undoEntry_store]
  rcases hg : server.changelog.get sv server.store id with _ | _ | target
  case ok.some =>
    rcases hu : target.undoable
    case false => simp [Changelog.undo, hg, hu, Write.result, Write.committed, Write.body]
    case true =>
      obtain ⟨_, ht, hc⟩ | ⟨s, ht, hc⟩ := Write.transact_cases sv am server (.undo id)
        ChangelogError.internal
        (fun s => .ok <| (s.insertAll target.removed).removeAll target.inserted)
        (by simp [Write.body, hg, hu, Except.toOption])
      all_goals simp [Changelog.undo, hg, hu, ht, Write.result, hc, Write.isValidated,
        Write.recorded, Changelog.record_store]
  all_goals simp [Changelog.undo, hg, Write.result, Write.committed, Write.body]

theorem purgeChangelog_performs : (purgeChangelog sv am).Performs sv am (some .purge) := by
  intro server
  rcases he : server.changelog.enabled
  case false =>
    simp [purgeChangelog, Changelog.purge, he, Write.result, Write.committed, Write.body]
  case true =>
    obtain ⟨_, ht, hc⟩ | ⟨s, ht, hc⟩ := Write.transact_cases sv am server .purge
      ChangelogError.internal
      (fun s => .ok <| s.removeAll (sv.scan (server.store.changelogQuads none none)))
      (by simp [Write.body, he, Except.toOption])
    all_goals simp [purgeChangelog, Changelog.purge, he, ht, Write.result, hc, Write.isValidated,
      Write.recorded]

section Authorized

variable (h : request.checkWriteAuth cfg.writeKey = .ok ())

include h

theorem handleTransactionRoutes_performs (hw : request.transactionWrite rest = write) :
    (handleTransactionRoutes sv am cfg request rest).Performs sv am write := by
  unfold handleTransactionRoutes
  rw [Request.transactionWrite, pathParts] at hw
  dsimp only at hw ⊢
  generalize (splitOnce '/' _).getD _ = parts at hw ⊢
  rcases parts with ⟨txnId, action⟩
  dsimp only at hw ⊢
  split
  case isTrue hr =>
    rw [if_neg (by simp [hr.right])] at hw
    subst hw
    exact .after fun _ _ => ⟨rfl, rfl⟩
  case isFalse =>
    split
    case isTrue ht =>
      rw [if_neg (by simp [ht])] at hw
      subst hw
      exact Handler.keeps_answer.performs
    case isFalse ht =>
      split
      case h_5 hm =>
        rw [if_pos ⟨ht, rfl, hm⟩] at hw
        subst hw
        rw [h]
        exact commitTransaction_performs
      case h_7 hn _ =>
        rw [if_neg fun ⟨_, ha, hm⟩ => hn ha hm] at hw
        subst hw
        exact Handler.keeps_answer.performs
      case h_3 =>
        rw [if_neg (by simp)] at hw
        subst hw
        refine .after fun _ server => ?_
        split <;> exact ⟨rfl, rfl⟩
      all_goals
        rw [if_neg (by simp)] at hw
        subst hw
        exact .after fun _ => updateRegistry_performs

theorem handleChangelogRoutes_performs (hw : request.changelogWrite rest = write) :
    (handleChangelogRoutes sv am cfg request rest).Performs sv am write := by
  unfold handleChangelogRoutes
  rw [Request.changelogWrite, pathParts] at hw
  dsimp only at hw ⊢
  generalize (splitOnce '/' _).getD _ = parts at hw ⊢
  rcases parts with ⟨idStr, action⟩
  dsimp only at hw ⊢
  split
  case isTrue hr =>
    have hn : ¬(rest = "" ∧ request.method = "DELETE") := by simp [hr.right]
    rw [if_neg hn, if_neg (by simp [hr.right])] at hw
    subst hw
    intro server
    dsimp only
    split <;> exact ⟨rfl, rfl⟩
  case isFalse =>
    split
    case isTrue hr =>
      rw [if_pos hr] at hw
      subst hw
      rw [h]
      exact purgeChangelog_performs
    case isFalse hr =>
      rw [if_neg hr] at hw
      split
      case h_1 hi =>
        rw [hi, Option.map_none, ite_self] at hw
        subst hw
        exact Handler.keeps_answer.performs
      case h_2 id hi =>
        rw [hi] at hw
        split
        case h_1 =>
          rw [if_neg (by simp)] at hw
          subst hw
          intro server
          dsimp only
          split <;> exact ⟨rfl, rfl⟩
        case h_2 hm =>
          rw [if_pos ⟨rfl, hm⟩] at hw
          subst hw
          rw [h]
          exact undoEntry_performs
        case h_3 hn =>
          rw [if_neg fun ⟨ha, hm⟩ => hn ha hm] at hw
          subst hw
          exact Handler.keeps_answer.performs

end Authorized

-- The requests that upload or delete shapes or set the mode.
def Request.setsValidator (request : Request) : Bool :=
  (request.path, request.method) ∈
    [("/shacl/shapes", "POST"), ("/shacl/shapes", "DELETE"), ("/shacl/mode", "PUT")]

theorem handleRequestCore_performs (h : request.checkWriteAuth cfg.writeKey = .ok ())
    (hu : request.path = "/update" → request.method = "POST" → False)
    (hs : request.path = "/store" → request.method = "POST" → False) :
    (handleRequestCore sv am cfg request reads).Performs sv am request.coreWrite := by
  unfold handleRequestCore Request.coreWrite
  cases stripPrefix "/transactions" request.path
  case some => exact handleTransactionRoutes_performs h rfl
  case none =>
    cases stripPrefix "/changelog" request.path
    case some => exact handleChangelogRoutes_performs h rfl
    case none =>
      dsimp only
      split
      case h_1 hp hm => exact (hu hp hm).elim
      case h_2 hp hm => exact (hs hp hm).elim
      case h_3 => exact fun _ => ⟨rfl, rfl⟩

theorem handleRequest_performs (hs : request.setsValidator = false) :
    (handleRequest sv am cfg request reads).Performs sv am (request.write sv cfg) := by
  rcases h : request.checkWriteAuth cfg.writeKey with _ | _
  case error =>
    rw [Request.write, h]
    exact (handleRequest_keeps h).performs
  case ok =>
    rw [Request.write, h]
    dsimp only
    split
    case h_1 hp hm =>
      rw [handleRequest_update hp hm, handleUpdate, h]
      cases request.updateText sv
      case error => exact fun _ => ⟨rfl, rfl⟩
      case ok => exact postUpdate_performs
    case h_2 hp hm =>
      rw [handleRequest_store hp hm, handleStore, h]
      cases request.requireFormat sv
      case error => exact fun _ => ⟨rfl, rfl⟩
      case ok =>
        cases request.limitedBodyWithMax cfg.maxUploadSize
        case error => exact fun _ => ⟨rfl, rfl⟩
        case ok => exact postStore_performs
    case h_3 hu hu' =>
      unfold handleRequest
      split
      case h_1 hp hm => simp [Request.setsValidator, hp, hm] at hs
      case h_3 hp hm => simp [Request.setsValidator, hp, hm] at hs
      case h_6 hp hm => simp [Request.setsValidator, hp, hm] at hs
      case h_7 hp hm => exact (hu hp hm).elim
      case h_8 hp hm => exact (hu' hp hm).elim
      case h_9 => exact handleRequestCore_performs h hu hu'
      all_goals
        rename_i hp _
        rw [show request.coreWrite = none by simp [Request.coreWrite, hp, stripPrefix]]
      case h_4 => exact handleShaclValidate_keeps.performs
      all_goals exact fun _ => ⟨rfl, rfl⟩

end Performs

namespace ShaclValidator

variable {sv : Services} {shapes : CompiledShapes} {s : Store}

def Conforms (sv : Services) (shapes : CompiledShapes) (s : Store) : Prop :=
  ∃ report, sv.validate shapes (sv.serializeStoreToNtriples s) = .ok report ∧ report.conforms

theorem validateAfterWrite_isOk_iff :
    ((ShaclValidator.mk .enforce (some shapes)).validateAfterWrite sv s).isOk ↔
      Conforms sv shapes s := by
  rw [Conforms]
  rcases hv : sv.validate shapes (sv.serializeStoreToNtriples s) with _ | report
  case error =>
    simp [validateAfterWrite, validate, hv, bind, Except.bind, Except.isOk, Except.toBool]
  case ok =>
    cases hc : report.conforms <;>
      simp [validateAfterWrite, validate, hv, hc, bind, Except.bind, pure,
      Except.pure, Except.isOk, Except.toBool]

end ShaclValidator

section Conformance

open ShaclValidator (Conforms)

def Server.step (sv : Services) (cfg : Config) (reads : Request → Store → Except HttpError Response)
    (server : Server) : Ambient × Request → Server
  | (am, request) => (handleRequest sv am cfg request reads server).2

-- The shapes and the mode are fixed.
def Server.Fixed (_ : Server) : Ambient × Request → Prop
  | (_, request) => request.setsValidator = false

-- What the request writes conforms to the shapes, and so does the changelog entry for it.
def Server.Guarded (sv : Services) (cfg : Config) (shapes : CompiledShapes) (server : Server) :
    Ambient × Request → Prop
  | (am, request) => ∀ write ∈ request.write sv cfg, ∀ s ∈ write.committed sv am server,
    (write.isValidated → Conforms sv shapes s) ∧ Conforms sv shapes (write.recorded sv am server s)

variable {sv : Services} {cfg : Config} {reads : Request → Store → Except HttpError Response}
  {server : Server} {shapes : CompiledShapes} {call : Ambient × Request}

variable (reads) in
theorem Server.step_conforms_iff (hv : server.validator = ⟨.enforce, some shapes⟩)
    (hc : Conforms sv shapes server.store) (hf : server.Fixed call) :
    Conforms sv shapes (server.step sv cfg reads call).store ↔
      server.Guarded sv cfg shapes call := by
  rcases call with ⟨am, request⟩
  have hp : (server.step sv cfg reads (am, request)).store = _ :=
    (handleRequest_performs hf server).right
  rw [hp, Guarded]
  cases request.write sv cfg
  case none => simp [hc]
  case some write =>
    rcases hw : write.committed sv am server with _ | s
    all_goals simp only [Option.elim_some, Write.result, hw, hv, Option.mem_some_iff, forall_eq',
      ShaclValidator.validateAfterWrite_isOk_iff]
    case none => simp [hc]
    case some =>
      split
      all_goals
        rename_i h
        rw [hv, ShaclValidator.validateAfterWrite_isOk_iff] at h
      case isTrue => rw [and_iff_right h]
      case isFalse => exact ⟨fun hs => absurd (fun _ => hs) h, fun hs => absurd hs.left h⟩

theorem conforms_letters_iff {s : Store} : Conforms letterServices ⟨"a", 1⟩ s ↔ ∀ q ∈ s.quads,
    (q.subject, q.predicate, q.object) ≠
      ((letterQuad 'a').subject, (letterQuad 'a').predicate, (letterQuad 'a').object) := by
  have ho : letterServices.parseOk .nQuads (SmallString.strBytes "a") = [letterQuad 'a'] := rfl
  simp [Conforms, validate_letters, ho]

-- Entries of the changelog have other subjects.
theorem conforms_logged {c : Changelog} {s : Store} (h : Conforms letterServices ⟨"a", 1⟩ s) :
    Conforms letterServices ⟨"a", 1⟩ (c.logged letterServices am ops operation s) := by
  rw [conforms_letters_iff] at h ⊢
  intro q hq
  have hm : q ∈ (c.entry am ops operation).quads letterServices ∨ q ∈ s.quads := by
    rw [Changelog.logged] at hq
    split at hq
    case isFalse => exact .inr hq
    case isTrue =>
      split at hq
      case isFalse => exact Store.mem_insertAll.mp hq
      case isTrue => exact Store.mem_insertAll.mp (Store.mem_removeAll.mp hq).right
  cases hm
  case inr hq => exact h q hq
  case inl hq =>
    have hn (id : String) : "urn:oxigraph:changelog:" ++ id ≠ "http://example.com/a" := by
      simp [← String.toList_inj]
    rw [(ChangelogEntry.mem_quads.mp hq).left]
    exact fun he => hn _ <| Rdf.NamedOrBlankNode.namedNode.inj (Prod.mk.inj he).left

-- The other letters conform.
theorem guarded_letters {request : Request} (write : Write)
    (hc : Conforms letterServices ⟨"a", 1⟩ server.store)
    (hw : request.write letterServices sampleConfig = some write)
    (hq : ∀ s ∈ write.committed letterServices am server, ∀ q ∈ s.quads,
      q ∈ server.store.quads ∨ q ∈ [letterQuad 'b', letterQuad 'c']) :
    server.Guarded letterServices sampleConfig ⟨"a", 1⟩ (am, request) := by
  intro write' hw' s hs
  cases hw.symm.trans hw'
  have hc : Conforms letterServices ⟨"a", 1⟩ s := by
    rw [conforms_letters_iff] at hc ⊢
    intro q hm
    cases hq s hs q hm
    case inl hq => exact hc q hq
    case inr hq => fin_cases hq <;> decide
  refine ⟨fun _ => hc, ?_⟩
  cases write <;> rw [Write.recorded] <;> try split
  all_goals first | exact hc | exact conforms_logged hc

-- A transaction that inserts a letter and removes another one.
def loggingServer : Server :=
  { strictServer (Store.empty.insert (letterQuad 'b')) with
    registry := ⟨Finmap.insert "1" ⟨[.sparqlUpdate "cc", .removeQuads [letterQuad 'b']], 0⟩ ∅, 60⟩ }

def commitRequest : Request := { upload [] with method := "PUT", path := "/transactions/1/commit" }

def purgeRequest : Request := { upload [] with method := "DELETE", path := "/changelog" }

end Conformance
