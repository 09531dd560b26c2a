import OxigraphCloud.Server.Routes
import OxigraphCloud.Server.Theorems.Changelog

namespace Services

variable {sv : Services}

theorem foldlM_insertParsed {items : List (Except String Rdf.Quad)}
    (h : items.foldlM (insertParsed names) s = .ok s') :
    s' = s.insertAll ((items.filterMap Except.toOption).map (·.rename names)) := by
  induction items generalizing s
  case nil => exact (Except.ok.inj h).symm
  case cons item items hi =>
    cases item
    case error => contradiction
    case ok => exact hi h

-- A document is loaded as a whole or not at all.
theorem loadFromReader_ok (h : sv.loadFromReader am format body s = (.ok (), s')) :
    s' = s.insertAll ((sv.parseOk format body).map (·.rename am.names)) :=
  foldlM_insertParsed <| Store.transact_of_ok h

end Services

theorem Changelog.mem_undo_of_outside {c : Changelog} {id : UInt64}
    (hg : c.get sv s id = .ok (some e))
    (hu : e.undoable) (hf : (am.faults .write).isNone)
    (hq : q.graphName ≠ .namedNode changelogGraph) :
    q ∈ (c.undo sv am id s).2.2.quads ↔ q ∉ e.inserted ∧ (q ∈ e.removed ∨ q ∈ s.quads) := by
  have ht : s.transact (am.faults .write) ChangelogError.internal
      (fun s => .ok <| (s.insertAll e.removed).removeAll e.inserted) = (.ok (), _) :=
    Store.transact_of_isNone hf rfl
  simp only [undo, hg, hu, Bool.not_true, Bool.false_eq_true, if_false, ht,
    mem_record_of_outside hq, Store.mem_removeAll, Store.mem_insertAll]

theorem undoEntry_store {id : UInt64} : (undoEntry sv am id server).2.store =
    (server.changelog.undo sv am id server.store).2.2 := by
  rw [undoEntry]
  split <;> rename_i h <;> rw [h]

-- The requests that the changelog can undo.
inductive WriteRequest
  | commit (txnId : String)
  | store (format : RdfFormat) (body : Bytes)

namespace WriteRequest

variable (sv : Services) (am : Ambient) (validate : Server → Except HttpError Unit)

def handle : WriteRequest → Handler
  | commit txnId      => commitTransaction sv am txnId
  | store format body => postStore sv am validate format body

-- The entry that the request records.
def recorded (server : Server) : WriteRequest → Option ChangelogEntry
  | commit txnId =>
    match server.registry.commit sv am txnId server.store with
    | (.error _, _, _)     => none
    | (.ok result, _, s)   =>
      (server.changelog.record sv am result.ops "transaction" s).1.toOption
  | store format body =>
    match sv.loadFromReader am format body server.store with
    | (.error _, _) => none
    | (.ok (), s)   =>
      match validate { server with store := s } with
      | .error _ => none
      | .ok ()   =>
        if sv.parseOk format body = [] then none else
          (server.changelog.record sv am
            [.insertQuads (sv.parseOk format body)] "store" s).1.toOption

-- What the request makes of the store before the entry is recorded.
inductive Writes (server : Server) : WriteRequest → List BufferedOp → Store → Prop
  | commit : server.registry.commit sv am txnId server.store = (.ok result, r, s) →
      Writes server (.commit txnId) result.ops s
  | store : sv.loadFromReader am format body server.store = (.ok (), s) →
      Writes server (.store format body) [.insertQuads (sv.parseOk format body)] s

variable {sv am validate} {server : Server} {request : WriteRequest} {e : ChangelogEntry}

theorem writes_of_recorded (h : request.recorded sv am validate server = some e) :
    ∃ ops operation s, Writes sv am server request ops s ∧
      server.changelog.record sv am ops operation s =
        (.ok e, (request.handle sv am validate server).2.changelog,
          (request.handle sv am validate server).2.store) := by
  cases request
  case commit txnId =>
    rcases hc : server.registry.commit sv am txnId server.store with ⟨_ | result, r, s⟩
    all_goals simp only [recorded, hc, reduceCtorEq] at h
    rcases hr : server.changelog.record sv am result.ops "transaction" s with ⟨_ | _, c', s'⟩
    all_goals rw [hr] at h; cases h
    refine ⟨_, "transaction", s, .commit hc, ?_⟩
    simp [handle, commitTransaction, hc, Server.record, hr, (Changelog.record_ok hr).left]
  case store format body =>
    rcases hl : sv.loadFromReader am format body server.store with ⟨_ | _, s⟩
    all_goals simp only [recorded, hl, reduceCtorEq] at h
    rcases hv : validate { server with store := s } with _ | _
    all_goals simp only [hv, reduceCtorEq] at h
    split at h
    case isTrue => contradiction
    case isFalse hn =>
      rcases hr :
        server.changelog.record sv am [.insertQuads (sv.parseOk format body)] "store" s with
        ⟨_ | _, c', s'⟩
      all_goals rw [hr] at h; cases h
      refine ⟨_, "store", s, .store hl, ?_⟩
      simp [handle, postStore, hl, hv, hn, Server.record, hr, (Changelog.record_ok hr).left]

-- No quad is inserted that was there before, none is removed that was not there, and no blank node
-- gets a new name.
def Reversible (am : Ambient) (server : Server) (e : ChangelogEntry) (request : WriteRequest) :
    Prop :=
  (∀ q ∈ e.inserted, q.graphName ≠ .namedNode changelogGraph → q ∉ server.store.quads) ∧
  match request with
  | commit _  => ∀ q ∈ e.removed, q.graphName ≠ .namedNode changelogGraph →
    q ∉ e.inserted → q ∈ server.store.quads
  | store _ _ => ∀ q ∈ e.inserted, (q.rename am.names).graphName ≠ .namedNode changelogGraph →
    q.rename am.names ∉ e.inserted → q.rename am.names ∈ server.store.quads

theorem reversible_iff {ops : List BufferedOp} (hw : Writes sv am server request ops s)
    (hs : ops.any Changelog.isSparqlUpdate = false) (hi : e.inserted = Changelog.insertedOf ops)
    (hd : e.removed = Changelog.removedOf ops) :
    (∀ q : Rdf.Quad, q.graphName ≠ .namedNode changelogGraph →
      (q ∉ e.inserted ∧ (q ∈ e.removed ∨ q ∈ s.quads) ↔ q ∈ server.store.quads)) ↔
    request.Reversible am server e := by
  cases hw
  case commit hc =>
    have hr := TransactionRegistry.commit_ok hc
    have hm {q} := hi ▸ hd ▸ Services.mem_replayed_of_unmentioned (q := q) hs hr
    constructor
    · intro h
      refine ⟨fun q hq hg => ?_, fun q hq hg hn => ?_⟩
      · exact fun hp => ((h q hg).mpr hp).left hq
      · exact (h q hg).mp ⟨hn, .inl hq⟩
    · intro ⟨hp, hp'⟩ q hg
      constructor
      · intro ⟨hn, hq⟩
        by_cases hd : q ∈ e.removed
        case pos => exact hp' q hd hg hn
        case neg => exact (hm hn hd).mp <| hq.resolve_left hd
      · intro hq
        have hn := fun hm => hp q hm hg hq
        exact ⟨hn, or_iff_not_imp_left.mpr fun hd => (hm hn hd).mpr hq⟩
  case store format body hl =>
    have hl := Services.loadFromReader_ok hl
    have hd : e.removed = [] := hd
    have hi : e.inserted = sv.parseOk format body := hi.trans <| by simp [Changelog.insertedOf]
    subst hl
    simp only [Store.mem_insertAll, ← hi, hd, List.mem_map, List.not_mem_nil, false_or]
    constructor
    · intro h
      refine ⟨fun q hq hg => ?_, fun q hq hg hn => ?_⟩
      · exact fun hp => ((h q hg).mpr hp).left hq
      · exact (h _ hg).mp ⟨hn, .inl ⟨q, hq, rfl⟩⟩
    · intro ⟨hp, hp'⟩ q hg
      constructor
      · intro ⟨hn, hq⟩
        cases hq
        case inl hq =>
          obtain ⟨q, hq, rfl⟩ := hq
          exact hp' q hq hg hn
        case inr hq => exact hq
      · exact fun hq => ⟨fun hm => hp q hm hg hq, .inr hq⟩

-- The id of an entry is in use at most once if there was nothing about it before.
theorem get_recorded (h : request.recorded sv am validate server = some e)
    (hn : ∀ ops s, Writes sv am server request ops s → s.about e.id = ∅)
    (hi : sv.reread e.inserted = e.inserted) (hd : sv.reread e.removed = e.removed) :
    (request.handle sv am validate server).2.changelog.get sv
      (request.handle sv am validate server).2.store e.id = .ok (some e) := by
  have ⟨_, _, _, hw, hr⟩ := writes_of_recorded h
  rw [Changelog.get_of_record hr (hn _ _ hw), ChangelogEntry.stored, hi, hd]

def sampleServer (s : Store) : Server where
  store     := s
  registry  := .new 60
  changelog := .new true 0
  validator := .new .off

def sampleRequest : WriteRequest := .store .nQuads [97]

def sampleEntry : ChangelogEntry where
  id        := 1
  timestamp := ""
  operation := "store"
  inserted  := [letterQuad 'a']
  removed   := []
  undoable  := true

theorem recorded_sample (s : Store) : sampleRequest.recorded letterServices .plain
    (fun _ => .ok ()) (sampleServer s) = some sampleEntry := rfl

theorem reread_sample : letterServices.reread [letterQuad 'a'] = [letterQuad 'a'] := rfl

theorem get_sample (hs : ∀ q ∈ s.quads, q.graphName = .defaultGraph) :
    (sampleRequest.handle letterServices .plain (fun _ => .ok ()) (sampleServer s)).2.changelog.get
      letterServices
      (sampleRequest.handle letterServices .plain (fun _ => .ok ()) (sampleServer s)).2.store
      sampleEntry.id = .ok (some sampleEntry) := by
  refine get_recorded (recorded_sample s) (fun ops s' hw => ?_) reread_sample rfl
  rw [sampleRequest] at hw
  cases hw
  case store hl =>
    have hs' := Services.loadFromReader_ok hl
    refine Finset.eq_empty_of_forall_notMem fun q hq => ?_
    have ⟨hq, _, hg⟩ := Changelog.mem_about.mp hq
    rw [hs', Store.mem_insertAll] at hq
    cases hq
    case inl hq =>
      obtain rfl := List.mem_singleton.mp hq
      contradiction
    case inr hq => exact nomatch (hs q hq).symm.trans hg

end WriteRequest
