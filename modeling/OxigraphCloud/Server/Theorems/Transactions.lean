import OxigraphCloud.Server.Theorems.Store

-- The writes of a batch, in their order.
def BufferedOp.writes : BufferedOp → List (Rdf.Quad × Bool)
  | insertQuads quads => quads.map (·, true)
  | removeQuads quads => quads.map (·, false)
  | sparqlUpdate _    => []

namespace Store

variable {s : Store} {quads : List Rdf.Quad}

theorem quads_insertAll : (s.insertAll quads).quads =
    (Delta.ofList (quads.map (·, true))).patch (s.quads : Set Rdf.Quad) := by
  induction quads generalizing s
  case nil => simp [insertAll, Delta.ofList]
  case cons q quads hi =>
    rw [List.map_cons, Delta.ofList, Delta.patch_comp, Delta.patch_single_true, insertAll,
      List.foldl_cons, ← insertAll, hi, insert, Finset.coe_insert]

theorem quads_removeAll : (s.removeAll quads).quads =
    (Delta.ofList (quads.map (·, false))).patch (s.quads : Set Rdf.Quad) := by
  induction quads generalizing s
  case nil => simp [removeAll, Delta.ofList]
  case cons q quads hi =>
    rw [List.map_cons, Delta.ofList, Delta.patch_comp, Delta.patch_single_false, removeAll,
      List.foldl_cons, ← removeAll, hi, remove, Finset.coe_erase]

end Store

namespace Services

open Changelog

variable {sv : Services} {ops : List BufferedOp} {s s' : Store} {q : Rdf.Quad}

theorem mem_writes_true : (q, true) ∈ ops.flatMap BufferedOp.writes ↔ q ∈ insertedOf ops := by
  simp only [List.mem_flatMap, insertedOf]
  apply exists_congr
  intro op
  cases op <;> simp [BufferedOp.writes]

theorem mem_writes_false : (q, false) ∈ ops.flatMap BufferedOp.writes ↔ q ∈ removedOf ops := by
  simp only [List.mem_flatMap, removedOf]
  apply exists_congr
  intro op
  cases op <;> simp [BufferedOp.writes]

theorem replayOps_cons {op : BufferedOp} : sv.replayOps (op :: ops) s =
    match sv.replayOp s op with
    | .ok s'   => sv.replayOps ops s'
    | .error e => .error e := by
  simp only [replayOps, List.foldlM_cons]
  cases sv.replayOp s op <;> rfl

-- Replaying batches cannot fail, and for each quad the last batch with it decides.
theorem replayOps_batches (sv : Services) (s : Store) (h : ops.any isSparqlUpdate = false) :
    ∃ s', sv.replayOps ops s = .ok s' ∧
      s'.quads = (Delta.ofList (ops.flatMap BufferedOp.writes)).patch (s.quads : Set Rdf.Quad) := by
  induction ops generalizing s
  case nil => exact ⟨s, rfl, by simp [Delta.ofList]⟩
  case cons op ops hi =>
    rw [List.any_cons, Bool.or_eq_false_iff] at h
    simp only [replayOps_cons, List.flatMap_cons, Delta.ofList_append, Delta.patch_comp]
    cases op
    case insertQuads quads =>
      simpa [replayOp, BufferedOp.writes, ← Store.quads_insertAll]
        using hi (s.insertAll quads) h.right
    case removeQuads quads =>
      simpa [replayOp, BufferedOp.writes, ← Store.quads_removeAll]
        using hi (s.removeAll quads) h.right
    case sparqlUpdate => simp [isSparqlUpdate] at h

section Batches

variable (h : ops.any isSparqlUpdate = false) (hr : sv.replayOps ops s = .ok s')

include h hr

theorem mem_replayed_iff : q ∈ s'.quads ↔
    Delta.ofList (ops.flatMap BufferedOp.writes) q = some true ∨
    (q ∉ insertedOf ops ∧ q ∉ removedOf ops) ∧ q ∈ s.quads := by
  have ⟨_, hr', hq⟩ := replayOps_batches sv s h
  obtain rfl := Except.ok.inj <| hr'.symm.trans hr
  rw [← Finset.mem_coe, hq, Delta.mem_patch, Delta.ofList_eq_none_iff, Bool.forall_bool,
    mem_writes_true, mem_writes_false, and_comm (b := q ∉ insertedOf ops), Finset.mem_coe]

theorem mem_replayed_of_unmentioned (hi : q ∉ insertedOf ops) (hd : q ∉ removedOf ops) :
    q ∈ s'.quads ↔ q ∈ s.quads := by
  rw [mem_replayed_iff h hr, and_iff_right ⟨hi, hd⟩, or_iff_right]
  exact fun hw => hi <| mem_writes_true.mp <| Delta.mem_of_ofList hw

theorem mem_replayed_of_inserted (hi : q ∈ insertedOf ops) (hd : q ∉ removedOf ops) :
    q ∈ s'.quads := by
  rw [mem_replayed_iff h hr]
  left
  rcases hw : Delta.ofList (ops.flatMap BufferedOp.writes) q with - | _ | _
  case none => exact absurd (mem_writes_true.mpr hi) <| Delta.ofList_eq_none_iff.mp hw true
  case some.false => exact absurd (mem_writes_false.mp <| Delta.mem_of_ofList hw) hd
  case some.true => rfl

theorem not_mem_replayed_of_removed (hi : q ∉ insertedOf ops) (hd : q ∈ removedOf ops) :
    q ∉ s'.quads := by
  rw [mem_replayed_iff h hr]
  intro hq
  cases hq
  case inl hw => exact hi <| mem_writes_true.mp <| Delta.mem_of_ofList hw
  case inr hq => exact hq.left.right hd

end Batches

end Services

namespace TransactionRegistry

variable {sv : Services} {am : Ambient} {r r' : TransactionRegistry} {s s' : Store} {txnId : String}

variable (sv am s) in
theorem commit_of_lookup (h : r.txns.lookup txnId = some active) :
    (∃ e, r.commit sv am txnId s = (.error e, r.discard txnId, s)) ∨
    (∃ s', sv.replayOps active.ops s = .ok s' ∧
      r.commit sv am txnId s = (.ok ⟨txnId, active.ops⟩, r.discard txnId, s')) := by
  have ht := s.transact_cases (am.faults .write) .storage (sv.replayOps active.ops)
  simp only [commit, h, discard]
  cases ht
  case inl ht =>
    have ⟨e, ht⟩ := ht
    exact .inl ⟨e, by rw [ht]⟩
  case inr ht =>
    have ⟨s', ht, hr⟩ := ht
    exact .inr ⟨s', hr, by rw [ht]⟩

theorem commit_ok (h : r.commit sv am txnId s = (.ok result, r', s')) :
    sv.replayOps result.ops s = .ok s' := by
  rcases hl : r.txns.lookup txnId with - | active
  case none => simp [commit, hl] at h
  case some =>
    obtain ⟨_, h'⟩ | ⟨_, hr, h'⟩ := commit_of_lookup sv am s hl <;> cases h'.symm.trans h
    exact hr

-- On every error the store is as before, but the transaction has already left the registry.
theorem commit_error_keeps_iff (sv : Services) (am : Ambient) (r : TransactionRegistry) (s : Store)
    (txnId : String) (active : ActiveTransaction) (h : r.txns.lookup txnId = some active) :
    ((∀ e r' s', r.commit sv am txnId s = (.error e, r', s') →
        s' = s ∧ ∃ active', r'.txns.lookup txnId = some active' ∧ active'.ops = active.ops) ↔
      (am.faults .write).isNone ∧ ∃ s', sv.replayOps active.ops s = .ok s') ∧
    ∀ e r' s', r.commit sv am txnId s = (.error e, r', s') →
      s' = s ∧ r'.txns.lookup txnId = none := by
  have hd : (r.discard txnId).txns.lookup txnId = none := r.txns.lookup_erase txnId
  by_cases hr : (am.faults .write).isNone ∧ ∃ s', sv.replayOps active.ops s = .ok s'
  case pos =>
    have ⟨hf, s', hr⟩ := hr
    have hc : r.commit sv am txnId s = (.ok ⟨txnId, active.ops⟩, r.discard txnId, s') := by
      simp only [commit, h, Store.transact_of_isNone hf hr, discard]
    simp [hc, hf, hr]
  case neg =>
    obtain ⟨_, hc⟩ | ⟨s', hs, hc⟩ := commit_of_lookup sv am s h
    · simp [hc, hd, hr]
    · have hf : (am.faults .write).isNone = false := by
        simpa [hs] using hr
      have ⟨_, ht⟩ : ∃ e, s.transact (am.faults .write) TransactionError.storage
          (sv.replayOps active.ops) = (.error e, s) := Store.transact_of_not_isNone hf
      simp [commit, h, ht] at hc

-- One update of the two transactions cannot be parsed.
def sampleRegistry : TransactionRegistry where
  txns    := Finmap.insert "1" ⟨[.insertQuads [letterQuad 'a'], .sparqlUpdate "INSERT"], 0⟩ <|
    Finmap.insert "2" ⟨[.sparqlUpdate "bc", .removeQuads [letterQuad 'a', letterQuad 'c']], 0⟩ ∅
  timeout := 60

theorem lookup_sampleRegistry : sampleRegistry.txns.lookup "1" =
    some ⟨[.insertQuads [letterQuad 'a'], .sparqlUpdate "INSERT"], 0⟩ :=
  Finmap.lookup_insert _

theorem commit_sampleRegistry (s : Store) : ∃ e,
    sampleRegistry.commit letterServices .plain "1" s =
      (.error e, sampleRegistry.discard "1", s) := by
  cases commit_of_lookup letterServices .plain s lookup_sampleRegistry
  case inl h => exact h
  case inr h =>
    have ⟨_, hr, _⟩ := h
    contradiction

theorem commit_error_keeps_sample :
    (∃ e r' s',
      sampleRegistry.commit letterServices .plain "1" (Store.empty.insert (letterQuad 'c')) =
      (.error e, r', s') ∧ s' = Store.empty.insert (letterQuad 'c') ∧ r'.txns.lookup "1" = none) ∧
    ∀ e r' s',
      sampleRegistry.commit letterServices .plain "2" (Store.empty.insert (letterQuad 'a')) =
      (.error e, r', s') → ∃ active', r'.txns.lookup "2" = some active' := by
  have ⟨e, h⟩ := commit_sampleRegistry (Store.empty.insert (letterQuad 'c'))
  refine ⟨⟨e, _, _, h, ?_⟩, fun e r' s' h => ?_⟩
  · exact (commit_error_keeps_iff _ .plain _ _ "1" _ lookup_sampleRegistry).right e _ _ h
  · have hl : sampleRegistry.txns.lookup "2" = some _ :=
      (Finmap.lookup_insert_of_ne _ (by decide)).trans (Finmap.lookup_insert _)
    have hk := (commit_error_keeps_iff letterServices .plain _
      (Store.empty.insert (letterQuad 'a')) "2" _ hl).left.mpr ⟨rfl, _, rfl⟩
    have ⟨active', ha, _⟩ := (hk e r' s' h).right
    exact ⟨active', ha⟩

theorem commit_loses_transaction :
    ∃ e r', sampleRegistry.commit letterServices .plain "1" .empty = (.error e, r', .empty) ∧
      (sampleRegistry.txns.lookup "1").isSome ∧ r'.txns.lookup "1" = none := by
  have ⟨e, h⟩ := commit_sampleRegistry .empty
  exact ⟨e, _, h, by rw [lookup_sampleRegistry]; rfl, Finmap.lookup_erase _ _⟩

end TransactionRegistry
