import OxigraphCloud.Server.Cleanup
import OxigraphCloud.Server.Theorems.Transactions

namespace TransactionRegistry

variable {sv : Services} {r : TransactionRegistry} {txnId : String}

-- Everything that a call can do to the registry.
inductive Call.Effect (now : ℕ) (r : TransactionRegistry) (call : Call) (runs : Bool) :
    TransactionRegistry → Prop
  | none : (runs = true → call.isQuery ∧ call.txnId ∈ r.txns) → Effect now r call runs r
  | refresh : runs = true → call.isRefresh →
      Effect now r call runs { r with txns := r.txns.insert call.txnId ⟨ops, now⟩ }
  | discard : Effect now r call runs (r.discard call.txnId)

theorem push_effect (am : Ambient) (call : Call) (op : BufferedOp) (hr : call.isRefresh)
    (hid : call.txnId = txnId) :
    call.Effect am.now r (r.txns.lookup txnId).isSome (r.push am txnId op).2 := by
  subst hid
  rw [push]
  rcases r.txns.lookup call.txnId with - | txn
  case none => exact .none nofun
  case some => exact .refresh rfl hr

theorem pushParsed_effect (am : Ambient) (call : Call) (op : List Rdf.Quad → BufferedOp)
    (hr : call.isRefresh) (hid : call.txnId = txnId) : call.Effect am.now r
      (((sv.parse format body).mapM id).isOk && (r.txns.lookup txnId).isSome)
      (r.pushParsed sv am txnId format body op).2 := by
  rw [pushParsed]
  rcases (sv.parse format body).mapM id with e | quads
  case error => exact .none nofun
  case ok =>
    have he := push_effect am call (r := r) (op quads) hr hid
    simp only
    rcases hp : r.push am txnId (op quads) with ⟨_ | _, r'⟩ <;> rw [hp] at he <;> exact he

theorem Call.effect (sv : Services) (now : ℕ) (s : Store) (r : TransactionRegistry) (call : Call) :
    call.Effect now r (call.runs sv r) (call.apply sv now s r) := by
  cases call
  case begin => exact .refresh rfl rfl
  case add => exact pushParsed_effect { Ambient.plain with now } _ .insertQuads rfl rfl
  case remove => exact pushParsed_effect { Ambient.plain with now } _ .removeQuads rfl rfl
  case update sparql =>
    exact push_effect { Ambient.plain with now } _ (.sparqlUpdate sparql) rfl rfl
  case query => exact .none fun h => ⟨rfl, Finmap.lookup_isSome.mp h⟩
  case commit txnId =>
    simp only [apply, runs]
    rcases h : r.txns.lookup txnId with - | active
    case none =>
      simp only [TransactionRegistry.commit, h]
      exact .none fun h => by cases h
    case some =>
      obtain ⟨_, hc⟩ | ⟨_, _, hc⟩ := commit_of_lookup sv { Ambient.plain with now } s h <;>
        rw [hc] <;> exact .discard
  case rollback txnId =>
    simp only [apply, TransactionRegistry.rollback, runs]
    rcases r.txns.lookup txnId with - | active
    case none => exact .none fun h => by cases h
    case some => exact .discard

namespace Cleanup

section Uninterrupted

variable {c : Cleanup} {txnIds : List String}

theorem run_check : Run.run (step sv) c (txnIds.map .check) =
    { c with expired := (txnIds.filter (c.registry.isExpired c.now)).reverse ++ c.expired } := by
  induction txnIds generalizing c
  case nil => rfl
  case cons txnId txnIds hi =>
    rw [List.map_cons, Run.run_cons, hi, step]
    by_cases h : c.registry.isExpired c.now txnId <;> simp [h]

theorem run_discard (hn : txnIds.Nodup) (he : txnIds ⊆ c.expired) :
    (Run.run (step sv) c (txnIds.map .discard)).registry =
      txnIds.foldl TransactionRegistry.discard c.registry := by
  induction txnIds generalizing c
  case nil => rfl
  case cons txnId txnIds hi =>
    have ⟨hm, hn⟩ := List.nodup_cons.mp hn
    have ⟨h, he⟩ := List.cons_subset.mp he
    rw [List.map_cons, Run.run_cons, hi hn, List.foldl_cons] <;>
      simp only [step, if_pos h]
    intro txnId' ht
    have hi : txnId' ≠ txnId := by rintro rfl; exact hm ht
    exact (List.mem_erase_of_ne hi).mpr <| he ht

-- Without any calls in between, the accesses are the two loops of `cleanup_expired`.
theorem run_cleanupExpired (hn : txnIds.Nodup) :
    (Run.run (step sv) c <| txnIds.map .check ++
      (txnIds.filter (c.registry.isExpired c.now)).map .discard).registry =
      (c.registry.cleanupExpired c.now txnIds).2 := by
  rw [Run.run_append, run_check, run_discard (hn.filter _)]
  · rfl
  · exact fun _ h => List.mem_append_left _ <| List.mem_reverse.mpr h

-- The first transaction has been idle for longer than the timeout.
noncomputable def twoTransactions : Cleanup :=
  Run.run (step .plain) (initial 1) [.call (.begin "1") .empty, .wait 2, .call (.begin "2") .empty]

theorem run_cleanupExpired_sample :
    let c := Run.run (step .plain) twoTransactions (["2", "1"].map .check ++
      (["2", "1"].filter (twoTransactions.registry.isExpired twoTransactions.now)).map .discard)
    c.registry = (twoTransactions.registry.cleanupExpired twoTransactions.now ["2", "1"]).2 ∧
      "1" ∈ twoTransactions.registry.txns ∧ "1" ∉ c.registry.txns ∧ "2" ∈ c.registry.txns := by
  intro c
  have h : c.registry = _ := run_cleanupExpired (by decide)
  exact ⟨h, by decide, by rw [h]; decide, by rw [h]; decide⟩

end Uninterrupted

-- A transaction in the registry has seen nothing after its last activity, and those that are about
-- to be discarded have seen nothing for longer than the timeout.
structure Invariant (c : Cleanup) : Prop where
  past   : ∀ {txnId t}, (txnId, t) ∈ c.activity → t ≤ c.now
  active : ∀ {txnId txn t}, c.registry.txns.lookup txnId = some txn → (txnId, t) ∈ c.activity →
    t ≤ txn.lastActive
  known  : ∀ {txnId}, txnId ∈ c.expired → ∃ t, (txnId, t) ∈ c.activity
  begun  : ∀ {txnId}, txnId ∈ c.registry.txns → ∃ t, (txnId, t) ∈ c.activity
  old    : ∀ {txnId t}, txnId ∈ c.expired → txnId ∈ c.registry.txns → (txnId, t) ∈ c.activity →
    t + c.registry.timeout < c.now

theorem invariant_initial (timeout : ℕ) : (initial timeout).Invariant where
  past   := nofun
  active := nofun
  known  := nofun
  begun  := fun h => absurd h Finmap.notMem_empty
  old    := nofun

variable {c : Cleanup}

theorem Invariant.wait (h : c.Invariant) : (c.step sv (.wait duration)).Invariant where
  past ht        := (h.past ht).trans <| Nat.le_add_right _ _
  active         := h.active
  known          := h.known
  begun          := h.begun
  old he hr ht   := (h.old he hr ht).trans_le <| Nat.le_add_right _ _

theorem Invariant.check (h : c.Invariant) : (c.step sv (.check txnId)).Invariant := by
  rw [step]
  split
  case isFalse => exact h
  case isTrue he =>
    rw [isExpired] at he
    split at he
    case h_1 => contradiction
    case h_2 txn hl =>
      have hn := h.begun <| Finmap.mem_of_lookup_eq_some hl
      refine ⟨h.past, h.active, ?_, h.begun, ?_⟩
      · intro _ hm
        cases hm
        case head => exact hn
        case tail hm => exact h.known hm
      · intro _ t hm hr ht
        cases hm
        case head =>
          have := h.active hl ht
          have := of_decide_eq_true he
          simp only
          omega
        case tail hm => exact h.old hm hr ht

-- A transaction leaves the registry, maybe because of a call that got to it.
theorem Invariant.drop {expired : List String} {activity : List (String × ℕ)} (h : c.Invariant)
    (he : expired ⊆ c.expired) (hs : c.activity ⊆ activity)
    (ha : ∀ {txnId' t}, (txnId', t) ∈ activity →
      txnId' = txnId ∧ t = c.now ∨ (txnId', t) ∈ c.activity) :
    Invariant { c with registry := c.registry.discard txnId, expired, activity } where
  past ht := by
    obtain ⟨_, rfl⟩ | ht := ha ht
    · exact le_rfl
    · exact h.past ht
  active hl ht := by
    have hn := (Finmap.mem_erase.mp <| Finmap.mem_of_lookup_eq_some hl).left
    obtain ⟨hi, _⟩ | ht := ha ht
    · contradiction
    · exact h.active ((Finmap.lookup_erase_ne hn).symm.trans hl) ht
  known hm := by
    have ⟨t, ht⟩ := h.known (he hm)
    exact ⟨t, hs ht⟩
  begun hm := by
    have ⟨t, ht⟩ := h.begun (Finmap.mem_erase.mp hm).right
    exact ⟨t, hs ht⟩
  old hm hr ht := by
    have ⟨hn, hr⟩ := Finmap.mem_erase.mp hr
    obtain ⟨hi, _⟩ | ht := ha ht
    · contradiction
    · exact h.old (he hm) hr ht

theorem Invariant.refresh (h : c.Invariant) (hn : txnId ∉ c.expired) : Invariant { c with
    registry := { c.registry with txns := c.registry.txns.insert txnId ⟨ops, c.now⟩ }
    activity := (txnId, c.now) :: c.activity } where
  past ht := by
    cases ht
    case head => exact le_rfl
    case tail ht => exact h.past ht
  active {txnId' txn t} hl ht := by
    by_cases hi : txnId' = txnId
    case pos =>
      rw [hi, Finmap.lookup_insert] at hl
      cases hl
      cases ht
      case head => exact le_rfl
      case tail ht => exact h.past ht
    case neg =>
      rw [Finmap.lookup_insert_of_ne _ hi] at hl
      cases ht
      case head => contradiction
      case tail ht => exact h.active hl ht
  known hm := by
    have ⟨t, ht⟩ := h.known hm
    exact ⟨t, .tail _ ht⟩
  begun hm := by
    obtain rfl | hm := Finmap.mem_insert.mp hm
    · exact ⟨c.now, .head _⟩
    · have ⟨t, ht⟩ := h.begun hm
      exact ⟨t, .tail _ ht⟩
  old hm hr ht := by
    obtain rfl | hr := Finmap.mem_insert.mp hr
    · contradiction
    · cases ht
      case head => contradiction
      case tail ht => exact h.old hm hr ht

theorem Invariant.discard (h : c.Invariant) : (c.step sv (.discard txnId)).Invariant := by
  rw [step]
  split
  case isFalse => exact h
  case isTrue => exact h.drop List.erase_subset (List.Subset.refl _) .inr

theorem Invariant.call {call : Call} (h : c.Invariant) (hp : c.Possible (.call call s))
    (hc : c.Calm (.call call s)) : (c.step sv (.call call s)).Invariant := by
  have he := call.effect sv c.now s c.registry
  rw [step]
  generalize call.runs sv c.registry = runs at *
  generalize call.apply sv c.now s c.registry = r' at *
  cases he
  case none hq =>
    -- No query gets to its transaction.
    have hr : runs = false := by
      by_contra hr
      have ⟨hq, hm⟩ := hq <| Bool.of_not_eq_false hr
      cases call <;> simp only [Call.isQuery, Bool.false_eq_true] at hq
      exact hc hm
    subst hr
    exact h
  case refresh hr hf =>
    subst hr
    apply h.refresh
    cases call <;> simp only [Call.isRefresh, Bool.false_eq_true] at hf <;> try exact hc
    case begin =>
      intro hm
      have ⟨t, ht⟩ := h.known hm
      exact hp t ht
  case discard =>
    refine h.drop (List.Subset.refl _) ?_ ?_ <;> cases runs
    case refine_1.false => exact List.Subset.refl _
    case refine_1.true => exact List.subset_cons_self _ _
    case refine_2.false => exact .inr
    case refine_2.true => simp

theorem Invariant.step {event : Event} (h : c.Invariant) (hp : c.Possible event)
    (hc : c.Calm event) : (c.step sv event).Invariant := by
  cases event
  case wait => exact h.wait
  case call => exact h.call hp hc
  case check => exact h.check
  case discard => exact h.discard

theorem Invariant.discardsOld {event : Event} (h : c.Invariant) : c.DiscardsOld event := by
  cases event <;> try trivial
  exact fun he hr _ ht => h.old he hr ht

-- Cleaning up never discards a transaction with recent activity, as long as there are no queries
-- and nobody comes in between the check and the removal.
theorem discardsOld_of_calm (sv : Services) (timeout : ℕ) (events : List Event)
    (hp : Run.Along (step sv) Possible (initial timeout) events)
    (hc : Run.Along (step sv) Calm (initial timeout) events) :
    Run.Along (step sv) DiscardsOld (initial timeout) events :=
  Run.Along.of_invariant (invariant_initial timeout) (hp.and hc)
    (fun h ⟨hp, hc⟩ => h.step hp hc) fun h _ => h.discardsOld

theorem discardsOld_sample : Run.Along (step .plain) DiscardsOld (initial 1)
    [.call (.begin "1") .empty, .wait 2, .check "1", .discard "1"] := by
  apply discardsOld_of_calm <;> simp [Run.Along, Possible, Calm, initial]

def queryEvents : List Event :=
  [.call (.begin "1") .empty, .wait 1, .call (.query "1" "ASK") .empty, .wait 1, .check "1",
    .discard "1"]

-- A query does not count as activity.
theorem discards_queried : Run.Along (step .plain) Possible (initial 1) queryEvents ∧
    ¬Run.Along (step .plain) DiscardsOld (initial 1) queryEvents := by
  refine ⟨by simp [queryEvents, Run.Along, Possible, initial], fun ⟨_, _, _, _, _, h, _⟩ => ?_⟩
  simp [DiscardsOld, step, initial, Call.apply, Call.runs, TransactionRegistry.begin, new,
    isExpired, Call.txnId] at h

end Cleanup

end TransactionRegistry
