import OxigraphCloud.Server.Gauge
import OxigraphCloud.Server.Theorems.Transactions

namespace TransactionRegistry

section

variable {sv : Services} {r : TransactionRegistry}

-- The number of transactions.
def size (r : TransactionRegistry) : ℕ := r.txns.keys.card

theorem size_congr {r' : TransactionRegistry} (h : ∀ txnId, txnId ∈ r'.txns ↔ txnId ∈ r.txns) :
    r'.size = r.size :=
  congrArg Finset.card <| Finset.ext fun txnId => by simpa [Finmap.mem_keys] using h txnId

theorem size_discard (h : txnId ∈ r.txns) : (r.discard txnId).size + 1 = r.size := by
  have he : (r.txns.erase txnId).keys = r.txns.keys.erase txnId := Finset.ext fun _ => by
    simp [Finmap.mem_keys]
  rw [size, discard, he, Finset.card_erase_add_one (Finmap.mem_keys.mpr h), size]

theorem size_discard_of_notMem (h : txnId ∉ r.txns) : (r.discard txnId).size = r.size :=
  size_congr fun txnId' => by
    rw [discard, Finmap.mem_erase]
    exact and_iff_right_of_imp fun h' he => h (he ▸ h')

theorem size_begin (am : Ambient) (h : am.uuid ∉ r.txns) : (r.begin am).2.size = r.size + 1 := by
  have hi : (r.txns.insert am.uuid ⟨[], am.now⟩).keys = insert am.uuid r.txns.keys :=
    Finset.ext fun _ => by simp [Finmap.mem_keys]
  rw [size, begin, hi, Finset.card_insert_of_notMem (Finmap.mem_keys.not.mpr h), size]

theorem size_push (am : Ambient) (txnId : String) (op : BufferedOp) :
    (r.push am txnId op).2.size = r.size := by
  rw [push]
  cases h : r.txns.lookup txnId
  case none => rfl
  case some txn =>
    have hm : txnId ∈ r.txns := Finmap.lookup_isSome.mp (by simp [h])
    exact size_congr fun txnId' => by
      rw [Finmap.mem_insert]
      exact or_iff_right_of_imp fun he => he ▸ hm

theorem size_pushParsed (am : Ambient) (op : List Rdf.Quad → BufferedOp) :
    (r.pushParsed sv am txnId format body op).2.size = r.size := by
  rw [pushParsed]
  cases (sv.parse format body).mapM id
  case error => rfl
  case ok quads =>
    have hs := size_push (r := r) am txnId (op quads)
    dsimp only
    rcases hp : r.push am txnId (op quads) with ⟨_ | _, r'⟩ <;> rw [hp] at hs <;> exact hs

end

-- How much the gauge is behind the registry when a call is in this phase.
def Phase.due : Phase → ℤ
  | begun                                 => 1
  | committing _ | ended | removed _      => -1
  | idle | scanning _ _ | removing _      => 0

theorem Phase.due_of_isIdle {phase : Phase} (h : phase.isIdle) : phase.due = 0 := by
  cases phase
  case idle => rfl
  all_goals cases h

namespace Metered

variable {ι : Type} [DecidableEq ι] [Fintype ι] {sv : Services} {m : Metered ι}

-- By how much the gauge will be above the number of transactions when all calls are done.
def excess (m : Metered ι) : ℤ :=
  m.activeTransactions + ∑ i, (m.phases i).due - m.registry.size

theorem sum_due_move (m : Metered ι) (i : ι) (phase : Phase) :
    ∑ j, ((m.move i phase).phases j).due =
      ∑ j, (m.phases j).due + (phase.due - (m.phases i).due) := by
  have hf : (fun j => (Function.update m.phases i phase j).due) =
      Function.update (fun j => (m.phases j).due) i phase.due := by
    funext j
    by_cases h : j = i
    case pos => subst h; simp
    case neg => simp [h]
  have hi := Finset.add_sum_erase Finset.univ (fun j => (m.phases j).due) (Finset.mem_univ i)
  simp only [move]
  rw [hf, Finset.sum_update_of_mem (Finset.mem_univ i), Finset.sdiff_singleton_eq_erase, ← hi]
  ring

-- What a thread does to the gauge and the registry, compared with what its call still has to do.
theorem excess_move (i : ι) (phase : Phase) (gauge : ℤ) (r : TransactionRegistry) (s : Store) :
    excess { m.move i phase with activeTransactions := gauge, registry := r, store := s } =
      m.excess + (gauge - m.activeTransactions) + (phase.due - (m.phases i).due) -
        (r.size - m.registry.size) := by
  have hs := m.sum_due_move i phase
  simp only [excess] at hs ⊢
  rw [hs]
  ring

theorem excess_enter {call : Call} (hi : (m.phases i).isIdle)
    (hp : m.Possible (.call i call)) : (m.enter sv i call).excess = m.excess := by
  have hd := Phase.due_of_isIdle hi
  have hk {r : TransactionRegistry} (hr : r.size = m.registry.size) :
      excess { m with registry := r } = m.excess := by simp [excess, hr]
  cases call
  case begin uuid =>
    have hs := size_begin (r := m.registry) { Ambient.plain with now := m.now, uuid } hp
    refine (excess_move i .begun m.activeTransactions _ m.store).trans ?_
    rw [hd, Call.apply, hs]
    simp [Phase.due]
  case add => exact hk (size_pushParsed ..)
  case remove => exact hk (size_pushParsed ..)
  case update => exact hk (size_push ..)
  case query => rfl
  case commit txnId =>
    rw [enter]
    cases h : m.registry.txns.lookup txnId
    case none => rfl
    case some active =>
      have hs := size_discard <| Finmap.lookup_isSome.mp (Option.isSome_of_eq_some h)
      refine (excess_move i (.committing active) m.activeTransactions _ m.store).trans ?_
      rw [hd, ← hs]
      simp [Phase.due]
  case rollback txnId =>
    rw [enter]
    cases h : m.registry.txns.lookup txnId
    case none => rfl
    case some active =>
      have hs := size_discard <| Finmap.lookup_isSome.mp (Option.isSome_of_eq_some h)
      refine (excess_move i .ended m.activeTransactions _ m.store).trans ?_
      rw [hd, ← hs]
      simp [Phase.due]

theorem excess_visit (m : Metered ι) (i : ι) (txnId : String) :
    (m.visit i txnId).excess = m.excess := by
  rw [visit]
  cases hp : m.phases i
  case scanning seen expired =>
    have hm expired' : (m.move i (.scanning (txnId :: seen) expired')).excess = m.excess := by
      refine (excess_move i _ m.activeTransactions m.registry m.store).trans ?_
      simp [hp, Phase.due]
    dsimp only
    split
    case isTrue => rfl
    case isFalse => split <;> exact hm _
  all_goals rfl

theorem excess_next (m : Metered ι) (i : ι) (am : Ambient) :
    (m.next sv i am).excess =
      m.excess + (m.isFailure sv (.next i am)).toNat - (m.isLate (.next i am)).toNat := by
  cases hp : m.phases i
  case idle => simp [next, isFailure, isLate, hp]
  case begun | ended =>
    simp only [next, isFailure, isLate, hp]
    refine (excess_move i .idle _ m.registry m.store).trans ?_
    simp [hp, Phase.due]
  case committing active =>
    simp only [next, isFailure, isLate, hp]
    rcases m.replay sv am active with ⟨_ | _, s⟩
    case error =>
      refine (excess_move i .idle m.activeTransactions m.registry s).trans ?_
      simp [hp, Phase.due, Except.isOk, Except.toBool]
    case ok =>
      refine (excess_move i .ended m.activeTransactions m.registry s).trans ?_
      simp [hp, Phase.due, Except.isOk, Except.toBool]
  case scanning seen expired =>
    simp only [next, isFailure, isLate, hp]
    refine (excess_move i (.removing expired) m.activeTransactions m.registry m.store).trans ?_
    simp [hp, Phase.due]
  case removing expired =>
    cases expired
    case nil =>
      simp only [next, isFailure, isLate, hp]
      refine (excess_move i .idle m.activeTransactions m.registry m.store).trans ?_
      simp [hp, Phase.due]
    case cons txnId expired =>
      simp only [next, isFailure, isLate, hp]
      refine (excess_move i (.removed expired) m.activeTransactions _ m.store).trans ?_
      by_cases h : txnId ∈ m.registry.txns
      case pos =>
        simp only [hp, Phase.due, ← size_discard h, h]
        push_cast
        simp
      case neg =>
        simp [hp, Phase.due, size_discard_of_notMem h, h]
        ring
  case removed expired =>
    simp only [next, isFailure, isLate, hp]
    refine (excess_move i (.removing expired) _ m.registry m.store).trans ?_
    simp [hp, Phase.due]

theorem excess_step (hp : m.Possible e) : (m.step sv e).excess =
    m.excess + (m.isFailure sv e).toNat - (m.isLate e).toNat := by
  cases e
  case wait => simp [step, isFailure, isLate, excess]
  case call i call =>
    rw [step]
    split
    case isTrue h => simp [excess_enter h hp, isFailure, isLate]
    case isFalse => simp [isFailure, isLate]
  case cleanupExpired i =>
    rw [step]
    split
    case isTrue h =>
      refine (excess_move i (.scanning [] []) m.activeTransactions m.registry m.store).trans ?_
      rw [Phase.due_of_isIdle h]
      simp [Phase.due, isFailure, isLate]
    case isFalse => simp [isFailure, isLate]
  case visit i txnId =>
    have hv := m.excess_visit i txnId
    simpa [step, isFailure, isLate] using hv
  case next i am => exact m.excess_next i am

section

variable (timeout : ℕ) (s : Store) (es : List (Event ι))
  (hp : Run.Along (step sv) Possible (initial timeout s) es)
  (hi : (Run.run (step sv) (initial timeout s) es).Idle)

include hp hi

theorem activeTransactions_run :
    (Run.run (step sv) (initial timeout s) es).activeTransactions =
      (Run.run (step sv) (initial timeout s) es).registry.size +
        Run.count (step sv) (isFailure sv) (initial timeout s) es -
        Run.count (step sv) isLate (initial timeout s) es := by
  have hc : excess (Run.run (step sv) (initial timeout s) es) = excess (initial timeout s) +
      Run.count (step sv) (isFailure sv) (initial timeout s) es -
      Run.count (step sv) isLate (initial timeout s) es :=
    Run.count_spec hp excess_step
  have h₀ : (initial timeout s : Metered ι).excess = 0 := by
    simp [excess, initial, Phase.due, size, new]
  have hd : ∑ i, ((Run.run (step sv) (initial timeout s) es).phases i).due = 0 :=
    Finset.sum_eq_zero fun i _ => Phase.due_of_isIdle (hi i)
  rw [h₀, excess, hd] at hc
  omega

-- When no call is in progress, the gauge is right iff as many commits have failed as expired
-- transactions were ended by others before they were removed.
theorem activeTransactions_eq_iff :
    (Run.run (step sv) (initial timeout s) es).activeTransactions =
        (Run.run (step sv) (initial timeout s) es).registry.size ↔
      Run.count (step sv) (isFailure sv) (initial timeout s) es =
        Run.count (step sv) isLate (initial timeout s) es := by
  rw [activeTransactions_run timeout s es hp hi]
  omega

end

-- The storage refuses to start a transaction.
def refusal : Ambient :=
  { Ambient.plain with faults _ := { start := some "conflict", commit := none } }

-- One thread begins a transaction and commits it.
def committed (am : Ambient) : List (Event Unit) :=
  [.call () (.begin "t"), .next () .plain, .call () (.commit "t"), .next () am, .next () .plain]

theorem activeTransactions_refused :
    Run.Along (step Services.plain) Possible (initial 0 .empty) (committed refusal) ∧
    (Run.run (step Services.plain) (initial 0 .empty) (committed refusal)).Idle ∧
    (Run.run (step Services.plain) (initial 0 .empty) (committed refusal)).activeTransactions ≠
      (Run.run (step Services.plain) (initial 0 .empty) (committed refusal)).registry.size := by
  refine ⟨⟨Finmap.notMem_empty, trivial, trivial, trivial, trivial, trivial⟩, ?_, ?_⟩
  case refine_1 => exact fun _ => rfl
  case refine_2 => decide

theorem activeTransactions_committed :
    (Run.run (step Services.plain) (initial 0 .empty) (committed .plain)).activeTransactions =
      (Run.run (step Services.plain) (initial 0 .empty) (committed .plain)).registry.size := by
  have hp : Run.Along (step Services.plain) Possible (initial 0 .empty) (committed .plain) :=
    ⟨Finmap.notMem_empty, trivial, trivial, trivial, trivial, trivial⟩
  exact (activeTransactions_eq_iff 0 .empty _ hp fun _ => rfl).mpr rfl

end Metered

end TransactionRegistry
