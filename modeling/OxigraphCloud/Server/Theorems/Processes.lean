import OxigraphCloud.Server.Processes
import OxigraphCloud.Server.Theorems.Changelog

namespace Changelog

variable {sv : Services} {c : Changelog} {s s' s₁ : Store} {e : ChangelogEntry}

-- The changelog graph only loses whole entries.
structure Shrinks (s s' : Store) : Prop where
  subset : ∀ {q}, q ∈ s'.quads → q.graphName = .namedNode changelogGraph → q ∈ s.quads
  about  : ∀ id, s'.about id = s.about id ∨ s'.about id = ∅

namespace Shrinks

theorem of_changelogQuads (h : s'.changelogQuads none none = s.changelogQuads none none) :
    Shrinks s s' := by
  have hm q (hg : q.graphName = .namedNode changelogGraph) : q ∈ s'.quads ↔ q ∈ s.quads := by
    simpa [Store.changelogQuads, hg] using Finset.ext_iff.mp h q
  refine ⟨fun hq hg => (hm _ hg).mp hq, fun id => .inl <| Finset.ext fun q => ?_⟩
  rw [mem_about, mem_about]
  exact and_congr_left fun h => hm q h.right

end Shrinks

theorem Pruned.shrinks {id : UInt64} (h : Pruned sv c id s s') : Shrinks s s' where
  subset hq _ := h.subset hq
  about id    := by
    obtain h | h := h.about id
    · exact .inl h
    · exact .inr h.left

theorem purge_shrinks (sv : Services) (am : Ambient) (c : Changelog) (s : Store) :
    Shrinks s (c.purge sv am s).2 := by
  rw [purge]
  split
  case isTrue => exact .of_changelogQuads rfl
  case isFalse =>
    obtain ⟨_, h⟩ | ⟨s', h, hs⟩ := s.transact_cases (am.faults .write) ChangelogError.internal
      fun s' => .ok <| s'.removeAll (sv.scan (s.changelogQuads none none))
    all_goals simp only [h]
    case inl => exact .of_changelogQuads rfl
    case inr =>
      cases hs
      refine ⟨fun hq _ => (Store.mem_removeAll.mp hq).right, fun id => .inr ?_⟩
      refine Finset.eq_empty_of_forall_notMem fun q hq => ?_
      have ⟨hq, _, hg⟩ := mem_about.mp hq
      have ⟨hn, hq⟩ := Store.mem_removeAll.mp hq
      exact hn <| sv.mem_scan.mpr <| by simp [Store.changelogQuads, hq, hg]

-- Undoing writes to the store first, and then records what it has done.
theorem undo_cases (am : Ambient) (id : UInt64) (hg : ∀ target, c.get sv s id = .ok (some target) →
      ∀ q ∈ target.inserted ++ target.removed, q.graphName ≠ .namedNode changelogGraph) :
    ((c.undo sv am id s).2 = (c, s) ∧ c.writtenByUndo sv am id s = []) ∨
    ∃ ops operation s₁, s₁.changelogQuads none none = s.changelogQuads none none ∧
      c.undo sv am id s = c.record sv am ops operation s₁ ∧
      c.writtenByUndo sv am id s = c.written am ops operation := by
  rw [undo, writtenByUndo]
  rcases h : c.get sv s id with _ | _ | target
  case error => exact .inl ⟨rfl, rfl⟩
  case ok.none => exact .inl ⟨rfl, rfl⟩
  case ok.some =>
    have hg := hg target h
    cases hu : target.undoable
    case false => exact .inl (by simp [hu])
    case true =>
      cases hf : (am.faults .write).isNone
      case false =>
        obtain ⟨_, ht⟩ : ∃ e, s.transact (am.faults .write) ChangelogError.internal (fun s => .ok <|
            (s.insertAll target.removed).removeAll target.inserted) = (.error e, s) :=
          Store.transact_of_not_isNone hf
        exact .inl (by simp [hu, ht])
      case true =>
        have ht : s.transact (am.faults .write) ChangelogError.internal (fun s => .ok <|
            (s.insertAll target.removed).removeAll target.inserted) = (.ok (), _) :=
          Store.transact_of_isNone hf rfl
        refine .inr ⟨_, _, _, ?_, by simp only [hu, ht]; rfl, by simp [hu]⟩
        ext q
        have hi := fun hq => hg q (List.mem_append_left _ hq)
        have hr := fun hq => hg q (List.mem_append_right _ hq)
        simp only [Store.changelogQuads, Finset.mem_filter, Store.mem_removeAll,
          Store.mem_insertAll]
        tauto

theorem lt_add_one {a : UInt64} (h : a + 1 ≠ 0) : a < a + 1 := by
  have h : (a + 1).toNat ≠ 0 := fun h' => h <| UInt64.toNat_inj.mp h'
  have := a.toNat_lt
  rw [UInt64.toNat_add, UInt64.toNat_one] at h
  rw [UInt64.lt_iff_toNat_lt, UInt64.toNat_add, UInt64.toNat_one]
  omega

theorem foldl_max_spec (ids : List UInt64) (m : UInt64) :
    let m' := ids.foldl (fun maxId id => if id > maxId then id else maxId) m
    m ≤ m' ∧ (∀ id ∈ ids, id ≤ m') ∧ (m' = m ∨ m' ∈ ids) := by
  induction ids generalizing m
  case nil => simp
  case cons id ids hi =>
    have ⟨hm, hle, he⟩ := hi <| if id > m then id else m
    simp only [List.foldl_cons, List.mem_cons]
    generalize ids.foldl _ _ = m' at *
    have hid : id ≤ m' ∧ m ≤ m' := by
      split at hm
      case isTrue h => exact ⟨hm, UInt64.le_trans (UInt64.le_of_lt h) hm⟩
      case isFalse h => exact ⟨UInt64.le_trans (UInt64.not_lt.mp h) hm, hm⟩
    refine ⟨hid.right, fun id' h => ?_, ?_⟩
    · obtain rfl | h := h
      · exact hid.left
      · exact hle id' h
    · obtain he | he := he
      · split at he
        case isTrue => exact .inr <| .inl he
        case isFalse => exact .inl he
      · exact .inr <| .inr he

namespace Processes

variable {ps : Processes} {p : ℕ}

structure Invariant (sv : Services) (ps : Processes) : Prop where
  sorted  : ps.recorded.Pairwise (·.id > ·.id)
  bounded : ∀ {e}, e ∈ ps.recorded → e.id + 1 ≠ 0
  seen_le : ∀ p, ps.seen p ≤ ps.recorded.length
  -- A process that knows of all entries uses a new id next.
  fresh   : ∀ {p e}, (ps.changelogs p).enabled → ps.seen p = ps.recorded.length →
    e ∈ ps.recorded → e.id < (ps.changelogs p).counter
  owned   : ∀ {q}, q ∈ ps.store.quads → q.graphName = .namedNode changelogGraph →
    ∃ e ∈ ps.recorded, q.subject = .namedNode (ChangelogEntry.subject e.id)
  about   : ∀ {e}, e ∈ ps.recorded →
    ps.store.about e.id = ∅ ∨ ps.store.about e.id = (e.quads sv).toFinset

namespace Invariant

theorem exact (h : Invariant sv ps) : Exact sv ps := by
  refine ⟨List.pairwise_map.mpr <| h.sorted.imp fun h => (UInt64.ne_of_lt h).symm, fun id hn => ?_⟩
  have ⟨q, hq⟩ := Finset.nonempty_of_ne_empty hn
  have ⟨hq, hs, hg⟩ := mem_about.mp hq
  have ⟨e, he, hs'⟩ := h.owned hq hg
  obtain rfl := ChangelogEntry.subject_injective <| by simpa using hs'.symm.trans hs
  exact ⟨e, he, rfl, (h.about he).resolve_left hn⟩

theorem shrink (h : Invariant sv ps) (hs : Shrinks ps.store s') :
    Invariant sv { ps with store := s' } where
  sorted  := h.sorted
  bounded := h.bounded
  seen_le := h.seen_le
  fresh   := h.fresh
  owned hq hg := h.owned (hs.subset hq hg) hg
  about {e} he := by
    obtain hs | hs := hs.about e.id
    · exact hs ▸ h.about he
    · exact .inl hs

theorem skip (h : Invariant sv ps) (hc : c.enabled → (ps.changelogs p).enabled ∧
    ∀ id < (ps.changelogs p).counter, id < c.counter) :
    Invariant sv (ps.advance p [] c ps.store) where
  sorted  := h.sorted
  bounded := h.bounded
  seen_le := h.seen_le
  fresh {p' e} hc' hs he := by
    by_cases hp : p' = p
    case pos =>
      subst hp
      simp only [advance, Function.update_self] at hc' ⊢
      exact (hc hc').right _ <| h.fresh (hc hc').left hs he
    case neg =>
      simp only [advance, Function.update_of_ne hp] at hc' ⊢
      exact h.fresh hc' hs he
  owned   := h.owned
  about   := h.about

theorem add (h : Invariant sv ps) (hm : ps.MayRecord p) (hc : (ps.changelogs p).enabled)
    (he : e.id = (ps.changelogs p).counter) (hc' : c.counter = (ps.changelogs p).counter + 1) :
    Invariant sv (ps.advance p [e] c (ps.store.insertAll (e.quads sv))) := by
  have hf {e'} (h' : e' ∈ ps.recorded) : e'.id < e.id := he ▸ h.fresh hc hm.left h'
  have hn : ps.store.about e.id = ∅ := by
    by_contra hn
    have ⟨e', h', hi, _⟩ := h.exact.right e.id hn
    exact UInt64.ne_of_lt (hf h') hi
  constructor
  case sorted => exact List.pairwise_cons.mpr ⟨fun _ => hf, h.sorted⟩
  case bounded =>
    intro _ h'
    cases h'
    case head => exact he ▸ hm.right
    case tail h' => exact h.bounded h'
  case seen_le =>
    intro p'
    by_cases hp : p' = p
    case pos => simp [advance, hp]
    case neg => simpa [advance, hp] using (h.seen_le p').trans (Nat.le_succ _)
  case fresh =>
    intro p' e' _ hs h'
    by_cases hp : p' = p
    case pos =>
      subst hp
      have hl : e.id < c.counter := by
        rw [he, hc']
        exact lt_add_one hm.right
      simp only [advance, Function.update_self]
      cases h'
      case head => exact hl
      case tail h' => exact UInt64.lt_trans (hf h') hl
    case neg =>
      have := h.seen_le p'
      simp [advance, hp] at hs
      omega
  case owned =>
    intro q hq hg
    obtain hq | hq := Store.mem_insertAll.mp hq
    · exact ⟨e, .head _, (ChangelogEntry.mem_quads.mp hq).left⟩
    · have ⟨e', h', hs⟩ := h.owned hq hg
      exact ⟨e', .tail _ h', hs⟩
  case about =>
    intro e' h'
    cases h'
    case head =>
      right
      simp only [advance, about_insertAll_quads, hn, Finset.union_empty]
    case tail h' =>
      simp only [advance, about_insertAll_quads_of_ne (UInt64.ne_of_lt (hf h'))]
      exact h.about h'

theorem record (h : Invariant sv ps) (hm : ps.MayRecord p) (hs : Shrinks ps.store s₁) :
    Invariant sv (ps.advance p ((ps.changelogs p).written am ops operation)
      ((ps.changelogs p).record sv am ops operation s₁).2.1
      ((ps.changelogs p).record sv am ops operation s₁).2.2) := by
  have h := h.shrink hs
  cases hc : (ps.changelogs p).enabled
  case false =>
    simp only [Changelog.record, written, hc]
    exact h.skip fun hc' => ⟨hc', fun _ => id⟩
  case true =>
    have hr := record_recorded sv am ops operation s₁ hc
    generalize (ps.changelogs p).record sv am ops operation s₁ = result at *
    cases hr
    case refused hf =>
      simp only [written, hc, hf]
      exact h.skip fun _ => ⟨hc, fun _ h => UInt64.lt_trans h <| lt_add_one hm.right⟩
    case failed hf hp | ok hf hp =>
      simp only [written, hc, hf]
      exact (h.add hm hc rfl rfl).shrink hp.shrinks

-- The ids in the store are those of recorded entries.
theorem mem_recorded_of_txnId (h : Invariant sv ps) {q : Rdf.Quad} {id : UInt64}
    (hq : q ∈ txnIdQuads sv ps.store) (hi : txnId q = some id) : ∃ e ∈ ps.recorded, e.id = id := by
  have ⟨hq, _, hp, hg⟩ := Finset.mem_filter.mp <| sv.mem_scan.mp hq
  have ⟨e, he, hs⟩ := h.owned hq hg
  have hq := mem_about.mpr ⟨hq, hs, hg⟩
  have ha := (h.about he).resolve_left <| Finset.ne_empty_of_mem hq
  have hq := List.mem_toFinset.mp <| ha ▸ hq
  have ho := (ChangelogEntry.object_of_mem_quads hq).2.2.2.2.2 <| hp _ rfl
  rw [txnId, ho] at hi
  exact ⟨e, he, Option.some.inj <| (parseU64_toString e.id).symm.trans hi⟩

-- An entry in the store is seen when a process is started.
theorem txnId_of_about (h : Invariant sv ps) (he : e ∈ ps.recorded) (hn : ps.store.about e.id ≠ ∅) :
    e.id ∈ (txnIdQuads sv ps.store).filterMap txnId := by
  have ha := (h.about he).resolve_left hn
  let q : Rdf.Quad := ⟨.namedNode (ChangelogEntry.subject e.id), "urn:oxigraph:txnId",
    ChangelogEntry.simpleLiteral (toString e.id), .namedNode changelogGraph⟩
  have hq : q ∈ ps.store.about e.id := by
    rw [ha, List.mem_toFinset, ChangelogEntry.mem_quads]
    exact ⟨rfl, rfl, by simp [ChangelogEntry.facts, q]⟩
  obtain ⟨hq, _, _⟩ := mem_about.mp hq
  refine List.mem_filterMap.mpr ⟨q, sv.mem_scan.mpr ?_, parseU64_toString e.id⟩
  simp [Store.changelogQuads, hq, q]

theorem lt_initCounter (h : Invariant sv ps)
    (hn : ∀ e ∈ ps.recorded.head?, ps.store.about e.id ≠ ∅) (hc : c.enabled)
    (he : e ∈ ps.recorded) : e.id < (c.initCounter sv ps.store).counter := by
  have ⟨_, hle, hm⟩ := foldl_max_spec ((txnIdQuads sv ps.store).filterMap txnId) 0
  rw [initCounter, if_pos hc]
  simp only
  generalize List.foldl _ _ _ = m at *
  -- The newest entry has the greatest id, and the greatest id in the store is that of an entry.
  have hle : e.id ≤ m := by
    rcases hr : ps.recorded with - | ⟨e₀, recorded⟩ <;> rw [hr] at he
    case nil => contradiction
    case cons =>
      have h₀ := hle _ <| h.txnId_of_about (hr ▸ .head _) <| hn e₀ (by rw [hr]; rfl)
      cases he
      case head => exact h₀
      case tail he =>
        have := List.rel_of_pairwise_cons (hr ▸ h.sorted) he
        exact UInt64.le_trans (UInt64.le_of_lt this) h₀
  have hm : m + 1 ≠ 0 := by
    obtain rfl | hm := hm
    · decide
    · have ⟨q, hq, hi⟩ := List.mem_filterMap.mp hm
      have ⟨e', he', hi⟩ := h.mem_recorded_of_txnId hq hi
      exact hi ▸ h.bounded he'
  exact UInt64.lt_of_le_of_lt hle <| lt_add_one hm

theorem restart {retain : UInt64} (h : Invariant sv ps)
    (hn : ∀ e ∈ ps.recorded.head?, ps.store.about e.id ≠ ∅) :
    Invariant sv (ps.step sv (.restart p isEnabled retain)) where
  sorted  := h.sorted
  bounded := h.bounded
  seen_le p' := by
    by_cases hp : p' = p
    case pos => simp [step, hp]
    case neg => simpa [step, hp] using h.seen_le p'
  fresh {p' e} hc hs he := by
    by_cases hp : p' = p
    case pos =>
      subst hp
      simp only [step, Function.update_self] at hc he ⊢
      refine h.lt_initCounter hn ?_ he
      rw [initCounter] at hc
      split at hc <;> assumption
    case neg =>
      simp only [step, Function.update_of_ne hp] at hc hs ⊢
      exact h.fresh hc hs he
  owned   := h.owned
  about   := h.about

theorem step {event : Event} (h : Invariant sv ps) (ho : ps.Orderly sv event) :
    Invariant sv (ps.step sv event) := by
  cases event
  case record => exact h.record ho (.of_changelogQuads rfl)
  case undo p am id =>
    obtain ⟨hu, hw⟩ | ⟨_, _, _, hs, hu, hw⟩ := undo_cases am id ho.right
    · simp only [Processes.step, hu, hw]
      exact h.skip fun hc => ⟨hc, fun _ h => h⟩
    · simp only [Processes.step, hu, hw]
      exact h.record ho.left <| .of_changelogQuads hs
  case purge => exact h.shrink <| purge_shrinks _ _ _ _
  case restart => exact h.restart ho
  case write => exact h.shrink <| .of_changelogQuads ho

end Invariant

theorem invariant_initial (hs : s.changelogQuads none none = ∅) (settings : ℕ → Bool × UInt64) :
    Invariant sv (initial sv s settings) where
  sorted  := .nil
  bounded := nofun
  seen_le _ := le_rfl
  fresh   := nofun
  owned {q} hq hg := by
    have hq : q ∈ s.changelogQuads none none := Finset.mem_filter.mpr ⟨hq, nofun, nofun, hg⟩
    exact absurd (hs ▸ hq) (Finset.notMem_empty _)
  about   := nofun

-- In orderly runs the ids are unique and the store has what was recorded.
theorem exact_of_orderly (sv : Services) (s : Store) (settings : ℕ → Bool × UInt64)
    (events : List Event) (hs : s.changelogQuads none none = ∅)
    (ho : Run.Along (step sv) (Orderly sv) (initial sv s settings) events) :
    Exact sv (Run.run (step sv) (initial sv s settings) events) :=
  (Run.invariant (invariant_initial hs settings) ho Invariant.step).exact

theorem initial_empty : initial .plain .empty (fun _ => (true, 0)) =
    { store := .empty, changelogs _ := .new true 0, recorded := [], seen _ := 0 } := by
  simp [initial, initCounter, txnIdQuads, Store.changelogQuads, Store.empty, Services.plain, new]

theorem exact_of_orderly_sample : Exact .plain (Run.run (step .plain)
    (initial .plain .empty fun _ => (true, 0))
    [.record 0 .plain [] "update", .record 0 .plain [] "store", .purge 1 .plain]) := by
  apply exact_of_orderly
  · rfl
  · rw [initial_empty]
    exact ⟨⟨rfl, by decide⟩, ⟨rfl, by decide⟩, trivial, trivial⟩

-- Two processes that were started with the same store begin with the same id.
theorem not_exact_of_racing : ¬Exact .plain (Run.run (step .plain)
    (initial .plain .empty fun _ => (true, 0))
    [.record 0 .plain [] "update", .record 1 .plain [] "store"]) := by
  rw [initial_empty]
  exact fun h => absurd h.left (by decide)

end Processes

end Changelog
