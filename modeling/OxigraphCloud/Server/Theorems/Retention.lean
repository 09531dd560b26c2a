import OxigraphCloud.Server.Retention
import OxigraphCloud.Server.Theorems.Processes

-- The changelog has the last entries and nothing else, and its pages make up the whole of it.

theorem List.flatMap_pages (l : List α) (k n : ℕ) :
    (List.range n).flatMap (fun i => (l.drop (i * k)).take k) = l.take (n * k) := by
  induction n
  case zero => simp
  case succ n hi =>
    rw [List.range_succ, List.flatMap_append, hi, List.flatMap_singleton, Nat.succ_mul,
      List.take_add]

namespace Changelog

variable {sv : Services} {am : Ambient} {c : Changelog} {s : Store} {e : ChangelogEntry}
  {es : List ChangelogEntry} {id cutoffId : UInt64} {q : Rdf.Quad}

theorem mem_changelogQuads : q ∈ s.changelogQuads none none ↔
    q ∈ s.quads ∧ q.graphName = .namedNode changelogGraph := by
  simp [Store.changelogQuads]

-- The graph of the changelog has the quads about the entries and nothing else.
def Holds (sv : Services) (s : Store) (es : List ChangelogEntry) : Prop :=
  ∀ q, q ∈ s.changelogQuads none none ↔ ∃ e ∈ es, q ∈ e.quads sv

-- The quad from which the id of an entry is read.
def txnIdQuad (e : ChangelogEntry) : Rdf.Quad where
  subject   := .namedNode (ChangelogEntry.subject e.id)
  predicate := "urn:oxigraph:txnId"
  object    := ChangelogEntry.simpleLiteral (toString e.id)
  graphName := .namedNode changelogGraph

theorem txnIdQuad_mem_quads (sv : Services) (e : ChangelogEntry) : txnIdQuad e ∈ e.quads sv :=
  ChangelogEntry.mem_quads.mpr ⟨rfl, rfl, by simp [ChangelogEntry.facts, txnIdQuad]⟩

theorem txnId_txnIdQuad (e : ChangelogEntry) : txnId (txnIdQuad e) = some e.id :=
  parseU64_toString e.id

theorem eq_txnIdQuad (hq : q ∈ e.quads sv) (hp : q.predicate = "urn:oxigraph:txnId") :
    q = txnIdQuad e := by
  obtain ⟨hs, hg, _⟩ := ChangelogEntry.mem_quads.mp hq
  have ho := (ChangelogEntry.object_of_mem_quads hq).2.2.2.2.2 hp
  cases q
  simp_all [txnIdQuad]

theorem id_eq_of_subject (hq : q ∈ e.quads sv)
    (hs : q.subject = .namedNode (ChangelogEntry.subject id)) : e.id = id := by
  have hs' := (ChangelogEntry.mem_quads.mp hq).left
  exact ChangelogEntry.subject_injective <| by simpa using hs'.symm.trans hs

-- Without faults all old entries are removed.
theorem prune_of_isNone (sv : Services) (c : Changelog) (id : UInt64) (s : Store)
    (hf : (am.faults .prune).isNone) : (c.prune sv am id s).1 = .ok () ∧
    ∀ q, q ∈ (c.prune sv am id s).2.quads ↔ q ∈ s.quads ∧
      ¬(c.retain < id ∧ ∃ node ∈ oldSubjects sv s (id - c.retain),
        q.subject = .namedNode node ∧ q.graphName = .namedNode changelogGraph) := by
  rw [prune]
  split
  case isTrue hr =>
    refine ⟨rfl, fun q => (and_iff_left fun hn => ?_).symm⟩
    exact absurd hn.left (UInt64.not_lt.mpr hr)
  case isFalse hr =>
    have hr := UInt64.not_le.mp hr
    split
    case h_1 ho => exact ⟨rfl, fun q => by simp [ho]⟩
    case h_2 =>
      have ht quads : s.transact (am.faults .prune) ChangelogError.internal
          (fun s => .ok <| s.removeAll quads) = (.ok (), s.removeAll quads) :=
        Store.transact_of_isNone hf rfl
      simp only [ht]
      refine ⟨trivial, fun q => ?_⟩
      rw [Store.mem_removeAll, and_comm]
      refine and_congr_right fun hq => not_congr ?_
      simp [sv.mem_scan, Store.changelogQuads, hq, hr]

theorem record_of_isNone (hc : c.enabled) (hr : 0 < c.retain)
    (hf : ∀ stage, (am.faults stage).isNone) : (c.record sv am ops operation s).2 =
      ({ c with counter := c.counter + 1 }.send (c.entry am ops operation).toEvent,
        (c.prune sv am c.counter (s.insertAll ((c.entry am ops operation).quads sv))).2) := by
  have hw : writeEntryToStore sv am (c.entry am ops operation) s = (.ok (), _) :=
    Store.transact_of_isNone (hf .entry) rfl
  have hp : (c.prune sv am c.counter (s.insertAll ((c.entry am ops operation).quads sv))).1 =
    .ok () := (prune_of_isNone _ _ _ _ (hf .prune)).left
  rw [record, if_neg (by simp [hc])]
  simp only [hw]
  rw [if_pos hr]
  split
  case h_1 h => exact absurd (hp.symm.trans <| congrArg Prod.fst h) (by simp)
  case h_2 h => exact congrArg _ (congrArg Prod.snd h).symm

-- The entries that pruning leaves.
def isKept (c : Changelog) (id : UInt64) (e : ChangelogEntry) : Bool :=
  id.toNat < e.id.toNat + c.retain.toNat

theorem isKept_iff (h : 0 < e.id) :
    c.isKept id e ↔ ¬(c.retain < id ∧ e.id ≤ id - c.retain) := by
  rw [isKept, decide_eq_true_iff, UInt64.lt_iff_toNat_lt, UInt64.le_iff_toNat_le]
  have h : 0 < e.id.toNat := UInt64.lt_iff_toNat_lt.mp h
  by_cases hr : c.retain ≤ id
  case pos =>
    rw [UInt64.toNat_sub_of_le _ _ hr]
    have := UInt64.le_iff_toNat_le.mp hr
    omega
  case neg =>
    have := UInt64.lt_iff_toNat_lt.mp <| UInt64.not_le.mp hr
    omega

namespace Holds

variable (h : Holds sv s es)

include h

theorem congr {s' : Store} (hs : s'.changelogQuads none none = s.changelogQuads none none) :
    Holds sv s' es :=
  fun q => hs ▸ h q

theorem insertAll (e : ChangelogEntry) : Holds sv (s.insertAll (e.quads sv)) (e :: es) := by
  intro q
  have hg (hq : q ∈ e.quads sv) := (ChangelogEntry.mem_quads.mp hq).right.left
  rw [List.exists_mem_cons_iff, ← h, mem_changelogQuads, mem_changelogQuads, Store.mem_insertAll]
  tauto

-- The entries are found by their ids.
theorem mem_txnIdQuads : q ∈ txnIdQuads sv s ↔ ∃ e ∈ es, q = txnIdQuad e := by
  have hm : q ∈ txnIdQuads sv s ↔
      q ∈ s.changelogQuads none none ∧ q.predicate = "urn:oxigraph:txnId" := by
    rw [txnIdQuads, sv.mem_scan]
    simp only [Store.changelogQuads, Finset.mem_filter, Option.mem_some_iff, forall_eq']
    tauto
  rw [hm, h]
  constructor
  case mp =>
    rintro ⟨⟨e, he, hq⟩, hp⟩
    exact ⟨e, he, eq_txnIdQuad hq hp⟩
  case mpr =>
    rintro ⟨e, he, rfl⟩
    exact ⟨⟨e, he, txnIdQuad_mem_quads sv e⟩, rfl⟩

theorem mem_oldSubjects {node : Rdf.NamedNode} : node ∈ oldSubjects sv s cutoffId ↔
    ∃ e ∈ es, ChangelogEntry.subject e.id = node ∧ e.id ≤ cutoffId := by
  simp only [oldSubjects, List.mem_filterMap, h.mem_txnIdQuads]
  constructor
  case mp =>
    rintro ⟨_, ⟨e, he, rfl⟩, hn⟩
    rw [txnId_txnIdQuad] at hn
    simp only [txnIdQuad, Option.ite_none_right_eq_some, Option.some.injEq] at hn
    exact ⟨e, he, hn.2, hn.1⟩
  case mpr =>
    rintro ⟨e, he, rfl, hc⟩
    refine ⟨_, ⟨e, he, rfl⟩, ?_⟩
    rw [txnId_txnIdQuad]
    simp [txnIdQuad, hc]

theorem prune (c : Changelog) (id : UInt64) (h₀ : ∀ e ∈ es, 0 < e.id)
    (hf : (am.faults .prune).isNone) :
    Holds sv (c.prune sv am id s).2 (es.filter (c.isKept id)) := by
  intro q
  have hp := (prune_of_isNone sv c id s hf).right q
  have hq := h q
  rw [mem_changelogQuads] at hq ⊢
  rw [hp, and_right_comm, hq]
  constructor
  case mp =>
    rintro ⟨⟨e, he, hq⟩, hn⟩
    obtain ⟨hs, hg, _⟩ := ChangelogEntry.mem_quads.mp hq
    refine ⟨e, List.mem_filter.mpr ⟨he, (isKept_iff (h₀ e he)).mpr fun hk => hn ?_⟩, hq⟩
    exact ⟨hk.left, _, h.mem_oldSubjects.mpr ⟨e, he, rfl, hk.right⟩, hs, hg⟩
  case mpr =>
    rintro ⟨e, he, hq⟩
    obtain ⟨he, hk⟩ := List.mem_filter.mp he
    refine ⟨⟨e, he, hq⟩, fun hn => (isKept_iff (h₀ e he)).mp hk ⟨hn.left, ?_⟩⟩
    obtain ⟨_, node, ho, hs, _⟩ := hn
    obtain ⟨e', _, rfl, hle⟩ := h.mem_oldSubjects.mp ho
    exact id_eq_of_subject hq hs ▸ hle

variable (hn : es.Pairwise (·.id > ·.id))

include hn

theorem mem_about (he : e ∈ es) : q ∈ s.about e.id ↔ q ∈ e.quads sv := by
  have hd : (es.map (·.id)).Nodup :=
    List.pairwise_map.mpr <| hn.imp fun h => (UInt64.ne_of_lt h).symm
  have ha : q ∈ s.about e.id ↔ q ∈ s.changelogQuads none none ∧
      q.subject = .namedNode (ChangelogEntry.subject e.id) := by
    rw [Changelog.mem_about, mem_changelogQuads, and_assoc, and_comm (a := _ = _)]
  rw [ha, h]
  constructor
  case mp =>
    rintro ⟨⟨e', he', hq⟩, hs⟩
    exact List.inj_on_of_nodup_map hd he' he (id_eq_of_subject hq hs) ▸ hq
  case mpr => exact fun hq => ⟨⟨e, he, hq⟩, (ChangelogEntry.mem_quads.mp hq).left⟩

theorem txnIdQuads_perm : (txnIdQuads sv s).Perm (es.map txnIdQuad) := by
  have hd : (es.map txnIdQuad).Nodup := by
    refine List.pairwise_map.mpr <| hn.imp fun hlt heq => ?_
    have hi := (txnId_txnIdQuad _).symm.trans <| heq ▸ txnId_txnIdQuad _
    exact UInt64.ne_of_lt hlt (Option.some.inj hi)
  refine (List.perm_ext_iff_of_nodup sv.nodup_scan hd).mpr fun q => ?_
  rw [List.mem_map]
  exact h.mem_txnIdQuads.trans <| exists_congr fun e => and_congr_right fun _ => eq_comm

-- Sorting gives the entries in the order in which they have been recorded.
theorem mergeSort_eq {f : Rdf.Quad → Option (UInt64 × Rdf.NamedNode)}
    (hf : ∀ e, f (txnIdQuad e) = some (e.id, ChangelogEntry.subject e.id)) :
    ((txnIdQuads sv s).filterMap f).mergeSort (fun a b => b.1 ≤ a.1) =
      es.map fun e => (e.id, ChangelogEntry.subject e.id) := by
  have hp : ((txnIdQuads sv s).filterMap f).Perm
      (es.map fun e => (e.id, ChangelogEntry.subject e.id)) := by
    have hp := (h.txnIdQuads_perm hn).filterMap f
    have hf : f ∘ txnIdQuad = some ∘ fun e => (e.id, ChangelogEntry.subject e.id) := funext hf
    rwa [List.filterMap_map, hf, List.filterMap_eq_map] at hp
  have hp := (List.mergeSort_perm _ fun a b => decide (b.1 ≤ a.1)).trans hp
  refine hp.eq_of_pairwise ?_ (List.pairwise_mergeSort ?_ ?_ _) ?_
  · intro a b ha hb hab hba
    obtain ⟨e, _, rfl⟩ := List.mem_map.mp <| hp.mem_iff.mp ha
    obtain ⟨e', _, rfl⟩ := List.mem_map.mp hb
    have hi : e.id = e'.id := UInt64.le_antisymm (of_decide_eq_true hba) (of_decide_eq_true hab)
    simp only [hi]
  · intro a b c hab hbc
    exact decide_eq_true <| UInt64.le_trans (of_decide_eq_true hbc) (of_decide_eq_true hab)
  · intro a b
    simpa using UInt64.le_total b.1 a.1
  · exact List.pairwise_map.mpr <| hn.imp fun h => decide_eq_true <| UInt64.le_of_lt h

theorem list_eq (hc : c.enabled) (offset limit : ℕ) :
    c.list sv s offset limit = .ok (((es.map (·.listed)).drop offset).take limit) := by
  rw [list, if_neg (by simp [hc])]
  simp only
  rw [h.mergeSort_eq hn fun e => by rw [txnId_txnIdQuad]; rfl]
  rw [← List.map_drop, ← List.map_drop, ← List.map_take, ← List.map_take, List.map_map]
  refine congrArg _ <| List.map_congr_left fun e he => ?_
  have he := List.mem_of_mem_drop <| List.mem_of_mem_take he
  have hm q : q ∈ sv.scan (s.changelogQuads (some (ChangelogEntry.subject e.id)) none) ↔
      q ∈ e.quads sv := sv.mem_scan.trans <| h.mem_about hn he
  simp only [Function.comp_apply, Details.foldl_of_mem_iff hm, ChangelogEntry.listed]

end Holds

namespace Log

variable {l : Log}

theorem toNat_add_one {a : UInt64} (h : a + 1 ≠ 0) : (a + 1).toNat = a.toNat + 1 := by
  have := UInt64.lt_iff_toNat_lt.mp <| lt_add_one h
  rw [UInt64.toNat_add, UInt64.toNat_one] at *
  omega

structure Invariant (sv : Services) (l : Log) : Prop where
  enabled : l.changelog.enabled
  retain  : 0 < l.changelog.retain
  counter : 0 < l.changelog.counter
  sorted  : l.recorded.Pairwise (·.id > ·.id)
  pos     : ∀ {e}, e ∈ l.recorded → 0 < e.id
  lt      : ∀ {e}, e ∈ l.recorded → e.id < l.changelog.counter
  holds   : Holds sv l.store l.live

namespace Invariant

theorem retained (h : Invariant sv l) : Retained sv l := by
  have hn : l.live.Pairwise (·.id > ·.id) := h.sorted.filter _
  refine ⟨Finset.ext fun q => ?_, hn, fun k n hk => ?_⟩
  · rw [h.holds, List.mem_toFinset, List.mem_flatMap]
  · refine ⟨_, by simp only [Log.pages, h.holds.list_eq hn h.enabled]; exact List.mapM_pure, ?_⟩
    rw [← List.flatMap_def, List.flatMap_pages, List.take_of_length_le]
    rwa [List.length_map]

-- A new entry moves the limit by one.
theorem live_add (h : Invariant sv l) (he : e.id = l.changelog.counter)
    (hc : l.changelog.counter + 1 ≠ 0) (hc' : c.counter = l.changelog.counter + 1)
    (hr : c.retain = l.changelog.retain) :
    live ⟨c, s, e :: l.recorded⟩ =
      (e :: l.live).filter (l.changelog.isKept l.changelog.counter) := by
  have h₀ : 0 < l.changelog.retain.toNat := UInt64.lt_iff_toNat_lt.mp h.retain
  simp only [live, isKept, List.filter_cons, List.filter_filter, hc', hr, he, toNat_add_one hc,
    Nat.succ_le_iff, Nat.lt_add_of_pos_right h₀]
  refine if_congr Iff.rfl (congrArg _ ?_) ?_ <;>
  · refine List.filter_congr fun e _ => ?_
    simpa using Nat.le_of_lt

theorem add (h : Invariant sv l) (he : e.id = l.changelog.counter)
    (hc : l.changelog.counter + 1 ≠ 0) (hc' : c.counter = l.changelog.counter + 1)
    (hr : c.retain = l.changelog.retain) (hn : c.enabled = l.changelog.enabled)
    (hs : Holds sv s ((e :: l.live).filter (l.changelog.isKept l.changelog.counter))) :
    Invariant sv ⟨c, s, e :: l.recorded⟩ := by
  have hlt := lt_add_one hc
  constructor
  case enabled => exact hn ▸ h.enabled
  case retain => exact hr ▸ h.retain
  case counter => exact hc' ▸ UInt64.lt_trans h.counter hlt
  case sorted => exact List.pairwise_cons.mpr ⟨fun _ he' => he ▸ h.lt he', h.sorted⟩
  case pos =>
    intro e' he'
    cases he'
    case head => exact he ▸ h.counter
    case tail he' => exact h.pos he'
  case lt =>
    intro e' he'
    simp only [hc']
    cases he'
    case head => exact he ▸ hlt
    case tail he' => exact UInt64.lt_trans (h.lt he') hlt
  case holds => rwa [h.live_add he hc hc' hr]

theorem record (h : Invariant sv l) (hf : ∀ stage, (am.faults stage).isNone)
    (hc : l.changelog.counter + 1 ≠ 0)
    (hs : s.changelogQuads none none = l.store.changelogQuads none none) :
    Invariant sv ⟨(l.changelog.record sv am ops operation s).2.1,
      (l.changelog.record sv am ops operation s).2.2,
      l.changelog.written am ops operation ++ l.recorded⟩ := by
  have hw : l.changelog.written am ops operation = [l.changelog.entry am ops operation] :=
    if_pos ⟨h.enabled, hf .entry⟩
  rw [record_of_isNone h.enabled h.retain hf, hw]
  refine h.add rfl hc rfl rfl rfl <| ((h.holds.congr hs).insertAll _).prune _ _ ?_ (hf .prune)
  intro e he
  cases he
  case head => exact h.counter
  case tail he => exact h.pos (List.mem_filter.mp he).left

theorem purge (h : Invariant sv l) (hf : ∀ stage, (am.faults stage).isNone) :
    Invariant sv (l.step sv (.purge am)) := by
  have ht : l.store.transact (am.faults .write) ChangelogError.internal
      (fun s => .ok <| s.removeAll (sv.scan (l.store.changelogQuads none none))) = (.ok (), _) :=
    Store.transact_of_isNone (hf .write) rfl
  rw [Log.step, Changelog.purge, if_neg (by simp [h.enabled])]
  simp only [ht]
  constructor
  case enabled => exact h.enabled
  case retain => exact h.retain
  case counter => exact h.counter
  case sorted => exact .nil
  case pos => simp
  case lt => simp
  case holds =>
    intro q
    rw [mem_changelogQuads, Store.mem_removeAll, sv.mem_scan, mem_changelogQuads]
    simp [live]

theorem step {call : Call} (h : Invariant sv l) (hq : l.Quiet call) (ha : l.Apart sv call) :
    Invariant sv (l.step sv call) := by
  cases call
  case record => exact h.record hq ha rfl
  case undo am id =>
    obtain ⟨hu, hw⟩ | ⟨_, _, _, hs, hu, hw⟩ := undo_cases am id ha.right
    · simp only [Log.step, hu, hw]
      exact h
    · simp only [Log.step, hu, hw]
      exact h.record hq ha.left hs
  case purge => exact h.purge hq

end Invariant

theorem holds_nil (hs : s.changelogQuads none none = ∅) : Holds sv s [] :=
  fun q => by simp [hs]

theorem initial_changelog (hs : s.changelogQuads none none = ∅) (retain : UInt64) :
    (initial sv retain s).changelog = .new true retain := by
  have ht : txnIdQuads sv s = [] :=
    List.eq_nil_iff_forall_not_mem.mpr fun q hq => by
      simpa using (holds_nil hs).mem_txnIdQuads.mp hq
  simp [initial, initCounter, ht, new]

theorem invariant_initial (hs : s.changelogQuads none none = ∅) {retain : UInt64}
    (hr : 0 < retain) : Invariant sv (initial sv retain s) := by
  have hc : (initial sv retain s).changelog = .new true retain := initial_changelog hs retain
  constructor
  case enabled => exact hc ▸ rfl
  case retain => exact hc ▸ hr
  case counter => exact hc ▸ (by decide : (0 : UInt64) < 1)
  case sorted => exact .nil
  case pos => simp [initial]
  case lt => simp [initial]
  case holds => exact holds_nil hs

-- As long as undoing does not write to the graph of the changelog, the changelog has the last
-- entries, and paging through it gives all of them.
theorem retained_of_apart (sv : Services) (retain : UInt64) (s : Store) (calls : List Call)
    (hr : 0 < retain) (hs : s.changelogQuads none none = ∅)
    (hq : Run.Along (step sv) Quiet (initial sv retain s) calls)
    (ha : Run.Along (step sv) (Apart sv) (initial sv retain s) calls) :
    Retained sv (Run.run (step sv) (initial sv retain s) calls) :=
  Run.invariant (invariant_initial hs hr) (hq.and ha) (fun h hc => h.step hc.left hc.right)
    |>.retained

theorem initial_empty (sv : Services) (retain : UInt64) :
    initial sv retain .empty = ⟨.new true retain, .empty, []⟩ := by
  have hc : (initial sv retain .empty).changelog = .new true retain := initial_changelog rfl retain
  exact hc ▸ rfl

theorem retained_of_apart_sample : Retained .plain (Run.run (step .plain)
    (initial .plain 1 .empty)
    [.purge .plain, .record .plain [] "update", .record .plain [] "store"]) := by
  apply retained_of_apart
  · decide
  · rfl
  · exact ⟨fun _ => rfl, fun _ => rfl, fun _ => rfl, trivial⟩
  · rw [initial_empty]
    exact ⟨trivial, (by decide : (1 : UInt64) + 1 ≠ 0), (by decide : (2 : UInt64) + 1 ≠ 0), trivial⟩

-- An entry with a quad about itself.
def selfQuad : Rdf.Quad := txnIdQuad ((new true 2).entry .plain [] "store")

def selfEntry : ChangelogEntry := (new true 2).entry .plain [.insertQuads [selfQuad]] "store"

noncomputable def selfServices : Services := .ofBook [(97, letterQuad 'a'), (120, selfQuad)]

theorem stored_selfEntry : selfEntry.stored selfServices = selfEntry := by
  rw [ChangelogEntry.stored,
    show selfServices.reread selfEntry.inserted = selfEntry.inserted from rfl]
  rfl

theorem get_selfEntry (hc : c.enabled) :
    c.get selfServices (Store.empty.insertAll (selfEntry.quads selfServices)) selfEntry.id =
      .ok (some selfEntry) := by
  rw [get_of_about hc, stored_selfEntry]
  rw [about_insertAll_quads]
  simp [Store.about, Store.changelogQuads, Store.empty]

def selfChangelog : Changelog := { Changelog.new true 2 with counter := 2 }

-- The log with this entry.
noncomputable def selfLog : Log where
  changelog := selfChangelog
  store     := Store.empty.insertAll (selfEntry.quads selfServices)
  recorded  := [selfEntry]

def selfUndo : ChangelogEntry :=
  selfChangelog.entry .plain [.insertQuads [], .removeQuads [selfQuad]] "undo:1"

theorem step_undo_selfLog : selfLog.step selfServices (.undo .plain 1) =
    ⟨{ selfChangelog with counter := 3 },
      (selfLog.store.removeAll [selfQuad]).insertAll (selfUndo.quads selfServices),
      [selfUndo, selfEntry]⟩ := by
  have hg : selfLog.changelog.get selfServices selfLog.store 1 = .ok (some selfEntry) :=
    get_selfEntry rfl
  simp only [step, undo, writtenByUndo, hg]
  rfl

-- Undoing the entry removes its id from the graph of the changelog.
theorem not_retained_of_undo_self : ∃ calls,
    Run.Along (step selfServices) Quiet (initial selfServices 2 .empty) calls ∧
    ¬Retained selfServices (Run.run (step selfServices) (initial selfServices 2 .empty) calls) := by
  refine ⟨[.record .plain [.insertQuads [selfQuad]] "store", .undo .plain 1],
    ⟨fun _ => rfl, fun _ => rfl, trivial⟩, fun h => ?_⟩
  have hr : step selfServices ⟨.new true 2, .empty, []⟩
      (.record .plain [.insertQuads [selfQuad]] "store") = selfLog := rfl
  have h := h.quads
  rw [initial_empty, Run.run_cons, hr, Run.run_cons, step_undo_selfLog, Run.run_nil] at h
  have hm : selfQuad ∈ ([selfUndo, selfEntry].flatMap (·.quads selfServices)).toFinset :=
    List.mem_toFinset.mpr <| List.mem_flatMap.mpr
      ⟨selfEntry, by simp, txnIdQuad_mem_quads selfServices selfEntry⟩
  have hq := (mem_changelogQuads.mp <| h ▸ hm).left
  obtain hq | hq := Store.mem_insertAll.mp hq
  · have hs := (ChangelogEntry.mem_quads.mp hq).left
    revert hs
    decide
  · exact (Store.mem_removeAll.mp hq).left (by simp)

end Log

end Changelog
