import OxigraphCloud.Storage.Memory.Theorems.Content
import OxigraphCloud.Storage.Memory.Theorems.Validate
import OxigraphCloud.Storage.Semantics

-- The operations of a transaction do what they mean to what the transaction finds.

-- Every graph name that is used is known, and the default graph has none.
structure Dataset.Proper (D : Dataset) : Prop where
  registered : D.Registered
  named      : .defaultGraph ∉ D.namedGraphs

theorem Dataset.Proper.meaning {D : Dataset} {enc : Encoder} (h : D.Proper) (op : ReadableOp) :
    (op.meaning enc id D).Proper := by
  obtain ⟨hr, hn⟩ := h
  cases op
  case insert quad =>
    simp only [ReadableOp.meaning, Dataset.insert, id]
    split
    case isTrue hg =>
      refine ⟨?_, hn⟩
      rintro q (rfl | hq) hq'
      · exact absurd hg hq'
      · exact hr q hq hq'
    case isFalse hg =>
      refine ⟨?_, ?_⟩
      · rintro q (rfl | hq) hq'
        · exact Set.mem_insert ..
        · exact Set.mem_insert_of_mem _ (hr q hq hq')
      · rintro (he | hm)
        · exact hg he.symm
        · exact hn hm
  case insertNamedGraph g =>
    refine ⟨fun q hq hg => .inr (hr q hq hg), ?_⟩
    rintro (he | hm)
    · have ht : (enc.encodeNamedOrBlankNode g).IsTerm :=
        (Encoder.registers_namedOrBlankNode g).isTerm
      rw [← he] at ht
      exact ht
    · exact hn hm
  case remove | clearGraph | clearAllNamedGraphs =>
    exact ⟨fun q hq => hr q hq.1, hn⟩
  case clearAllGraphs => exact ⟨fun q hq => absurd hq (Set.notMem_empty q), hn⟩
  case removeNamedGraph g =>
    refine ⟨fun q hq hg => ⟨hr q hq.1 hg, fun he => hq.2 ⟨hq.1, he⟩⟩, fun hm => hn hm.1⟩
  case removeAllNamedGraphs =>
    exact ⟨fun q hq hg => absurd hg hq.2, Set.notMem_empty _⟩
  case clear => exact ⟨fun q hq => absurd hq (Set.notMem_empty q), Set.notMem_empty _⟩

namespace Memory

theorem Content.graphNames_modify {content : Content} {f : VersionRange → VersionRange} :
    (content.modify f entry).graphNames = content.graphNames := by
  cases entry
  case quadNode => rfl
  case graph => exact Keyed.map_modify fun _ => rfl

theorem MemoryStorageReader.mem_namedGraphs {r : MemoryStorageReader} {content : Content}
    (hn : content.graphNames.Nodup) :
    g ∈ r.namedGraphs content ↔ g ∈ (r.dataset content).namedGraphs := by
  simp only [namedGraphs, dataset, containsNamedGraph, Content.graph, Set.mem_ofPred_eq,
    Option.any_map, List.mem_map, List.mem_filter]
  constructor
  · rintro ⟨entry, ⟨hm, hr⟩, rfl⟩
    rw [Keyed.get_of_mem hn hm]
    exact hr
  · intro h
    obtain ⟨entry, he, hr⟩ := (Option.any_eq_true ..).mp h
    obtain ⟨hm, rfl⟩ := Keyed.mem_of_get he
    exact ⟨entry, ⟨hm, hr⟩, rfl⟩

-- What is true of the storage at all times.
structure MemoryStorage.Sound (enc : Encoder) (s : MemoryStorage) : Prop where
  wellFormed : s.WellFormed enc
  graphNames : s.content.graphNames.Nodup
  committed  : (Content.dataset (Toggles.seen s.content.history s.versionCounter)).Proper

namespace MemoryStorageTransaction

variable {t t' t'' : MemoryStorageTransaction} {b : Bool} {E E' : Set LogEntry} {entry : LogEntry}
  {enc : Encoder}

abbrev history (t : MemoryStorageTransaction) : LogEntry → List ℕ := t.storage.content.history

-- What the transaction has made of the dataset so far.
def dataset (t : MemoryStorageTransaction) : Dataset := Content.dataset (Toggles.current t.history)

-- The transaction has added all of the entries, or it has removed all of them.
structure Sets (b : Bool) (E : Set LogEntry) (t t' : MemoryStorageTransaction) : Prop where
  transactionId : t'.transactionId = t.transactionId
  snapshotId    : t'.snapshotId = t.snapshotId
  counters      : t'.storage.versionCounter = t.storage.versionCounter ∧
    t'.storage.transactionCounter = t.storage.transactionCounter
  changed       : ∀ e ∈ E, ¬(Odd (t.history e).length ↔ b) →
    t'.history e = Toggles.flip t.transactionId (t.history e) ∧ e ∈ t'.log
  kept          : ∀ e, (e ∈ E → (Odd (t.history e).length ↔ b)) → t'.history e = t.history e
  log           : t.log ⊆ t'.log
  graphNames    : t.storage.content.graphNames.Nodup → t'.storage.content.graphNames.Nodup
  nodes         : t.storage.content.Grows t'.storage.content

namespace Sets

-- There is nothing to do.
theorem refl (h : ∀ e ∈ E, (Odd (t.history e).length ↔ b)) : Sets b E t t where
  transactionId := rfl
  snapshotId    := rfl
  counters      := ⟨rfl, rfl⟩
  changed e he hn := absurd (h e he) hn
  kept _ _      := rfl
  log           := List.Subset.refl _
  graphNames    := id
  nodes         := .of_eq rfl

theorem trans (h : Sets b E t t') (h' : Sets b E' t' t'') : Sets b (E ∪ E') t t'' where
  transactionId := h'.transactionId.trans h.transactionId
  snapshotId    := h'.snapshotId.trans h.snapshotId
  counters      := ⟨h'.counters.1.trans h.counters.1, h'.counters.2.trans h.counters.2⟩
  changed e he hn := by
    by_cases hm : e ∈ E
    case pos =>
      obtain ⟨hf, hl⟩ := h.changed e hm hn
      refine ⟨(h'.kept e fun _ => ?_).trans hf, h'.log hl⟩
      rw [hf, Toggles.odd_length_flip]
      tauto
    case neg =>
      have hk := h.kept e fun he => absurd he hm
      rw [← hk] at hn ⊢
      rw [← h.transactionId]
      exact h'.changed e (he.resolve_left hm) hn
  kept e he := by
    have hk := h.kept e fun hm => he (.inl hm)
    rw [h'.kept e fun hm => hk ▸ he (.inr hm), hk]
  log _ he      := h'.log (h.log he)
  graphNames    := h'.graphNames ∘ h.graphNames
  nodes         := h.nodes.trans h'.nodes

theorem congr (h : Sets b E t t') (he : ∀ e, e ∈ E ↔ e ∈ E') : Sets b E' t t' :=
  Set.ext he ▸ h

theorem foldl {α : Type} {f : MemoryStorageTransaction → α → MemoryStorageTransaction}
    {E : α → Set LogEntry} {I : MemoryStorageTransaction → Prop} (h : I t)
    (hI : ∀ t a, I t → I (f t a)) (hf : ∀ t a, I t → Sets b (E a) t (f t a)) (l : List α) :
    Sets b { e | ∃ a ∈ l, e ∈ E a } t (l.foldl f t) := by
  induction l generalizing t
  case nil => exact refl (by simp)
  case cons a l hi => exact ((hf t a h).trans (hi (hI t a h))).congr (by simp)

-- What is logged in addition does no harm.
theorem push (h : Sets b E t t') : Sets b E (t.push entry) (t'.push entry) where
  transactionId := h.transactionId
  snapshotId    := h.snapshotId
  counters      := h.counters
  changed e he hn := (h.changed e he hn).imp_right (List.mem_append_left _)
  kept          := h.kept
  log           := List.append_subset.mpr
    ⟨List.subset_append_of_subset_left _ h.log, List.subset_append_right ..⟩
  graphNames    := h.graphNames
  nodes         := h.nodes

theorem mem_current (h : Sets b E t t') : entry ∈ Toggles.current t'.history ↔
    (entry ∈ E ∧ b) ∨ (entry ∉ E ∧ entry ∈ Toggles.current t.history) := by
  simp only [Toggles.current, Set.mem_ofPred_eq]
  by_cases hc : entry ∈ E ∧ ¬(Odd (t.history entry).length ↔ b)
  · rw [(h.changed entry hc.1 hc.2).1, Toggles.odd_length_flip]
    tauto
  · rw [h.kept entry fun he => by tauto]
    tauto

theorem dataset_add (h : Sets true E t t') : t'.dataset =
    ⟨t.dataset.quads ∪ { q | .quadNode q ∈ E }, t.dataset.namedGraphs ∪ { g | .graph g ∈ E }⟩ := by
  refine Dataset.ext (Set.ext fun q => h.mem_current.trans ?_)
    (Set.ext fun g => h.mem_current.trans ?_)
  all_goals
    simp only [dataset, Content.dataset, Set.mem_union, Set.mem_ofPred_eq]
    tauto

theorem dataset_remove (h : Sets false E t t') : t'.dataset =
    ⟨t.dataset.quads \ { q | .quadNode q ∈ E }, t.dataset.namedGraphs \ { g | .graph g ∈ E }⟩ := by
  refine Dataset.ext (Set.ext fun q => h.mem_current.trans ?_)
    (Set.ext fun g => h.mem_current.trans ?_)
  all_goals
    simp only [dataset, Content.dataset, Set.mem_sdiff, Set.mem_ofPred_eq]
    tauto

theorem running (h : Sets b E t t') (ht : limit < t.transactionId)
    (hr : Toggles.Running limit t.transactionId t.log t.history) :
    Toggles.Running limit t'.transactionId t'.log t'.history := by
  rw [h.transactionId]
  constructor <;> intro e <;>
    by_cases hc : e ∈ E ∧ ¬(Odd (t.history e).length ↔ b)
  · rw [(h.changed e hc.1 hc.2).1]
    exact (hr.ordered e).flip ht
  · rw [h.kept e fun he => by tauto]
    exact hr.ordered e
  · exact fun _ => (h.changed e hc.1 hc.2).2
  · rw [h.kept e fun he => by tauto]
    exact fun hm => h.log (hr.logged e hm)

theorem seen_eq (h : Sets b E t t') (hn : n < t.transactionId) :
    Toggles.seen t'.history n = Toggles.seen t.history n := by
  refine Set.ext fun e => ?_
  simp only [Toggles.seen, Set.mem_ofPred_eq]
  by_cases hc : e ∈ E ∧ ¬(Odd (t.history e).length ↔ b)
  · rw [(h.changed e hc.1 hc.2).1, Toggles.has_flip hn]
  · rw [h.kept e fun he => by tauto]

end Sets

-- One entry is changed, unless this has been done before.
theorem sets_of_update {content : Content}
    (hi : t'.transactionId = t.transactionId ∧ t'.snapshotId = t.snapshotId)
    (hs : t'.storage = { t.storage with content })
    (hh : content.history = Function.update t.history entry l) (hl : t.log ⊆ t'.log)
    (hg : t.storage.content.graphNames.Nodup → content.graphNames.Nodup)
    (hn : t.storage.content.Grows content)
    (hc : ¬(Odd (t.history entry).length ↔ b) →
      l = Toggles.flip t.transactionId (t.history entry) ∧ entry ∈ t'.log)
    (hk : (Odd (t.history entry).length ↔ b) → l = t.history entry) : Sets b {entry} t t' := by
  have hh : t'.history = Function.update t.history entry l := by rw [← hh, history, hs]
  refine ⟨hi.1, hi.2, by simp [hs], fun e he hn => ?_, fun e he => ?_, hl, by simpa [hs] using hg,
    by simpa [hs] using hn⟩
  · obtain rfl : e = entry := he
    rw [hh, Function.update_self]
    exact hc hn
  · rw [hh]
    by_cases h : e = entry
    · subst h
      rw [Function.update_self, hk (he rfl)]
    · rw [Function.update_of_ne h]

theorem change_sets {f : VersionRange → Bool × VersionRange}
    (hf : VersionRange.Sets b t.transactionId f)
    (h : b = true → (t.storage.content.range entry).isSome) :
    Sets b {entry} t (t.change f entry).2 := by
  unfold change
  cases hr : t.storage.content.range entry
  case none =>
    have hb : b = false := by simpa [hr] using h
    refine .refl fun e he => ?_
    obtain rfl : e = entry := he
    simp [history, Content.history, hr, hb]
  case some range =>
    let g (l : List ℕ) := if Odd l.length ↔ b then l else Toggles.flip t.transactionId l
    have hh : (t.storage.content.modify (fun range => (f range).2) entry).history =
        Function.update t.history entry (g (t.history entry)) := by
      refine Content.history_modify (fun range => ?_) (by simp [hr])
      rw [hf.toggles]
      have := hf.changed range
      dsimp only [g]
      split_ifs <;> tauto
    have hc : (f range).1 = true ↔ ¬(Odd (t.history entry).length ↔ b) := by
      rw [hf.changed, history, Content.history, hr]
      rfl
    have hg : t.storage.content.graphNames =
        (t.storage.content.modify (fun range => (f range).2) entry).graphNames :=
      Content.graphNames_modify.symm
    dsimp only
    split
    case isTrue h =>
      exact sets_of_update ⟨rfl, rfl⟩ rfl hh (List.subset_append_left ..) (hg ▸ id)
        Content.grows_modify (fun hn => ⟨if_neg hn, by simp [push]⟩) fun hp => if_pos hp
    case isFalse h =>
      exact sets_of_update ⟨rfl, rfl⟩ rfl hh (List.Subset.refl _) (hg ▸ id)
        Content.grows_modify (fun hn => absurd (hc.mpr hn) h) fun hp => if_pos hp

-- An entry for which there is no range yet.
theorem new_sets {f : Content → Content} (hn : t.history entry = [])
    (hh : (f t.storage.content).history = Function.update t.history entry [t.transactionId])
    (hg : t.storage.content.graphNames.Nodup → (f t.storage.content).graphNames.Nodup)
    (hc : t.storage.content.Grows (f t.storage.content)) :
    Sets true {entry} t ((t.modifyContent f).push entry) :=
  sets_of_update ⟨rfl, rfl⟩ rfl hh (List.subset_append_left ..) hg hc
    (fun _ => ⟨by simp [hn, Toggles.flip], by simp [push]⟩) (by simp [hn])

theorem insertTerm_sets {term : Rdf.Term} {encoded : EncodedTerm} :
    Sets b ∅ t (t.insertTerm term encoded) := by
  refine (Sets.foldl (I := fun _ => True) (E := fun _ => ∅) trivial (fun _ _ => id)
    (fun t str _ => ?_) _).congr (by simp)
  exact ⟨rfl, rfl, ⟨rfl, rfl⟩, fun e he => absurd he (Set.notMem_empty e), fun _ _ => rfl,
    List.Subset.refl _, id, .of_eq rfl⟩

theorem insertEncodedNamedGraph_sets {graphName : Rdf.NamedOrBlankNode} {encoded : EncodedTerm} :
    Sets true {.graph encoded} t (t.insertEncodedNamedGraph graphName encoded) := by
  unfold insertEncodedNamedGraph
  cases hg : t.storage.content.graph encoded
  case some range => exact change_sets VersionRange.sets_add fun _ => by simp [Content.range, hg]
  case none =>
    have hr : t.storage.content.range (.graph encoded) = none := hg
    have hn : encoded ∉ t.storage.content.graphNames := by
      rw [← Content.graph_isSome, hg]
      simp
    have hs : Sets true {.graph encoded} t
        ((t.modifyContent (.pushGraph encoded (.start t.transactionId))).push (.graph encoded)) :=
      new_sets (by simp [history, Content.history, hr]) Content.history_pushGraph
        (fun h => List.nodup_cons.mpr ⟨hn, h⟩) (.of_eq rfl)
    exact (hs.trans insertTerm_sets.push).congr (by simp)

-- The entries of a quad.
def entries (quad : EncodedQuad) : Set LogEntry :=
  { e | e = .quadNode quad ∨ quad.graphName ≠ .defaultGraph ∧ e = .graph quad.graphName }

theorem entries_eq {quad : EncodedQuad} (h : quad.graphName ≠ .defaultGraph) :
    entries quad = {.quadNode quad} ∪ {.graph quad.graphName} := by
  ext e
  simp [entries, h, or_comm]

theorem entries_eq_singleton {quad : EncodedQuad} (h : quad.graphName = .defaultGraph) :
    entries quad = {.quadNode quad} := by
  ext e
  simp [entries, h]

theorem insert_sets (h : t.storage.WellFormed enc) (hr : t.dataset.Registered) (quad : Rdf.Quad) :
    Sets true (entries (enc.encodeQuad quad)) t (t.insert enc quad) := by
  have hd : quad.graphName.isDefaultGraph ↔ (enc.encodeQuad quad).graphName = .defaultGraph := by
    simp [Encoder.encodeQuad]
  unfold insert
  generalize enc.encodeQuad quad = encoded at hd ⊢
  cases hn : t.storage.content.node encoded
  case some node =>
    have hm : encoded ∈ t.storage.content.quads := by
      rw [← Content.node_isSome, hn]
      rfl
    have hc : Sets true {.quadNode encoded} t
        (t.change (VersionRange.add t.transactionId) (.quadNode encoded)).2 :=
      change_sets VersionRange.sets_add fun _ => by simp [Content.range, hn]
    have he : MemoryStorage.Extends t.storage
        (t.change (VersionRange.add t.transactionId) (.quadNode encoded)).2.storage :=
      change_extends
    have hf : (t.change (VersionRange.add t.transactionId) (.quadNode encoded)).1 = false →
        encoded ∈ t.dataset.quads := by
      have hr : t.storage.content.range (.quadNode encoded) = some node.range := by
        simp [Content.range, hn]
      have ho : (VersionRange.add t.transactionId node.range).1 = true ↔ _ :=
        VersionRange.sets_add.changed node.range
      intro hf
      by_contra hm
      have hm : ¬Odd (t.history (.quadNode encoded)).length := hm
      simp only [history, Content.history, hr, Option.elim_some] at hm
      simp [change, hr, ho, hm] at hf
    simp only [hn]
    split
    case h_1 t₁ ht =>
      rw [ht] at hc he
      split
      case isTrue hg =>
        rw [entries_eq_singleton (hd.mp hg)]
        exact hc
      case isFalse hg =>
        have hg := fun hg' => hg (hd.mpr hg')
        have hk := he.graphs _ ((h.holds encoded hm).graph.resolve_left hg)
        rw [entries_eq hg]
        refine hc.trans (change_sets VersionRange.sets_add fun _ => ?_)
        exact Content.graph_isSome.mpr hk
    case h_2 t₁ ht =>
      rw [ht] at hc he hf
      by_cases hg : encoded.graphName = .defaultGraph
      case pos =>
        rw [entries_eq_singleton hg]
        exact hc
      case neg =>
        -- The graph name is known because the quad is there already.
        have hk : Sets true {.graph encoded.graphName} t t := .refl fun e he => by
          obtain rfl : e = _ := he
          exact iff_of_true (hr encoded (hf rfl) hg) rfl
        rw [entries_eq hg, Set.union_comm]
        exact hk.trans hc
  case none =>
    have hr : t.storage.content.range (.quadNode encoded) = none := by simp [Content.range, hn]
    have hp : Sets true {.quadNode encoded} t ((t.modifyContent
        (.pushNode encoded (.start t.transactionId))).push (.quadNode encoded)) :=
      new_sets (by simp [history, Content.history, hr]) Content.history_pushNode id
        Content.grows_pushNode
    have hs {t : MemoryStorageTransaction} : Sets true (∅ ∪ ∅ ∪ ∅) t
        (((t.insertTerm quad.subject.toTerm encoded.subject).insertTerm (.namedNode quad.predicate)
          encoded.predicate).insertTerm quad.object encoded.object) :=
      (insertTerm_sets.trans insertTerm_sets).trans insertTerm_sets
    simp only [hn]
    split
    case h_1 hg | h_2 hg =>
      have hg : encoded.graphName ≠ .defaultGraph := by
        simp [← hd, hg, Rdf.GraphName.isDefaultGraph]
      rw [entries_eq hg]
      exact (hp.trans (hs.trans insertEncodedNamedGraph_sets).push).congr (by simp)
    case h_3 hg =>
      have hg : encoded.graphName = .defaultGraph := by
        simp [← hd, hg, Rdf.GraphName.isDefaultGraph]
      rw [entries_eq_singleton hg]
      exact (hp.trans hs.push).congr (by simp)

theorem removeNode_sets (t : MemoryStorageTransaction) (quad : EncodedQuad) :
    Sets false {.quadNode quad} t (t.removeNode quad) :=
  change_sets VersionRange.sets_remove (by simp)

theorem removeGraphName_sets (t : MemoryStorageTransaction) (graphName : EncodedTerm) :
    Sets false {.graph graphName} t (t.removeGraphName graphName) :=
  change_sets VersionRange.sets_remove (by simp)

-- The loop visits the nodes of the graph, from the newest one to the oldest one.
theorem clearList_sets {graphName : EncodedTerm} {nodes : List QuadListNode}
    (h : t.storage.content.Coherent)
    (ha : Chain.At QuadListNode.quad (·.quad.graphName = graphName) t.storage.content.quadSet
      next nodes) (hl : nodes.length ≤ n) :
    Sets false { e | ∃ a ∈ nodes.filter (·.quad.graphName = graphName), e = .quadNode a.quad } t
      (clearList n next t) := by
  induction n generalizing next nodes t
  case zero =>
    obtain rfl := List.eq_nil_of_length_eq_zero (Nat.le_zero.mp hl)
    exact .refl (by simp)
  case succ n hi =>
    have hs : ∀ {a : QuadListNode}, decide (a.quad.graphName = graphName) →
        (QuadIteratorKind.position .graphName).same a =
          fun b => decide (b.quad.graphName = graphName) := by
      intro a ha
      funext b
      simp only [decide_eq_true_eq] at ha
      simp [QuadIteratorKind.same, EncodedQuad.term, ha, eq_comm]
    rcases ha.step h.nodup (h.linked (.position .graphName)) hs with ⟨rfl, he⟩ | hn
    case inl =>
      rw [he]
      exact .refl (by simp)
    case inr =>
      obtain ⟨_, a, nodes', rfl, hg, -, he, hlt, ha'⟩ := hn
      obtain ⟨f, hq, -, hf⟩ := (removeNode_extends t a.quad).nodes
      have hg : t.storage.content.node _ = some a := hg
      have ha' := ha'.map hq (fun b => by simp [hq b])
      rw [← hf] at ha'
      have hi := hi ((removeNode_extends t a.quad).coherent h) ha' (by simp; omega)
      simp only [clearList, Option.bind_some, hg]
      refine ((removeNode_sets t a.quad).trans hi).congr fun e => ?_
      rw [he, List.filter_map]
      simp [Function.comp_def, hq]

theorem history_eq_nil (h : ¬(t.storage.content.range entry).isSome) : t.history entry = [] := by
  simp [history, Content.history, Option.not_isSome_iff_eq_none.mp h]

theorem history_of_notMem {quad : EncodedQuad} (h : quad ∉ t.storage.content.quads) :
    t.history (.quadNode quad) = [] :=
  history_eq_nil (by simpa [Content.range, Content.node_isSome] using h)

theorem history_graph_of_notMem {graphName : EncodedTerm}
    (h : graphName ∉ t.storage.content.graphNames) : t.history (.graph graphName) = [] :=
  history_eq_nil (Content.graph_isSome.not.mpr h)

-- Entries that have never been there need not be removed.
theorem Sets.absent (h : Sets false E t t') (hs : ∀ e ∈ E, e ∈ E')
    (hn : ∀ e ∈ E', e ∈ E ∨ t.history e = []) : Sets false E' t t' := by
  have hr : Sets false { e ∈ E' | t.history e = [] } t t := .refl fun e he => by simp [he.2]
  refine (hr.trans h).congr fun e => ⟨fun he => he.elim And.left (hs e), fun he => ?_⟩
  exact (hn e he).symm.imp_left fun hn => ⟨he, hn⟩

theorem clearEncodedGraph_sets (h : t.storage.content.Coherent) (graphName : EncodedTerm) :
    Sets false { e | ∃ q, q.graphName = graphName ∧ e = .quadNode q } t
      (t.clearEncodedGraph graphName) := by
  have ha : Chain.At QuadListNode.quad (fun a => a.quad.graphName = graphName)
      t.storage.content.quadSet ((t.storage.content.lastQuadBy .graphName graphName).map Prod.fst)
      t.storage.content.quadSet := by
    refine ⟨List.suffix_refl _, ?_⟩
    rw [h.lastBy, Option.map_map, ← List.head?_filter]
    rfl
  refine (clearList_sets h ha le_rfl).absent ?_ ?_
  · rintro e ⟨a, hm, rfl⟩
    exact ⟨a.quad, by simpa using (List.mem_filter.mp hm).2, rfl⟩
  · rintro e ⟨q, hq, rfl⟩
    refine or_iff_not_imp_right.mpr fun hn => ?_
    obtain ⟨a, hm, rfl⟩ := List.mem_map.mp (not_imp_comm.mp history_of_notMem hn)
    exact ⟨a, List.mem_filter.mpr ⟨hm, by simpa using hq⟩, rfl⟩

theorem clearAllNamedGraphs_sets (h : t.storage.content.Coherent) :
    Sets false { e | ∃ g ∈ t.reader.namedGraphs t.storage.content,
      ∃ q, q.graphName = g ∧ e = .quadNode q } t t.clearAllNamedGraphs :=
  .foldl h (fun t g => (clearEncodedGraph_extends t g).coherent)
    (fun _ g h => clearEncodedGraph_sets h g) _

-- All entries of a kind are removed, one after the other.
theorem removeAll_sets {α : Type} {f : MemoryStorageTransaction → α → MemoryStorageTransaction}
    {e : α → LogEntry} {l : List α} (hf : ∀ t a, Sets false {e a} t (f t a))
    (hn : ∀ a ∉ l, t.history (e a) = []) : Sets false { x | ∃ a, x = e a } t (l.foldl f t) := by
  have h : Sets false { x | ∃ a ∈ l, x = e a } t (l.foldl f t) :=
    .foldl (I := fun _ => True) trivial (fun _ _ => id) (fun t a _ => hf t a) l
  refine h.absent (fun e he => he.imp fun _ => And.right) ?_
  rintro _ ⟨a, rfl⟩
  exact or_iff_not_imp_right.mpr fun h => ⟨a, not_imp_comm.mp (hn a) h, rfl⟩

theorem clearAllGraphs_sets : Sets false { e | ∃ q, e = .quadNode q } t t.clearAllGraphs :=
  removeAll_sets removeNode_sets fun _ => history_of_notMem

theorem doRemoveGraphs_sets : Sets false { e | ∃ g, e = .graph g } t t.doRemoveGraphs :=
  removeAll_sets removeGraphName_sets fun _ => history_graph_of_notMem

-- The numbers of a transaction. The number of its version is still lower than its own number.
structure Numbered (t : MemoryStorageTransaction) : Prop where
  lt      : t.snapshotId + 1 < t.transactionId
  version : t.storage.versionCounter = t.snapshotId
  counter : t.storage.transactionCounter = t.transactionId

-- The state of a running transaction.
structure Sound (enc : Encoder) (t : MemoryStorageTransaction) : Prop where
  storage  : t.storage.Sound enc
  numbered : t.Numbered
  running  : Toggles.Running t.snapshotId t.transactionId t.log t.history
  proper   : t.dataset.Proper

-- The transaction reads its own changes.
theorem Sound.reader_dataset (h : t.Sound enc) :
    t.reader.dataset t.storage.content = t.dataset := by
  rw [MemoryStorageReader.dataset_eq fun e => (h.running.ordered e).sorted, dataset,
    ← h.running.current_eq (Nat.lt_of_succ_lt h.numbered.lt)]
  rfl

theorem Sound.mem_namedGraphs (h : t.Sound enc) :
    g ∈ t.reader.namedGraphs t.storage.content ↔ g ∈ t.dataset.namedGraphs := by
  rw [← h.reader_dataset]
  exact MemoryStorageReader.mem_namedGraphs h.storage.graphNames

theorem Sound.apply_sets (h : t.Sound enc) (op : ReadableOp) :
    ∃ b E, Sets b E t (t.apply enc op) ∧
      (t.apply enc op).dataset = op.meaning enc id t.dataset := by
  have hc := h.storage.wellFormed.coherent
  -- All quads of named graphs are found by the names of the graphs.
  have hn (q : EncodedQuad) (hq : q ∈ t.dataset.quads) :
      q.graphName ∈ t.reader.namedGraphs t.storage.content ↔ q.graphName ≠ .defaultGraph := by
    rw [h.mem_namedGraphs]
    exact ⟨fun hg he => h.proper.named (he ▸ hg), h.proper.registered q hq⟩
  cases op
  case insert quad =>
    have hs := insert_sets h.storage.wellFormed h.proper.registered quad
    refine ⟨_, _, hs, hs.dataset_add.trans ?_⟩
    refine Dataset.ext (by ext q; simp [ReadableOp.meaning, Dataset.insert, entries, or_comm]) ?_
    simp only [ReadableOp.meaning, Dataset.insert, id]
    split <;> ext g <;> simp_all [entries, or_comm]
  case insertNamedGraph g =>
    have hs : Sets true _ t (t.insertNamedGraph enc g) := insertEncodedNamedGraph_sets
    exact ⟨_, _, hs, hs.dataset_add.trans <| by simp [ReadableOp.meaning, Dataset.insertNamedGraph]⟩
  case remove quad =>
    have hs : Sets false _ t (t.remove enc quad) := removeNode_sets t _
    exact ⟨_, _, hs, hs.dataset_remove.trans <| by simp [ReadableOp.meaning, Dataset.remove]⟩
  case clearGraph g =>
    have hs : Sets false _ t (t.clearGraph enc g) := clearEncodedGraph_sets hc _
    refine ⟨_, _, hs, hs.dataset_remove.trans ?_⟩
    refine Dataset.ext ?_ ?_ <;> ext x <;>
      simp +contextual [ReadableOp.meaning, Dataset.clearGraph, quadsOf]
  case clearAllNamedGraphs =>
    have hs : Sets false _ t t.clearAllNamedGraphs := clearAllNamedGraphs_sets hc
    refine ⟨_, _, hs, hs.dataset_remove.trans ?_⟩
    refine Dataset.ext ?_ ?_ <;> ext x <;>
      simp +contextual [ReadableOp.meaning, Dataset.clearAllNamedGraphs, hn]
  case clearAllGraphs =>
    have hs : Sets false _ t t.clearAllGraphs := clearAllGraphs_sets
    exact ⟨_, _, hs, hs.dataset_remove.trans <|
      by simp [ReadableOp.meaning, Dataset.clearAllGraphs]⟩
  case removeNamedGraph g =>
    have hs : Sets false _ t (t.removeNamedGraph enc g) :=
      (clearEncodedGraph_sets hc _).trans (removeGraphName_sets _ _)
    refine ⟨_, _, hs, hs.dataset_remove.trans ?_⟩
    refine Dataset.ext ?_ ?_ <;> ext x <;>
      simp +contextual [ReadableOp.meaning, Dataset.removeNamedGraph, quadsOf]
  case removeAllNamedGraphs =>
    have hs : Sets false _ t t.removeAllNamedGraphs :=
      (clearAllNamedGraphs_sets hc).trans doRemoveGraphs_sets
    refine ⟨_, _, hs, hs.dataset_remove.trans ?_⟩
    refine Dataset.ext ?_ ?_ <;> ext x <;>
      simp +contextual [ReadableOp.meaning, Dataset.removeAllNamedGraphs, hn]
  case clear =>
    have hs : Sets false _ t t.clear := clearAllGraphs_sets.trans doRemoveGraphs_sets
    exact ⟨_, _, hs, hs.dataset_remove.trans <| by simp [ReadableOp.meaning, Dataset.clear]⟩

theorem Sound.apply (h : t.Sound enc) (op : ReadableOp) :
    (t.apply enc op).Sound enc ∧ (t.apply enc op).snapshotId = t.snapshotId ∧
      (t.apply enc op).dataset = op.meaning enc id t.dataset ∧
      (∀ n ≤ t.snapshotId, Toggles.seen (t.apply enc op).history n = Toggles.seen t.history n) ∧
      t.storage.content.Grows (t.apply enc op).storage.content := by
  obtain ⟨b, E, hs, hd⟩ := h.apply_sets op
  have hlt := Nat.lt_of_succ_lt h.numbered.lt
  have he : ∀ n ≤ t.snapshotId, _ := fun n hn => hs.seen_eq (hn.trans_lt hlt)
  refine ⟨⟨⟨?_, ?_, ?_⟩, ⟨?_, ?_, ?_⟩, ?_, ?_⟩, hs.snapshotId, hd, he, hs.nodes⟩
  · exact apply_wellFormed h.storage.wellFormed op
  · exact hs.graphNames h.storage.graphNames
  · rw [hs.counters.1, he _ h.numbered.version.le]
    exact h.storage.committed
  · rw [hs.snapshotId, hs.transactionId]
    exact h.numbered.lt
  · rw [hs.counters.1, hs.snapshotId, h.numbered.version]
  · rw [hs.counters.2, hs.transactionId, h.numbered.counter]
  · rw [hs.snapshotId]
    exact hs.running hlt h.running
  · rw [hd]
    exact h.proper.meaning op

theorem history_upgradeEntry (t : MemoryStorageTransaction) (entry : LogEntry) :
    (t.upgradeEntry t.storage entry).content.history = Function.update t.history entry
      (Toggles.upgrade t.transactionId (t.snapshotId + 1) (t.history entry)) :=
  Content.history_modify (fun _ => VersionRange.toggles_upgradeTransaction) fun _ => rfl

theorem history_rollbackEntry (t : MemoryStorageTransaction) (entry : LogEntry) :
    (t.rollbackEntry t.storage entry).content.history = Function.update t.history entry
      (Toggles.rollback t.transactionId (t.history entry)) :=
  Content.history_modify (fun _ => VersionRange.toggles_rollbackTransaction) fun _ => rfl

end MemoryStorageTransaction

end Memory
