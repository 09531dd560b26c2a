import OxigraphCloud.Storage.Layout

variable {t : Tables} {D : Dataset} {Q : Set EncodedQuad} {e : QuadEncoding} {q : EncodedQuad}

theorem QuadEncoding.table_injective : Function.Injective table := by
  intro e e' h
  cases e <;> cases e' <;> first | rfl | contradiction

theorem QuadEncoding.table_ne_graphs (e : QuadEncoding) : e.table ≠ .graphs := by
  cases e <;> simp [table]

theorem QuadEncoding.table_ne_id2str (e : QuadEncoding) : e.table ≠ .id2str := by
  cases e <;> simp [table]

theorem EncodedQuad.IsQuad.exists_indexes (h : q.IsQuad) : ∃ e, QuadEncoding.Indexes e q := by
  by_cases hg : q.graphName = .defaultGraph
  · exact ⟨.dspo, h, by simp [hg]; rfl⟩
  · exact ⟨.gspo, h, by simp [hg]; rfl⟩

namespace Tables

theorem Indexes.mem_iff (h : t.Indexes Q) (hq : e.Indexes q) :
    e.writer q ∈ t e.table ↔ q.canonical ∈ Q := by
  rw [h.index]
  constructor
  · intro ⟨q', hq', hi, hw⟩
    exact hq.writer_eq_iff hi |>.mp hw.symm ▸ (h.canonical q' hq').symm ▸ hq'
  · intro hc
    exact ⟨_, hc, hq.canonical, QuadEncoding.writer_canonical⟩

theorem Stores.mem_graphs_iff (h : t.Stores D) (hg : EncodedTerm.IsTerm g) :
    writeTerm g ∈ t .graphs ↔ g.canonical ∈ D.namedGraphs := by
  rw [h.graphs]
  constructor
  · intro ⟨g', hg', hi, hw⟩
    exact EncodedTerm.writeTerm_eq_iff hi hg |>.mp hw ▸ (h.canonicalGraph g' hg').symm ▸ hg'
  · intro hc
    exact ⟨_, hc, hg.canonical, EncodedTerm.writeTerm_canonical g⟩

theorem Stores.ne_defaultGraph (h : t.Stores D) (hg : g ∈ D.namedGraphs) : g ≠ .defaultGraph := by
  rintro rfl
  exact h.isTerm _ hg

end Tables

namespace DatasetDelta

@[simp]
theorem patch_none : none.patch D = D := by
  simp [patch, none]

theorem patch_comp : (comp δ₂ δ₁).patch D = δ₂.patch (δ₁.patch D) := by
  simp [patch, comp, Delta.patch_comp]

@[simp]
theorem patch_insert : (insert q).patch D = D.insert q := by
  simp only [patch, insert, Dataset.insert, Delta.patch_single_true, Dataset.mk.injEq, true_and]
  split <;> simp

theorem insert_quads_eq_some : (insert q).quads q' = some b ↔ b = true ∧ q' = q := by
  by_cases h : q' = q <;> simp [insert, Delta.single, h, eq_comm]

theorem insert_graphs_eq_some :
    (insert q).graphs g = some b ↔ b = true ∧ q.graphName ≠ .defaultGraph ∧ g = q.graphName := by
  by_cases h : q.graphName = .defaultGraph <;> by_cases hg : g = q.graphName
    <;> simp [insert, Delta.single, h, hg, eq_comm]

@[simp]
theorem patch_insertNamedGraph : (insertNamedGraph g).patch D = D.insertNamedGraph g := by
  simp [patch, insertNamedGraph, Dataset.insertNamedGraph]

@[simp]
theorem patch_remove : (remove q).patch D = D.remove q := by
  simp [patch, remove, Dataset.remove]

@[simp]
theorem patch_dropQuads : (dropQuads Q).patch D = ⟨D.quads \ Q, D.namedGraphs⟩ := by
  simp [patch, dropQuads]

@[simp]
theorem patch_dropGraphs : (dropGraphs G).patch D = ⟨D.quads, D.namedGraphs \ G⟩ := by
  simp [patch, dropGraphs]

@[simp]
theorem patch_removeGraphName :
    (removeGraphName g).patch D = ⟨D.quads, D.namedGraphs \ {g}⟩ := by
  simp [patch, removeGraphName]

theorem comp_assoc (δ₃ δ₂ δ₁ : DatasetDelta) :
    (comp δ₃ δ₂).comp δ₁ = comp δ₃ (comp δ₂ δ₁) := by
  simp only [comp, Delta.comp_assoc]

theorem dropQuads_comp : (dropQuads Q₂).comp (dropQuads Q₁) = dropQuads (Q₁ ∪ Q₂) := by
  simp only [comp, dropQuads, Delta.drop_comp_drop]
  rfl

theorem dropQuads_singleton : dropQuads {q} = remove q := by
  simp [dropQuads, remove, Delta.drop_singleton]

theorem dropGraphs_singleton : dropGraphs {g} = removeGraphName g := by
  simp [dropGraphs, removeGraphName, Delta.drop_singleton]

theorem none_comp : none.comp δ = δ := by
  simp [comp, none, Delta.none_comp]

theorem dropQuads_empty : dropQuads ∅ = none := by
  simp [dropQuads, none, Delta.drop_empty]

end DatasetDelta

namespace TablesDelta

variable {c c₁ c₂ : TablesDelta} {δ δ₁ δ₂ : DatasetDelta}

theorem clears_eq_some_iff {t : Tables} :
    clears ts t table key = some b ↔ b = false ∧ table ∈ ts ∧ key ∈ t table := by
  by_cases h : table ∈ ts ∧ key ∈ t table <;> simp [clears, h, eq_comm]

theorem mem_patch_clears {t : Tables} :
    key ∈ (clears ts t).patch t table ↔ key ∈ t table ∧ table ∉ ts := by
  by_cases h : table ∈ ts ∧ key ∈ t table
  case pos => simp [patch, Delta.mem_patch, clears, h]
  case neg =>
    simp only [patch, Delta.mem_patch, clears, h]
    tauto

theorem clears_cons {t : Tables} :
    clears (table :: ts) t = (clears ts ((clears [table] t).patch t)).comp (clears [table] t) := by
  funext table' key
  refine Option.ext fun b => ?_
  simp only [comp, Delta.comp_eq_some_iff, clears_eq_some_iff, mem_patch_clears,
    ← Option.not_isSome_iff_eq_none, Option.isSome_iff_exists]
  by_cases h : table' = table <;> simp [h]

theorem Coherent.none : Coherent (fun _ _ => .none) .none := by
  constructor <;> simp [DatasetDelta.none]

theorem Coherent.comp_str_eq (h₂ : c₂.Coherent δ₂)
    (h : c₂ .id2str k = some true ∨ c₁ .id2str k = some true) :
    (c₂.comp c₁) .id2str k = some true := by
  have := h₂.strs (k := k)
  simp only [TablesDelta.comp, Delta.comp_apply]
  rcases hk : c₂ .id2str k with _ | _ | _ <;> simp_all

theorem Coherent.comp (h₂ : c₂.Coherent δ₂) (h₁ : c₁.Coherent δ₁) :
    (c₂.comp c₁).Coherent (δ₂.comp δ₁) where
  isQuad h := by
    cases Delta.comp_eq_some_iff.mp h
    case inl h => exact h₂.isQuad h
    case inr h => exact h₁.isQuad h.right
  isTerm h := by
    cases Delta.comp_eq_some_iff.mp h
    case inl h => exact h₂.isTerm h
    case inr h => exact h₁.isTerm h.right
  index h := by simp [TablesDelta.comp, DatasetDelta.comp, h₂.index h, h₁.index h]
  foreign h := by
    have := h₂.foreign h
    have := h₁.foreign h
    simp_all [TablesDelta.comp]
  graphs h := by simp [TablesDelta.comp, DatasetDelta.comp, h₂.graphs h, h₁.graphs h]
  foreignGraph h := by
    have := h₂.foreignGraph h
    have := h₁.foreignGraph h
    simp_all [TablesDelta.comp]
  strs h := by
    cases Delta.comp_eq_some_iff.mp h
    case inl h => exact h₂.strs h
    case inr h => exact h₁.strs h.right
  quadStrs h hi := by
    cases Delta.comp_eq_some_iff.mp h
    case inl h => exact h₂.comp_str_eq <| .inl <| h₂.quadStrs h hi
    case inr h => exact h₂.comp_str_eq <| .inr <| h₁.quadStrs h.right hi
  graphStrs h hi := by
    cases Delta.comp_eq_some_iff.mp h
    case inl h => exact h₂.comp_str_eq <| .inl <| h₂.graphStrs h hi
    case inr h => exact h₂.comp_str_eq <| .inr <| h₁.graphStrs h.right hi

-- Strings are never lost.
theorem Coherent.str_mem_patch (h : c.Coherent δ) (hk : k ∈ t .id2str) : k ∈ c.patch t .id2str := by
  have := h.strs (k := k)
  rcases hc : c .id2str k with _ | _ | _
  case none => exact .inr ⟨hc, hk⟩
  case some.false => contradiction
  case some.true => exact .inl hc

end TablesDelta

theorem Tables.Stores.patch {c : TablesDelta} (h : t.Stores D) (hc : c.Coherent δ) :
    Tables.Stores (c.patch t) (δ.patch D) :=
  have isQuad : ∀ q ∈ δ.quads.patch D.quads, q.IsQuad ∧ q.canonical = q := by
    intro q hq
    cases hq
    case inl hq => exact hc.isQuad hq
    case inr hq => exact ⟨h.isQuad q hq.right, h.canonical q hq.right⟩
  have isTerm : ∀ g ∈ δ.graphs.patch D.namedGraphs, g.IsTerm ∧ g.canonical = g := by
    intro g hg
    cases hg
    case inl hg => exact hc.isTerm hg
    case inr hg => exact ⟨h.isTerm g hg.right, h.canonicalGraph g hg.right⟩
  {
    isQuad q hq         := isQuad q hq |>.left
    canonical q hq      := isQuad q hq |>.right
    isTerm g hg         := isTerm g hg |>.left
    canonicalGraph g hg := isTerm g hg |>.right
    index e _ := by
      refine Delta.mem_patch_keys (h.index e) hc.index hc.foreign ?_ QuadEncoding.Indexes.canonical
        QuadEncoding.writer_canonical
      rintro q (hq | hq)
      · exact isQuad q hq |>.right
      · exact h.canonical q hq
    graphs _ := by
      refine Delta.mem_patch_keys h.graphs hc.graphs hc.foreignGraph ?_ EncodedTerm.IsTerm.canonical
        (EncodedTerm.writeTerm_canonical _)
      rintro g (hg | hg)
      · exact isTerm g hg |>.right
      · exact h.canonicalGraph g hg
    quadStrs q hq p id hi := by
      cases hq
      case inl hq => exact .inl <| hc.quadStrs hq hi
      case inr hq => exact hc.str_mem_patch <| h.quadStrs q hq.right p id hi
    graphStrs g hg id hi := by
      cases hg
      case inl hg => exact .inl <| hc.graphStrs hg hi
      case inr hg => exact hc.str_mem_patch <| h.graphStrs g hg.right id hi
  }

namespace Layout

open TablesDelta

theorem mem_quadKeys : (table, k) ∈ quadKeys q ↔
    ∃ e : QuadEncoding, (q.graphName = .defaultGraph ↔ e.forDefaultGraph) ∧
      e.table = table ∧ e.writer q = k where
  mp h := by
    unfold quadKeys at h
    split at h <;> simp only [List.mem_cons, Prod.mk.injEq, List.not_mem_nil, or_false] at h
    case isTrue hg =>
      simp only [EncodedTerm.isDefaultGraph_iff] at hg
      obtain ⟨rfl, rfl⟩ | ⟨rfl, rfl⟩ | ⟨rfl, rfl⟩ := h
      · exact ⟨.dspo, by simp [hg]; rfl, rfl, rfl⟩
      · exact ⟨.dpos, by simp [hg]; rfl, rfl, rfl⟩
      · exact ⟨.dosp, by simp [hg]; rfl, rfl, rfl⟩
    case isFalse hg =>
      simp only [EncodedTerm.isDefaultGraph_iff] at hg
      obtain ⟨rfl, rfl⟩ | ⟨rfl, rfl⟩ | ⟨rfl, rfl⟩ | ⟨rfl, rfl⟩ | ⟨rfl, rfl⟩ | ⟨rfl, rfl⟩ := h
      · exact ⟨.spog, by simp [hg]; rfl, rfl, rfl⟩
      · exact ⟨.posg, by simp [hg]; rfl, rfl, rfl⟩
      · exact ⟨.ospg, by simp [hg]; rfl, rfl, rfl⟩
      · exact ⟨.gspo, by simp [hg]; rfl, rfl, rfl⟩
      · exact ⟨.gpos, by simp [hg]; rfl, rfl, rfl⟩
      · exact ⟨.gosp, by simp [hg]; rfl, rfl, rfl⟩
  mpr := by
    rintro ⟨e, hg, rfl, rfl⟩
    cases e <;> simp [QuadEncoding.forDefaultGraph, QuadEncoding.positions] at hg <;>
      simp [quadKeys, EncodedTerm.isDefaultGraph_iff, hg, QuadEncoding.table, QuadEncoding.writer]

theorem mem_quadKeys_table : (e.table, k) ∈ quadKeys q ↔
    (q.graphName = .defaultGraph ↔ e.forDefaultGraph) ∧ e.writer q = k := by
  rw [mem_quadKeys]
  constructor
  · rintro ⟨e', hg, he, hw⟩
    obtain rfl := QuadEncoding.table_injective he
    exact ⟨hg, hw⟩
  · exact fun ⟨hg, hw⟩ => ⟨e, hg, rfl, hw⟩

-- An index key belongs to the quad whose keys are written iff it is the key of that quad.
theorem writer_mem_quadKeys_iff {q' : EncodedQuad} (h : e.Indexes q) (h' : q'.IsQuad) :
    (e.table, e.writer q) ∈ quadKeys q' ↔ q.canonical = q'.canonical := by
  rw [mem_quadKeys_table]
  constructor
  · intro ⟨hg, hw⟩
    exact h.writer_eq_iff ⟨h', hg⟩ |>.mp hw.symm
  · intro hc
    have hg : q'.graphName = .defaultGraph ↔ e.forDefaultGraph := by
      rw [← h.graph, ← EncodedTerm.canonical_eq_defaultGraph,
        ← q.graphName.canonical_eq_defaultGraph]
      exact congrArg (EncodedQuad.graphName · = _) hc.symm |>.to_iff
    exact ⟨hg, ((⟨h', hg⟩ : e.Indexes q').writer_eq_iff h).mpr hc.symm⟩

theorem table_of_mem_strEntries (h : (table, k, v) ∈ strEntries term encoded) :
    table = .id2str := by
  simp only [strEntries, List.mem_map] at h
  have ⟨_, _, h⟩ := h
  exact congrArg Prod.fst h.symm

theorem table_of_mem_graphNameStrEntries
    (h : (table, k, v) ∈ graphNameStrEntries graphName encoded) : table = .id2str := by
  cases graphName
  case defaultGraph => contradiction
  all_goals exact table_of_mem_strEntries h

theorem exists_mem_strEntries {id : StrHash} (h : Registers term encoded)
    (hi : id ∈ encoded.strIds) : ∃ v, (.id2str, id.toBeBytes, v) ∈ strEntries term encoded := by
  have ⟨strs, hs, hm⟩ := h.strings
  rw [← hm] at hi
  have ⟨⟨_, str⟩, hx, hi⟩ := List.mem_map.mp hi
  refine ⟨SmallString.strBytes str, ?_⟩
  simp only [strEntries, termStrs, hs, Option.getD_some, List.mem_map]
  exact ⟨_, hx, hi ▸ rfl⟩

variable {enc : Encoder} {quad : Rdf.Quad} {graphName : Rdf.NamedOrBlankNode}

theorem puts_eq_some {entries : List (Table × Bytes × Bytes)} :
    puts entries table k = some b ↔ b = true ∧ ∃ v, (table, k, v) ∈ entries := by
  by_cases h : ∃ v, (table, k, v) ∈ entries <;> simp_all [puts, eq_comm]

theorem mem_insertEntries_index : (∃ v, (e.table, k, v) ∈ insertEntries enc quad) ↔
    (e.table, k) ∈ quadKeys (enc.encodeQuad quad) := by
  have hs {v term encoded} : (e.table, k, v) ∉ strEntries term encoded :=
    fun h => e.table_ne_id2str <| table_of_mem_strEntries h
  have hg {v graphName encoded} : (e.table, k, v) ∉ graphNameStrEntries graphName encoded :=
    fun h => e.table_ne_id2str <| table_of_mem_graphNameStrEntries h
  simp only [insertEntries, List.mem_append, hs, or_false]
  split <;> simp [hg, e.table_ne_graphs]

theorem mem_insertEntries_graphs : (∃ v, (.graphs, k, v) ∈ insertEntries enc quad) ↔
    quad.graphName ≠ .defaultGraph ∧ k = writeTerm (enc.encodeGraphName quad.graphName) := by
  have hs {v term encoded} : (.graphs, k, v) ∉ strEntries term encoded :=
    fun h => nomatch table_of_mem_strEntries h
  have hg {v graphName encoded} : (.graphs, k, v) ∉ graphNameStrEntries graphName encoded :=
    fun h => nomatch table_of_mem_graphNameStrEntries h
  have hq {q} : (.graphs, k) ∉ quadKeys q := by
    rw [mem_quadKeys]
    exact fun ⟨e, _, he, _⟩ => e.table_ne_graphs he
  cases h : quad.graphName <;>
    simp [insertEntries, hs, hg, hq, h, Rdf.GraphName.isDefaultGraph, Encoder.encodeQuad]

theorem registers_encodeGraphName (h : quad.graphName ≠ .defaultGraph) {id : StrHash}
    (hi : id ∈ (enc.encodeGraphName quad.graphName).strIds) :
    ∃ v, (.id2str, id.toBeBytes, v) ∈
      graphNameStrEntries quad.graphName (enc.encodeGraphName quad.graphName) := by
  cases hg : quad.graphName <;> simp only [hg, Encoder.encodeGraphName] at hi
  case namedNode => exact exists_mem_strEntries Encoder.registers_namedNode hi
  case blankNode => exact exists_mem_strEntries Encoder.registers_blankNode hi
  case defaultGraph => contradiction

theorem mem_insertEntries_strs {id : StrHash} {p : Position}
    (hi : id ∈ ((enc.encodeQuad quad).term p).strIds) :
    ∃ v, (.id2str, id.toBeBytes, v) ∈ insertEntries enc quad := by
  cases p
  case subject =>
    obtain ⟨v, hv⟩ := exists_mem_strEntries (Encoder.registers_namedOrBlankNode _) hi
    exact ⟨v, by simp [insertEntries, Encoder.encodeQuad, hv]⟩
  case predicate =>
    obtain ⟨v, hv⟩ := exists_mem_strEntries Encoder.registers_namedNode hi
    exact ⟨v, by simp [insertEntries, Encoder.encodeQuad, hv]⟩
  case object =>
    obtain ⟨v, hv⟩ := exists_mem_strEntries (Encoder.registers_term _) hi
    exact ⟨v, by simp [insertEntries, Encoder.encodeQuad, hv]⟩
  case graphName =>
    by_cases h : quad.graphName = .defaultGraph
    · simp [Encoder.encodeQuad, EncodedQuad.term, h, Encoder.encodeGraphName,
        EncodedTerm.strIds] at hi
    · obtain ⟨v, hv⟩ := registers_encodeGraphName h hi
      have hd : quad.graphName.isDefaultGraph = false := by
        cases hg : quad.graphName <;> simp_all [Rdf.GraphName.isDefaultGraph]
      exact ⟨v, by simp [insertEntries, Encoder.encodeQuad, hv, hd]⟩

theorem coherent_insert (enc : Encoder) (quad : Rdf.Quad) :
    (puts (insertEntries enc quad)).Coherent (.insert (enc.encodeQuad quad).canonical) := by
  have hq := enc.isQuad_encodeQuad quad
  constructor
  case isQuad =>
    intro q h
    obtain ⟨_, h⟩ := DatasetDelta.insert_quads_eq_some.mp h
    exact h ▸ ⟨hq.canonical, EncodedQuad.canonical_canonical _⟩
  case isTerm =>
    intro g h
    obtain ⟨_, hd, h⟩ := DatasetDelta.insert_graphs_eq_some.mp h
    exact h ▸ ⟨hq.canonical.graphName hd, EncodedTerm.canonical_canonical _⟩
  case index =>
    intro e q hi
    simp [puts, mem_insertEntries_index, DatasetDelta.insert, Delta.single,
      writer_mem_quadKeys_iff hi hq]
  case foreign =>
    intro e k hf h
    have h := mem_insertEntries_index.mp (puts_eq_some.mp h).right
    obtain ⟨hg, hw⟩ := mem_quadKeys_table.mp h
    exact hf _ ⟨hq, hg⟩ hw
  case graphs =>
    intro g hg
    refine Option.ext fun b => ?_
    rw [puts_eq_some, mem_insertEntries_graphs, DatasetDelta.insert_graphs_eq_some]
    refine and_congr_right fun _ => ?_
    simp only [EncodedQuad.canonical, ne_eq, EncodedTerm.canonical_eq_defaultGraph,
      Encoder.encodeQuad, Encoder.encodeGraphName_eq_defaultGraph]
    refine and_congr_right fun hd => EncodedTerm.writeTerm_eq_iff hg <| hq.graphName ?_
    simpa [Encoder.encodeQuad] using hd
  case foreignGraph =>
    intro k hf h
    obtain ⟨hg, hw⟩ := mem_insertEntries_graphs.mp (puts_eq_some.mp h).right
    exact hf _ (hq.graphName <| by simpa [Encoder.encodeQuad] using hg) hw.symm
  case strs => exact fun h => by cases (puts_eq_some.mp h).left
  case quadStrs =>
    intro q p id h hi
    obtain ⟨_, h⟩ := DatasetDelta.insert_quads_eq_some.mp h
    subst h
    rw [EncodedQuad.term_canonical, EncodedTerm.strIds_canonical] at hi
    exact puts_eq_some.mpr ⟨rfl, mem_insertEntries_strs hi⟩
  case graphStrs =>
    intro g id h hi
    obtain ⟨_, _, h⟩ := DatasetDelta.insert_graphs_eq_some.mp h
    subst h
    have hi : id ∈ ((enc.encodeQuad quad).term .graphName).strIds :=
      EncodedTerm.strIds_canonical _ ▸ hi
    exact puts_eq_some.mpr ⟨rfl, mem_insertEntries_strs hi⟩

theorem coherent_remove (h : q.IsQuad) :
    (deletes (quadKeys q)).Coherent (.remove q.canonical) := by
  have hk {table k} (hn : ∀ e : QuadEncoding, e.table ≠ table) :
      deletes (quadKeys q) table k = none := by
    refine if_neg fun h => ?_
    have ⟨e, _, he, _⟩ := mem_quadKeys.mp h
    exact hn e he
  constructor <;> intros
  case isQuad h => simp [DatasetDelta.remove, Delta.single] at h
  case quadStrs h _ => simp [DatasetDelta.remove, Delta.single] at h
  case isTerm h => contradiction
  case graphStrs h _ => contradiction
  case index hi =>
    simp [deletes, DatasetDelta.remove, Delta.single, writer_mem_quadKeys_iff hi h]
  case graphs => exact hk QuadEncoding.table_ne_graphs
  case strs => simp [hk QuadEncoding.table_ne_id2str]
  case foreign | foreignGraph => simp [deletes]

theorem coherent_insertNamedGraph (enc : Encoder) (node : Rdf.NamedOrBlankNode) :
    (puts (insertNamedGraphEntries enc node)).Coherent
      (.insertNamedGraph (enc.encodeNamedOrBlankNode node).canonical) := by
  have hr : Registers _ (enc.encodeNamedOrBlankNode node) := Encoder.registers_namedOrBlankNode node
  have hs {table k v} (ht : table ≠ .id2str) :
      (table, k, v) ∉ strEntries node.toTerm (enc.encodeNamedOrBlankNode node) :=
    fun h => ht <| table_of_mem_strEntries h
  have hg {k} : (∃ v, (.graphs, k, v) ∈ insertNamedGraphEntries enc node) ↔
      k = writeTerm (enc.encodeNamedOrBlankNode node) := by
    simp [insertNamedGraphEntries, hs]
  have hi {e : QuadEncoding} {k v} : (e.table, k, v) ∉ insertNamedGraphEntries enc node := by
    simp [insertNamedGraphEntries, hs e.table_ne_id2str, e.table_ne_graphs]
  constructor
  case isQuad => exact fun h => by cases h
  case isTerm =>
    intro g h
    obtain rfl : g = (enc.encodeNamedOrBlankNode node).canonical := by
      simpa [DatasetDelta.insertNamedGraph, Delta.single] using h
    exact ⟨hr.isTerm.canonical, EncodedTerm.canonical_canonical _⟩
  case index => simp [puts, hi, DatasetDelta.insertNamedGraph]
  case foreign => simp [puts, hi]
  case graphs =>
    intro g h
    simp [puts, hg, DatasetDelta.insertNamedGraph, Delta.single,
      EncodedTerm.writeTerm_eq_iff h hr.isTerm]
  case foreignGraph => exact fun hf h => hf _ hr.isTerm (hg.mp (puts_eq_some.mp h).right).symm
  case strs => exact fun h => by cases (puts_eq_some.mp h).left
  case quadStrs => exact fun h => by cases h
  case graphStrs =>
    intro g id h hi
    obtain rfl : g = (enc.encodeNamedOrBlankNode node).canonical := by
      simpa [DatasetDelta.insertNamedGraph, Delta.single] using h
    obtain ⟨v, hv⟩ := exists_mem_strEntries hr <| EncodedTerm.strIds_canonical _ ▸ hi
    exact puts_eq_some.mpr ⟨rfl, v, by simp [insertNamedGraphEntries, hv]⟩

theorem coherent_removeGraphName {g : EncodedTerm} (h : g.IsTerm) :
    (deletes [(.graphs, writeTerm g)]).Coherent (.removeGraphName g.canonical) := by
  constructor
  case isQuad => exact fun h => nomatch h
  case isTerm => simp [DatasetDelta.removeGraphName, Delta.single]
  case index =>
    intro e q _
    simp [deletes, e.table_ne_graphs, DatasetDelta.removeGraphName]
  case graphs =>
    intro g' h'
    simp [deletes, DatasetDelta.removeGraphName, Delta.single, EncodedTerm.writeTerm_eq_iff h' h]
  case foreign | foreignGraph | strs => simp [deletes]
  case quadStrs => exact fun h => nomatch h
  case graphStrs => simp [DatasetDelta.removeGraphName, Delta.single]

-- Emptying all tables of the indexes of the default graph, or all those of the named graphs.
theorem coherent_clears {b : Bool} (h : t.Indexes Q)
    (hd : ∀ e : QuadEncoding, e.table ∈ ts ↔ e.forDefaultGraph = b) (hg : .graphs ∉ ts)
    (hi : .id2str ∉ ts) :
    (clears ts t).Coherent (.dropQuads { q ∈ Q | q.graphName = .defaultGraph ↔ b }) := by
  have hn {table k} : clears ts t table k ≠ some true := by simp [clears]
  constructor
  case isQuad | quadStrs => simp [DatasetDelta.dropQuads, Delta.drop_eq_some_iff]
  case isTerm | graphStrs => simp [DatasetDelta.dropQuads]
  case foreign | foreignGraph => exact fun _ => hn
  case graphs => simp [clears, hg, DatasetDelta.dropQuads]
  case strs => simp [clears, hi]
  case index =>
    intro e q hq
    have hm : e.table ∈ ts ∧ e.writer q ∈ t e.table ↔
        q.canonical ∈ { q ∈ Q | q.graphName = .defaultGraph ↔ b } := by
      have hg : q.canonical.graphName = .defaultGraph ↔ e.forDefaultGraph := hq.canonical.graph
      rw [hd, h.mem_iff hq, Set.mem_ofPred, hg, ← Bool.eq_iff_iff, and_comm]
    exact Option.ext fun b => by rw [clears_eq_some_iff, hm, ← Delta.drop_eq_some_iff]; rfl

theorem coherent_clears_graphs (h : t.Stores D) :
    (clears [.graphs] t).Coherent (.dropGraphs D.namedGraphs) := by
  have hn {table k} : clears [.graphs] t table k ≠ some true := by simp [clears]
  constructor
  case isTerm | graphStrs => simp [DatasetDelta.dropGraphs, Delta.drop_eq_some_iff]
  case isQuad | quadStrs => simp [DatasetDelta.dropGraphs]
  case foreign | foreignGraph => exact fun _ => hn
  case index => simp [clears, QuadEncoding.table_ne_graphs, DatasetDelta.dropGraphs]
  case strs => simp [clears]
  case graphs =>
    intro g hg
    have hm : .graphs ∈ [Table.graphs] ∧ writeTerm g ∈ t .graphs ↔ g.canonical ∈ D.namedGraphs := by
      simp [h.mem_graphs_iff hg]
    exact Option.ext fun b => by rw [clears_eq_some_iff, hm, ← Delta.drop_eq_some_iff]; rfl

end Layout
