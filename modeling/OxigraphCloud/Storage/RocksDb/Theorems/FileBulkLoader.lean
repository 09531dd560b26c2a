import OxigraphCloud.Storage.RocksDb.BulkLoader
import OxigraphCloud.Storage.RocksDb.Theorems.Transaction

namespace RocksDb

-- A file can be written iff its keys are strictly ascending.
namespace SstFile

theorem insert_eq (sst : SstFile) (h : sst.Pairwise (·.1 < ·.1)) (entry : Bytes × Bytes) :
    sst.insert entry = .ok (sst ++ [entry]) ∧ (sst ++ [entry]).Pairwise (·.1 < ·.1) ∨
    (∃ e, sst.insert entry = .error e) ∧ ¬(sst ++ [entry]).Pairwise (·.1 < ·.1) := by
  have hl : sst.getLast?.all (·.1 < entry.1) = true ↔ (sst ++ [entry]).Pairwise (·.1 < ·.1) := by
    obtain rfl | ⟨sst, last, rfl⟩ := sst.eq_nil_or_concat'
    case inl => simp
    case inr =>
      have ⟨_, _, hlast⟩ := List.pairwise_append.mp h
      rw [List.pairwise_append]
      simp only [List.getLast?_concat, Option.all_some, decide_eq_true_eq, h,
        List.pairwise_singleton, true_and, List.mem_append, List.mem_singleton]
      constructor
      · rintro hlt a (ha | rfl) b rfl
        · exact (hlast a ha last (by simp)).trans hlt
        · exact hlt
      · exact fun hall => hall last (.inr rfl) entry rfl
  unfold insert
  split
  case isTrue h => exact .inl ⟨rfl, hl.mp h⟩
  case isFalse h => exact .inr ⟨⟨_, rfl⟩, hl.not.mp h⟩

theorem foldlM_insert (entries : List (Bytes × Bytes)) (sst : SstFile)
    (h : sst.Pairwise (·.1 < ·.1)) :
    entries.foldlM insert sst = .ok (sst ++ entries) ∧ (sst ++ entries).Pairwise (·.1 < ·.1) ∨
    (∃ e, entries.foldlM insert sst = .error e) ∧ ¬(sst ++ entries).Pairwise (·.1 < ·.1) := by
  induction entries generalizing sst
  case nil => exact .inl ⟨by simp; rfl, by simpa using h⟩
  case cons entry entries hi =>
    rw [List.foldlM_cons]
    cases insert_eq sst h entry
    case inl hok =>
      have hr := hi _ hok.2
      rw [List.append_assoc] at hr
      rw [hok.1]
      exact hr
    case inr herr =>
      have ⟨⟨e, he⟩, hn⟩ := herr
      rw [he]
      refine .inr ⟨⟨e, rfl⟩, fun hp => hn <| hp.sublist ?_⟩
      exact List.Sublist.append_left (by simp) _

theorem write_cases (entries : List (Bytes × Bytes)) :
    write entries = .ok entries ∧ entries.Pairwise (·.1 < ·.1) ∨
    (∃ e, write entries = .error e) ∧ ¬entries.Pairwise (·.1 < ·.1) :=
  foldlM_insert entries [] .nil

-- Sorting leaves equal keys next to each other.
theorem pairwise_lt_insertionSort {α κ : Type} [LinearOrder κ] (key : α → κ) (l : List α) :
    (l.insertionSort (key · ≤ key ·)).Pairwise (key · < key ·) ↔ (l.map key).Nodup := by
  have : Std.Total (α := α) (key · ≤ key ·) := ⟨fun a b => le_total (key a) (key b)⟩
  have : IsTrans α (key · ≤ key ·) := ⟨fun _ _ _ => le_trans⟩
  have hs : (l.insertionSort (key · ≤ key ·)).Pairwise (key · ≤ key ·) :=
    List.pairwise_insertionSort ..
  rw [← ((List.perm_insertionSort (key · ≤ key ·) l).map key).nodup_iff, List.Nodup,
    List.pairwise_map]
  constructor
  · exact fun h => h.imp ne_of_lt
  · exact fun h => (hs.and h).imp fun h => lt_of_le_of_ne h.1 h.2

end SstFile

theorem FileBulkLoader.buildSstForKeys_cases (values : List Bytes) :
    (∃ sst, buildSstForKeys values = .ok sst ∧ ∀ k v, (k, v) ∈ sst ↔ k ∈ values ∧ v = []) ∧
      values.Nodup ∨
    (∃ e, buildSstForKeys values = .error e) ∧ ¬values.Nodup := by
  rw [← values.map_id, ← SstFile.pairwise_lt_insertionSort, values.map_id]
  cases SstFile.write_cases (values.insertionSort (· ≤ ·) |>.map fun value => (value, []))
  case inl h =>
    refine .inl ⟨⟨_, h.1, ?_⟩, by simpa [List.pairwise_map] using h.2⟩
    intro k v
    simp [List.mem_insertionSort, eq_comm]
  case inr h => exact .inr ⟨h.1, by simpa [List.pairwise_map] using h.2⟩

-- The strings that belong to a quad.
def graphStrs (graphName : Rdf.GraphName) (encoded : EncodedTerm) : List (StrHash × String) :=
  match graphName with
  | .namedNode node => termStrs (.namedNode node) encoded
  | .blankNode node => termStrs (.blankNode node) encoded
  | .defaultGraph   => []

def nodeStrs (quad : Rdf.Quad) (encoded : EncodedQuad) : List (StrHash × String) :=
  termStrs quad.subject.toTerm encoded.subject ++
  termStrs (.namedNode quad.predicate) encoded.predicate ++
  termStrs quad.object encoded.object

def quadStrs (enc : Encoder) (quad : Rdf.Quad) : List (StrHash × String) :=
  nodeStrs quad (enc.encodeQuad quad) ++ graphStrs quad.graphName (enc.encodeQuad quad).graphName

def allStrs (enc : Encoder) (quads : List Rdf.Quad) : List (StrHash × String) :=
  quads.flatMap (quadStrs enc)

section Strings

variable {enc : Encoder} {quad : Rdf.Quad} {id : StrHash}

theorem map_fst_termStrs (h : Registers term encoded) :
    (termStrs term encoded).map Prod.fst = encoded.strIds := by
  have ⟨strs, hs, hm⟩ := h.strings
  simp [termStrs, hs, hm]

theorem map_fst_graphStrs (graphName : Rdf.GraphName) :
    (graphStrs graphName (enc.encodeGraphName graphName)).map Prod.fst =
      (enc.encodeGraphName graphName).strIds := by
  cases graphName
  case namedNode => exact map_fst_termStrs Encoder.registers_namedNode
  case blankNode => exact map_fst_termStrs Encoder.registers_blankNode
  case defaultGraph => rfl

-- The ids of the strings can be seen from the encoded quad.
theorem map_fst_quadStrs :
    (quadStrs enc quad).map Prod.fst =
      (enc.encodeQuad quad).subject.strIds ++ (enc.encodeQuad quad).predicate.strIds ++
      (enc.encodeQuad quad).object.strIds ++ (enc.encodeQuad quad).graphName.strIds := by
  simp only [quadStrs, nodeStrs, List.map_append, Encoder.encodeQuad, map_fst_graphStrs,
    map_fst_termStrs (Encoder.registers_namedOrBlankNode _),
    map_fst_termStrs Encoder.registers_namedNode, map_fst_termStrs (Encoder.registers_term _)]

theorem lookup_isSome_iff {l : List (StrHash × String)} :
    (l.lookup id).isSome ↔ id ∈ l.map Prod.fst := by
  induction l
  case nil => simp
  case cons e l hi =>
    rw [List.lookup_cons, List.map_cons, List.mem_cons, ← hi]
    cases hb : id == e.1
    case true => simp [eq_of_beq hb]
    case false => simp [ne_of_beq_false hb]

-- Strings for known ids are not looked at.
theorem lookup_append_of_subset {l l' : List (StrHash × String)}
    (h : l'.map Prod.fst ⊆ l.map Prod.fst) : (l ++ l').lookup id = l.lookup id := by
  rw [List.lookup_append]
  cases hl : l.lookup id
  case some => rfl
  case none =>
    have hn : ¬(l'.lookup id).isSome := fun hs =>
      Option.isSome_iff_ne_none.mp (lookup_isSome_iff.mpr <| h <| lookup_isSome_iff.mp hs) hl
    rw [Option.not_isSome_iff_eq_none] at hn
    rw [hn]
    rfl

theorem lookup_foldl_insertStr {strs id2str : List (StrHash × String)} :
    (strs.foldl FileBulkLoader.insertStr id2str).lookup id = (id2str ++ strs).lookup id := by
  induction strs generalizing id2str
  case nil => simp
  case cons e strs hi =>
    rw [List.foldl_cons, hi, FileBulkLoader.insertStr]
    split
    case isTrue h =>
      have hs : [e].map Prod.fst ⊆ id2str.map Prod.fst := by simpa using lookup_isSome_iff.mp h
      rw [← List.singleton_append, ← List.append_assoc, List.lookup_append, List.lookup_append,
        lookup_append_of_subset hs]
    case isFalse => simp

theorem nodup_foldl_insertStr {strs id2str : List (StrHash × String)}
    (h : (id2str.map Prod.fst).Nodup) :
    ((strs.foldl FileBulkLoader.insertStr id2str).map Prod.fst).Nodup := by
  induction strs generalizing id2str
  case nil => exact h
  case cons e strs hi =>
    refine hi ?_
    unfold FileBulkLoader.insertStr
    split
    case isTrue => exact h
    case isFalse hn =>
      rw [lookup_isSome_iff] at hn
      rw [List.map_append, List.nodup_append]
      refine ⟨h, by simp, fun a ha b hb hab => hn ?_⟩
      rw [List.map_singleton, List.mem_singleton] at hb
      exact hb ▸ hab ▸ ha

theorem map_fst_allStrs_subset {quads : List Rdf.Quad} (h : quad ∈ quads) :
    (quadStrs enc quad).map Prod.fst ⊆ (allStrs enc quads).map Prod.fst :=
  List.map_subset _ fun _ hs => List.mem_flatMap.mpr ⟨_, h, hs⟩

end Strings

namespace FileBulkLoader

variable {enc : Encoder} {loader : FileBulkLoader} {quads : List Rdf.Quad}

-- What the loader holds after it has gone through a list of quads.
structure Encodes (enc : Encoder) (quads : List Rdf.Quad) (loader : FileBulkLoader) : Prop where
  mem_triples   : ∀ q, q ∈ loader.triples ↔
    q.graphName = .defaultGraph ∧ ∃ quad ∈ quads, enc.encodeQuad quad = q
  mem_quads     : ∀ q, q ∈ loader.quads ↔
    q.graphName ≠ .defaultGraph ∧ ∃ quad ∈ quads, enc.encodeQuad quad = q
  mem_graphs    : ∀ g, g ∈ loader.graphs ↔ ∃ q ∈ loader.quads, q.graphName = g
  lookup_id2str : ∀ id, loader.id2str.lookup id = (allStrs enc quads).lookup id
  nodup_triples : loader.triples.Nodup
  nodup_quads   : loader.quads.Nodup
  nodup_graphs  : loader.graphs.Nodup
  nodup_id2str  : (loader.id2str.map Prod.fst).Nodup

theorem encodes_new : Encodes enc [] new := by
  constructor <;> simp [new, allStrs]

theorem exists_encodeQuad_append {quad : Rdf.Quad} :
    (∃ quad' ∈ quads ++ [quad], enc.encodeQuad quad' = q) ↔
      (∃ quad' ∈ quads, enc.encodeQuad quad' = q) ∨ enc.encodeQuad quad = q := by
  simp [or_and_right, exists_or]

theorem allStrs_append {quad : Rdf.Quad} :
    allStrs enc (quads ++ [quad]) = allStrs enc quads ++ quadStrs enc quad := by
  simp [allStrs]

theorem id2str_insertTerms {quad : Rdf.Quad} {encoded : EncodedQuad} :
    (loader.insertTerms quad encoded).id2str =
      (nodeStrs quad encoded).foldl insertStr loader.id2str := by
  simp [insertTerms, insertTerm, nodeStrs, List.foldl_append]

-- A quad that is already there is skipped.
theorem Encodes.skip (h : loader.Encodes enc quads) {quad : Rdf.Quad}
    (hq : ∃ quad' ∈ quads, enc.encodeQuad quad' = enc.encodeQuad quad) :
    loader.Encodes enc (quads ++ [quad]) where
  mem_triples q := by
    rw [h.mem_triples, exists_encodeQuad_append, or_iff_left_of_imp fun he => he ▸ hq]
  mem_quads q := by
    rw [h.mem_quads, exists_encodeQuad_append, or_iff_left_of_imp fun he => he ▸ hq]
  mem_graphs := h.mem_graphs
  lookup_id2str id := by
    have ⟨quad', hm, he⟩ := hq
    have hs : (quadStrs enc quad).map Prod.fst ⊆ (allStrs enc quads).map Prod.fst := by
      rw [map_fst_quadStrs, ← he, ← map_fst_quadStrs]
      exact map_fst_allStrs_subset hm
    rw [h.lookup_id2str, allStrs_append, lookup_append_of_subset hs]
  nodup_triples := h.nodup_triples
  nodup_quads   := h.nodup_quads
  nodup_graphs  := h.nodup_graphs
  nodup_id2str  := h.nodup_id2str

theorem Encodes.addTriple (h : loader.Encodes enc quads) {quad : Rdf.Quad}
    (hg : quad.graphName = .defaultGraph) (hn : enc.encodeQuad quad ∉ loader.triples) :
    ({ loader with triples := enc.encodeQuad quad :: loader.triples }.insertTerms quad
      (enc.encodeQuad quad)).Encodes enc (quads ++ [quad]) := by
  have hd : (enc.encodeQuad quad).graphName = .defaultGraph := by simp [Encoder.encodeQuad, hg]
  refine ⟨fun q => ?_, fun q => ?_, h.mem_graphs, fun id => ?_, .cons (by simpa using hn)
    h.nodup_triples, h.nodup_quads, h.nodup_graphs, ?_⟩
  · change q ∈ enc.encodeQuad quad :: loader.triples ↔ _
    rw [List.mem_cons, h.mem_triples, exists_encodeQuad_append]
    constructor
    · rintro (rfl | ⟨hq, he⟩)
      · exact ⟨hd, .inr rfl⟩
      · exact ⟨hq, .inl he⟩
    · rintro ⟨hq, he | he⟩
      · exact .inr ⟨hq, he⟩
      · exact .inl he.symm
  · change q ∈ loader.quads ↔ _
    rw [h.mem_quads, exists_encodeQuad_append]
    refine and_congr_right fun hq => (or_iff_left ?_).symm
    exact fun he => hq (he ▸ hd)
  · have hs : quadStrs enc quad = nodeStrs quad (enc.encodeQuad quad) := by
      simp [quadStrs, graphStrs, hg]
    rw [id2str_insertTerms, lookup_foldl_insertStr, List.lookup_append, h.lookup_id2str,
      allStrs_append, List.lookup_append, hs]
  · rw [id2str_insertTerms]
    exact nodup_foldl_insertStr h.nodup_id2str

-- The graph name is added together with the first of its quads.
theorem Encodes.addQuad (h : loader.Encodes enc quads) {quad : Rdf.Quad}
    (hg : quad.graphName ≠ .defaultGraph) (hn : enc.encodeQuad quad ∉ loader.quads)
    {loader' : FileBulkLoader} (ht : loader'.triples = loader.triples)
    (hq : loader'.quads = enc.encodeQuad quad :: loader.quads)
    (hgs : ∀ g, g ∈ loader'.graphs ↔ g ∈ loader.graphs ∨ g = (enc.encodeQuad quad).graphName)
    (hgn : loader'.graphs.Nodup)
    (hs : ∀ id, loader'.id2str.lookup id = (loader.id2str ++ quadStrs enc quad).lookup id)
    (hsn : (loader'.id2str.map Prod.fst).Nodup) : loader'.Encodes enc (quads ++ [quad]) := by
  have hd : (enc.encodeQuad quad).graphName ≠ .defaultGraph := by
    simpa [Encoder.encodeQuad] using hg
  refine ⟨fun q => ?_, fun q => ?_, fun g => ?_, fun id => ?_, ht ▸ h.nodup_triples,
    hq ▸ .cons (by simpa using hn) h.nodup_quads, hgn, hsn⟩
  · rw [ht, h.mem_triples, exists_encodeQuad_append]
    refine and_congr_right fun hq => (or_iff_left ?_).symm
    exact fun he => hd (he ▸ hq)
  · rw [hq, List.mem_cons, h.mem_quads, exists_encodeQuad_append]
    constructor
    · rintro (rfl | ⟨hq, he⟩)
      · exact ⟨hd, .inr rfl⟩
      · exact ⟨hq, .inl he⟩
    · rintro ⟨hq, he | he⟩
      · exact .inr ⟨hq, he⟩
      · exact .inl he.symm
  · rw [hgs, h.mem_graphs, hq]
    simp [or_comm, eq_comm]
  · rw [hs, List.lookup_append, h.lookup_id2str, allStrs_append, List.lookup_append]

theorem Encodes.graphStrs_subset (h : loader.Encodes enc quads) {quad : Rdf.Quad}
    (hg : (enc.encodeQuad quad).graphName ∈ loader.graphs) :
    (graphStrs quad.graphName (enc.encodeQuad quad).graphName).map Prod.fst ⊆
      loader.id2str.map Prod.fst := by
  have ⟨q, hq, hqg⟩ := (h.mem_graphs _).mp hg
  have ⟨_, quad', hm, he⟩ := (h.mem_quads q).mp hq
  intro id hid
  have hid : id ∈ (enc.encodeQuad quad).graphName.strIds := map_fst_graphStrs quad.graphName ▸ hid
  have hid' : id ∈ (quadStrs enc quad').map Prod.fst := by
    rw [map_fst_quadStrs, he, hqg]
    exact List.mem_append_right _ hid
  rw [← lookup_isSome_iff, h.lookup_id2str, lookup_isSome_iff]
  exact map_fst_allStrs_subset hm hid'

-- The branch for a graph name that has not been seen before.
theorem insertGraphName (loader : FileBulkLoader) {quad : Rdf.Quad}
    (hg : quad.graphName ≠ .defaultGraph) (encoded : EncodedQuad) :
    ∃ loader', (match quad.graphName with
      | .namedNode node => return loader.insertTerm (.namedNode node) encoded.graphName
      | .blankNode node => return loader.insertTerm (.blankNode node) encoded.graphName
      | .defaultGraph   => throw <| .corruption <| .msg "Default graph this not the default graph" :
        Except StorageError FileBulkLoader) = .ok loader' ∧
      loader'.triples = loader.triples ∧ loader'.quads = loader.quads ∧
      loader'.graphs = loader.graphs ∧
      loader'.id2str =
        (graphStrs quad.graphName encoded.graphName).foldl insertStr loader.id2str := by
  cases h : quad.graphName
  case defaultGraph => contradiction
  all_goals exact ⟨_, rfl, rfl, rfl, rfl, rfl⟩

theorem encodeQuad_encodes (h : loader.Encodes enc quads) (quad : Rdf.Quad) :
    ∃ loader', encodeQuad enc loader quad = .ok loader' ∧
      loader'.Encodes enc (quads ++ [quad]) := by
  simp only [encodeQuad]
  split
  case isTrue hg =>
    split
    case isTrue hm => exact ⟨loader, rfl, h.skip ((h.mem_triples _).mp hm).right⟩
    case isFalse hm => exact ⟨_, rfl, h.addTriple (by simpa using hg) hm⟩
  case isFalse hg =>
    replace hg : quad.graphName ≠ .defaultGraph := by simpa using hg
    split
    case isTrue hm => exact ⟨loader, rfl, h.skip ((h.mem_quads _).mp hm).right⟩
    case isFalse hm =>
      have hs : quadStrs enc quad = nodeStrs quad (enc.encodeQuad quad) ++
        graphStrs quad.graphName (enc.encodeQuad quad).graphName := rfl
      split
      case isTrue hgm =>
        refine ⟨_, rfl, h.addQuad hg hm rfl rfl (fun g => ?_) h.nodup_graphs (fun id => ?_) ?_⟩
        · exact (or_iff_left_of_imp fun he => he ▸ hgm).symm
        · have hsub : (graphStrs quad.graphName (enc.encodeQuad quad).graphName).map Prod.fst ⊆
              (loader.id2str ++ nodeStrs quad (enc.encodeQuad quad)).map Prod.fst := by
            rw [List.map_append]
            exact List.subset_append_of_subset_left _ (h.graphStrs_subset hgm)
          rw [id2str_insertTerms, lookup_foldl_insertStr, hs, ← List.append_assoc,
            lookup_append_of_subset hsub]
        · rw [id2str_insertTerms]
          exact nodup_foldl_insertStr h.nodup_id2str
      case isFalse hgm =>
        have ⟨loader', hl, ht, hq, hgs, hid⟩ := insertGraphName
          { { loader with quads := enc.encodeQuad quad :: loader.quads }.insertTerms quad
              (enc.encodeQuad quad) with
            graphs := (enc.encodeQuad quad).graphName :: loader.graphs } hg (enc.encodeQuad quad)
        rw [id2str_insertTerms, ← List.foldl_append] at hid
        refine ⟨loader', hl, h.addQuad hg hm ht hq (fun g => ?_) ?_ (fun id => ?_) ?_⟩
        · rw [hgs, List.mem_cons, or_comm]
        · exact hgs ▸ h.nodup_graphs.cons hgm
        · rw [hid, lookup_foldl_insertStr, hs]
        · rw [hid]
          exact nodup_foldl_insertStr h.nodup_id2str

theorem foldlM_encodeQuad (h : loader.Encodes enc quads) (quads' : List Rdf.Quad) :
    ∃ loader', quads'.foldlM (encodeQuad enc) loader = .ok loader' ∧
      loader'.Encodes enc (quads ++ quads') := by
  induction quads' generalizing loader quads
  case nil => exact ⟨loader, rfl, by simpa using h⟩
  case cons quad quads' hi =>
    have ⟨next, hn, he⟩ := encodeQuad_encodes h quad
    have ⟨loader', hl, he'⟩ := hi he
    refine ⟨loader', ?_, by simpa using he'⟩
    rw [List.foldlM_cons, hn]
    exact hl

theorem encode_encodes (quads : List Rdf.Quad) :
    ∃ loader, encode enc new quads = .ok loader ∧ loader.Encodes enc quads :=
  foldlM_encodeQuad encodes_new quads

-- Files with exactly the given entries are built, provided that `possible` holds.
def Builds (result : Except StorageError SstFiles) (possible : Prop)
    (entry : Table → Bytes → Bytes → Prop) : Prop :=
  (∃ files, result = .ok files ∧ ∀ t k v, (t, k, v) ∈ files.entries ↔ entry t k v) ∧ possible ∨
  (∃ e, result = .error e) ∧ ¬possible

namespace Builds

variable {result result' : Except StorageError SstFiles} {possible possible' : Prop}
  {entry entry' : Table → Bytes → Bytes → Prop}

theorem nil : Builds (.ok []) True fun _ _ _ => False :=
  .inl ⟨⟨[], rfl, by simp [SstFiles.entries]⟩, trivial⟩

theorem append (h : Builds result possible entry) (h' : Builds result' possible' entry') :
    Builds (do return (← result) ++ (← result')) (possible ∧ possible')
      fun t k v => entry t k v ∨ entry' t k v := by
  obtain ⟨⟨files, rfl, hf⟩, hp⟩ | ⟨⟨e, rfl⟩, hp⟩ := h
  case inr => exact .inr ⟨⟨e, rfl⟩, fun h => hp h.1⟩
  case inl =>
    obtain ⟨⟨files', rfl, hf'⟩, hp'⟩ | ⟨⟨e, rfl⟩, hp'⟩ := h'
    case inr => exact .inr ⟨⟨e, rfl⟩, fun h => hp' h.2⟩
    case inl =>
      refine .inl ⟨⟨files ++ files', rfl, fun t k v => ?_⟩, hp, hp'⟩
      simp only [← hf, ← hf', SstFiles.entries, List.flatMap_append, List.mem_append]

theorem congr (h : Builds result possible entry) (hp : possible ↔ possible')
    (he : ∀ t k v, entry t k v ↔ entry' t k v) : Builds result possible' entry' := by
  simpa [Builds, hp, he] using h

theorem sst {write : Except StorageError SstFile} {entry : Bytes → Bytes → Prop} (table : Table)
    (h : (∃ sst, write = .ok sst ∧ ∀ k v, (k, v) ∈ sst ↔ entry k v) ∧ possible ∨
      (∃ e, write = .error e) ∧ ¬possible) :
    Builds (do return [(table, ← write)]) possible fun t k v => t = table ∧ entry k v := by
  obtain ⟨⟨sst, rfl, hm⟩, hp⟩ | ⟨⟨e, rfl⟩, hp⟩ := h
  case inl =>
    refine .inl ⟨⟨[(table, sst)], rfl, fun t k v => ?_⟩, hp⟩
    simp [SstFiles.entries, ← hm, eq_comm, and_left_comm]
  case inr => exact .inr ⟨⟨e, rfl⟩, hp⟩

end Builds

-- One file of keys for each of the tables.
def buildAll (keys : List (Table × List Bytes)) : Except StorageError SstFiles :=
  keys.mapM fun (table, values) => return (table, ← buildSstForKeys values)

theorem buildAll_builds (keys : List (Table × List Bytes)) :
    Builds (buildAll keys) (∀ file ∈ keys, file.2.Nodup)
      fun t k v => (∃ file ∈ keys, t = file.1 ∧ k ∈ file.2) ∧ v = [] := by
  induction keys
  case nil => exact Builds.nil.congr (by simp) (by simp)
  case cons file keys hi =>
    have h := (Builds.sst file.1 <| buildSstForKeys_cases file.2).append hi
    have he : buildAll (file :: keys) = (do
        return (← (do return [(file.1, ← buildSstForKeys file.2)])) ++ (← buildAll keys)) := by
      simp [buildAll]
    rw [he]
    refine h.congr (by simp) fun t k v => ?_
    rw [← and_assoc, ← or_and_right]
    simp only [List.mem_cons, or_and_right, exists_or, exists_eq_left]

theorem encodeTermTriple_eq (p₁ p₂ p₃ : Position) :
    (fun quad : EncodedQuad => encodeTermTriple (quad.term p₁) (quad.term p₂) (quad.term p₃)) =
      writeQuad [p₁, p₂, p₃] := by
  funext quad
  simp [encodeTermTriple, writeQuad]

theorem encodeTermQuad_eq (p₁ p₂ p₃ p₄ : Position) :
    (fun quad : EncodedQuad =>
      encodeTermQuad (quad.term p₁) (quad.term p₂) (quad.term p₃) (quad.term p₄)) =
      writeQuad [p₁, p₂, p₃, p₄] := by
  funext quad
  simp [encodeTermQuad, writeQuad]

-- The files of the indexes for the given quads.
def indexKeys (es : List QuadEncoding) (qs : List EncodedQuad) : List (Table × List Bytes) :=
  es.map fun e => (e.table, qs.map e.writer)

theorem buildTriples_eq (loader : FileBulkLoader) : loader.buildTriples =
    if loader.triples.isEmpty then .ok [] else
      buildAll (indexKeys [.dspo, .dpos, .dosp] loader.triples) := by
  have hs := encodeTermTriple_eq .subject .predicate .object
  have hp := encodeTermTriple_eq .predicate .object .subject
  have ho := encodeTermTriple_eq .object .subject .predicate
  simp only [EncodedQuad.term] at hs hp ho
  simp only [buildTriples, hs, hp, ho, buildAll, indexKeys]
  simp [QuadEncoding.table, QuadEncoding.writer, writeSpoQuad, writePosQuad, writeOspQuad]
  rfl

theorem buildQuads_eq (loader : FileBulkLoader) : loader.buildQuads =
    if loader.quads.isEmpty then .ok [] else
      buildAll ((.graphs, loader.graphs.map encodeTerm) ::
        indexKeys [.gspo, .gpos, .gosp, .spog, .posg, .ospg] loader.quads) := by
  have gs := encodeTermQuad_eq .graphName .subject .predicate .object
  have gp := encodeTermQuad_eq .graphName .predicate .object .subject
  have go := encodeTermQuad_eq .graphName .object .subject .predicate
  have sg := encodeTermQuad_eq .subject .predicate .object .graphName
  have pg := encodeTermQuad_eq .predicate .object .subject .graphName
  have og := encodeTermQuad_eq .object .subject .predicate .graphName
  simp only [EncodedQuad.term] at gs gp go sg pg og
  simp only [buildQuads, gs, gp, go, sg, pg, og, buildAll, indexKeys]
  simp [QuadEncoding.table, QuadEncoding.writer, writeGspoQuad, writeGposQuad, writeGospQuad,
    writeSpogQuad, writePosgQuad, writeOspgQuad]
  rfl

-- Different quads do not share their keys.
def Distinct (qs : List EncodedQuad) : Prop :=
  ∀ q ∈ qs, ∀ q' ∈ qs, q.canonical = q'.canonical → q = q'

theorem indexKeys_nodup_iff {es : List QuadEncoding} {qs : List EncodedQuad} (hes : es ≠ [])
    (hi : ∀ e ∈ es, ∀ q ∈ qs, e.Indexes q) (hn : qs.Nodup) :
    (∀ file ∈ indexKeys es qs, file.2.Nodup) ↔ Distinct qs := by
  have hw (e : QuadEncoding) (he : e ∈ es) : (qs.map e.writer).Nodup ↔ Distinct qs := by
    rw [List.nodup_map_iff_inj_on hn]
    refine forall₂_congr fun q hq => forall₂_congr fun q' hq' => ?_
    rw [(hi e he q hq).writer_eq_iff (hi e he q' hq')]
  have ⟨e, he⟩ := List.exists_mem_of_ne_nil es hes
  simp only [indexKeys, List.forall_mem_map]
  exact ⟨fun h => (hw e he).mp (h e he), fun h e he => (hw e he).mpr h⟩

theorem exists_mem_indexKeys {es : List QuadEncoding} {qs : List EncodedQuad} :
    (∃ file ∈ indexKeys es qs, t = file.1 ∧ k ∈ file.2) ↔
      ∃ e ∈ es, e.table = t ∧ ∃ q ∈ qs, e.writer q = k := by
  simp [indexKeys, eq_comm]

theorem buildTriples_builds (h : loader.Encodes enc quads) :
    Builds loader.buildTriples (Distinct loader.triples) fun t k v =>
      (∃ e : QuadEncoding, e.forDefaultGraph ∧ e.table = t ∧ ∃ q ∈ loader.triples, e.writer q = k) ∧
        v = [] := by
  rw [buildTriples_eq]
  split
  case isTrue he =>
    have he : loader.triples = [] := by simpa using he
    exact Builds.nil.congr (by simp [he, Distinct]) (by simp [he])
  case isFalse =>
    have hd (e : QuadEncoding) : e ∈ [QuadEncoding.dspo, .dpos, .dosp] ↔ e.forDefaultGraph := by
      cases e <;> decide
    have hi (e : QuadEncoding) (he : e ∈ [QuadEncoding.dspo, .dpos, .dosp]) (q : EncodedQuad)
        (hq : q ∈ loader.triples) : e.Indexes q := by
      have ⟨hg, quad, _, hq⟩ := (h.mem_triples q).mp hq
      exact ⟨hq ▸ enc.isQuad_encodeQuad quad, by simp [hg, ← hd, he]⟩
    refine (buildAll_builds _).congr (indexKeys_nodup_iff (by simp) hi h.nodup_triples) ?_
    intro t k v
    simp only [exists_mem_indexKeys, hd]

theorem nodup_graphKeys (h : loader.Encodes enc quads) : (loader.graphs.map encodeTerm).Nodup := by
  have hg (g : EncodedTerm) (hg : g ∈ loader.graphs) : g.IsTerm ∧ g.canonical = g := by
    have ⟨q, hq, hqg⟩ := (h.mem_graphs g).mp hg
    have ⟨hd, quad, _, he⟩ := (h.mem_quads q).mp hq
    subst he hqg
    exact ⟨enc.isTerm_encodeGraphName _ hd, Encoder.canonical_encodeGraphName⟩
  rw [List.nodup_map_iff_inj_on h.nodup_graphs]
  intro g hm g' hm' hw
  rw [← (hg g hm).2, ← (hg g' hm').2]
  exact (EncodedTerm.writeTerm_eq_iff (hg g hm).1 (hg g' hm').1).mp hw

theorem buildQuads_builds (h : loader.Encodes enc quads) :
    Builds loader.buildQuads (Distinct loader.quads) fun t k v =>
      ((t = .graphs ∧ ∃ g ∈ loader.graphs, writeTerm g = k) ∨
        ∃ e : QuadEncoding, ¬e.forDefaultGraph ∧ e.table = t ∧ ∃ q ∈ loader.quads, e.writer q = k) ∧
        v = [] := by
  rw [buildQuads_eq]
  split
  case isTrue he =>
    have he : loader.quads = [] := by simpa using he
    exact Builds.nil.congr (by simp [he, Distinct]) (by simp [he, h.mem_graphs])
  case isFalse =>
    have hd (e : QuadEncoding) : e ∈ [QuadEncoding.gspo, .gpos, .gosp, .spog, .posg, .ospg] ↔
        ¬e.forDefaultGraph := by
      cases e <;> decide
    have hi (e : QuadEncoding) (he : e ∈ [QuadEncoding.gspo, .gpos, .gosp, .spog, .posg, .ospg])
        (q : EncodedQuad) (hq : q ∈ loader.quads) : e.Indexes q := by
      have ⟨hg, quad, _, hq⟩ := (h.mem_quads q).mp hq
      exact ⟨hq ▸ enc.isQuad_encodeQuad quad, iff_of_false hg ((hd e).mp he)⟩
    have hn := indexKeys_nodup_iff (by simp) hi h.nodup_quads
    refine (buildAll_builds _).congr ?_ fun t k v => ?_
    · rw [List.forall_mem_cons, hn]
      exact and_iff_right (nodup_graphKeys h)
    · simp only [List.mem_cons, or_and_right, exists_or, exists_eq_left, exists_mem_indexKeys, hd,
        List.mem_map]
      rfl

theorem mem_iff_lookup {l : List (StrHash × String)} (h : (l.map Prod.fst).Nodup) {id : StrHash} :
    (id, str) ∈ l ↔ l.lookup id = some str := by
  induction l
  case nil => simp
  case cons e l hi =>
    have ⟨hn, h⟩ := List.nodup_cons.mp h
    rw [List.lookup_cons, List.mem_cons, hi h]
    cases hb : id == e.1
    case true =>
      obtain rfl := eq_of_beq hb
      have hl : l.lookup e.1 = none := by
        rwa [← Option.not_isSome_iff_eq_none, lookup_isSome_iff]
      simp [hl, Prod.ext_iff, eq_comm]
    case false =>
      simp [Prod.ext_iff, ne_of_beq_false hb]

theorem buildId2str_builds (h : loader.Encodes enc quads) :
    Builds loader.buildId2str True fun t k v =>
      t = .id2str ∧ ∃ id str, (allStrs enc quads).lookup id = some str ∧ k = id.toBeBytes ∧
        v = SmallString.strBytes str := by
  simp only [← h.lookup_id2str, ← mem_iff_lookup h.nodup_id2str]
  unfold buildId2str
  split
  case isTrue he =>
    have he : loader.id2str = [] := by simpa using he
    exact Builds.nil.congr .rfl (by simp [he])
  case isFalse =>
    refine Builds.sst .id2str ?_
    have hn := SstFile.pairwise_lt_insertionSort Prod.fst
      (loader.id2str.map fun str => (str.1.toBeBytes, SmallString.strBytes str.2))
    obtain ⟨hw, _⟩ | ⟨_, hp⟩ := SstFile.write_cases <| List.insertionSort (·.1 ≤ ·.1)
      (loader.id2str.map fun str => (str.1.toBeBytes, SmallString.strBytes str.2))
    case inl =>
      refine .inl ⟨⟨_, hw, fun k v => ?_⟩, trivial⟩
      simp [List.mem_insertionSort, eq_comm]
    case inr =>
      refine absurd (hn.mpr ?_) hp
      rw [List.map_map]
      have := h.nodup_id2str.map StrHash.toBeBytes_injective
      rwa [List.map_map] at this

-- The two sets of quads are compared by themselves, since a key of one of them is none of the
-- other.
theorem Encodes.distinct_iff (h : loader.Encodes enc quads) :
    Distinct loader.triples ∧ Distinct loader.quads ↔ Distinct (quads.map enc.encodeQuad) := by
  simp only [Distinct, h.mem_triples, h.mem_quads, List.mem_map]
  constructor
  · intro ⟨ht, hq⟩ q hm q' hm' hc
    have hg : q.graphName = .defaultGraph ↔ q'.graphName = .defaultGraph := by
      rw [← EncodedTerm.canonical_eq_defaultGraph, ← q'.graphName.canonical_eq_defaultGraph]
      exact congrArg (EncodedQuad.graphName · = _) hc |>.to_iff
    by_cases hd : q.graphName = .defaultGraph
    case pos => exact ht q ⟨hd, hm⟩ q' ⟨hg.mp hd, hm'⟩ hc
    case neg => exact hq q ⟨hd, hm⟩ q' ⟨hg.not.mp hd, hm'⟩ hc
  · exact fun h => ⟨fun q hm q' hm' => h q hm.2 q' hm'.2, fun q hm q' hm' => h q hm.2 q' hm'.2⟩

theorem Encodes.mem_index_iff (h : loader.Encodes enc quads) :
    ((∃ e : QuadEncoding, e.forDefaultGraph ∧ e.table = t ∧ ∃ q ∈ loader.triples, e.writer q = k) ∨
      ∃ e : QuadEncoding, ¬e.forDefaultGraph ∧ e.table = t ∧ ∃ q ∈ loader.quads, e.writer q = k) ↔
    ∃ quad ∈ quads, (t, k) ∈ Layout.quadKeys (enc.encodeQuad quad) := by
  simp only [Layout.mem_quadKeys, h.mem_triples, h.mem_quads]
  constructor
  · rintro (⟨e, hd, ht, _, ⟨hg, quad, hm, rfl⟩, hw⟩ | ⟨e, hd, ht, _, ⟨hg, quad, hm, rfl⟩, hw⟩)
    · exact ⟨quad, hm, e, iff_of_true hg hd, ht, hw⟩
    · exact ⟨quad, hm, e, iff_of_false hg hd, ht, hw⟩
  · intro ⟨quad, hm, e, hg, ht, hw⟩
    by_cases hd : e.forDefaultGraph
    case pos => exact .inl ⟨e, hd, ht, _, ⟨hg.mpr hd, quad, hm, rfl⟩, hw⟩
    case neg => exact .inr ⟨e, hd, ht, _, ⟨hg.not.mpr hd, quad, hm, rfl⟩, hw⟩

theorem Encodes.mem_graphs_iff (h : loader.Encodes enc quads) :
    (∃ g ∈ loader.graphs, writeTerm g = k) ↔ ∃ quad ∈ quads, quad.graphName ≠ .defaultGraph ∧
      k = writeTerm (enc.encodeGraphName quad.graphName) := by
  simp only [h.mem_graphs, h.mem_quads]
  constructor
  · rintro ⟨_, ⟨_, ⟨hd, quad, hm, rfl⟩, rfl⟩, rfl⟩
    exact ⟨quad, hm, by simpa [Encoder.encodeQuad] using hd, rfl⟩
  · rintro ⟨quad, hm, hd, rfl⟩
    exact ⟨_, ⟨_, ⟨by simpa [Encoder.encodeQuad] using hd, quad, hm, rfl⟩, rfl⟩, rfl⟩

-- The files of a batch.
theorem load_builds (enc : Encoder) (quads : List Rdf.Quad) :
    Builds (load enc quads) (Distinct (quads.map enc.encodeQuad)) fun t k v =>
      (t = .id2str ∧ ∃ id str, (allStrs enc quads).lookup id = some str ∧ k = id.toBeBytes ∧
        v = SmallString.strBytes str) ∨
      ((∃ quad ∈ quads, (t, k) ∈ Layout.quadKeys (enc.encodeQuad quad)) ∨ t = .graphs ∧
        ∃ quad ∈ quads, quad.graphName ≠ .defaultGraph ∧
          k = writeTerm (enc.encodeGraphName quad.graphName)) ∧ v = [] := by
  have ⟨loader, hl, he⟩ : ∃ loader, encode enc new quads = .ok loader ∧ loader.Encodes enc quads :=
    encode_encodes quads
  have hload : load enc quads = (do
      return (← (do return (← loader.buildId2str) ++ (← loader.buildTriples))) ++
        (← loader.buildQuads)) := by
    rw [load, hl]
    change loader.buildSstFiles = _
    simp only [buildSstFiles, bind_assoc, pure_bind]
  rw [hload]
  refine (((buildId2str_builds he).append (buildTriples_builds he)).append
    (buildQuads_builds he)).congr ?_ fun t k v => ?_
  · rw [true_and]
    exact he.distinct_iff
  · rw [or_assoc, ← or_and_right]
    refine or_congr_right <| and_congr_left fun _ => ?_
    rw [or_left_comm, or_comm]
    exact or_congr he.mem_index_iff <| and_congr_right fun _ => he.mem_graphs_iff

end FileBulkLoader

end RocksDb
