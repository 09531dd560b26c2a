import OxigraphCloud.Storage.RocksDb.Transaction
import OxigraphCloud.Storage.Theorems.Semantics

namespace RocksDb

-- The keys of each column family.
def tables (db : Db) : Tables := fun table => { key | key ∈ db table }

theorem stores_empty : (tables fun _ => ∅).Stores ⟨∅, ∅⟩ := by
  have h : tables (fun _ => ∅) = fun _ => ∅ := by
    funext table
    ext key
    exact iff_of_false Std.ExtTreeMap.not_mem_empty (Set.notMem_empty _)
  rw [h]
  constructor <;> try simp
  exact ⟨by simp, by simp, by simp⟩

namespace WriteBatch

variable {batch : WriteBatch}

theorem of_append {batch' : WriteBatch} :
    of (batch ++ batch') table = batch.of table ++ batch'.of table := by
  simp [of]

-- What a batch does to the keys of each column family.
def delta (batch : WriteBatch) : TablesDelta := fun table key =>
  (Mutation.effects key (batch.of table)).map Option.isSome

theorem delta_nil : delta [] = fun _ _ => none := rfl

theorem delta_append {batch' : WriteBatch} :
    delta (batch ++ batch') = batch'.delta.comp batch.delta := by
  funext table key
  simp only [delta, of_append, Mutation.effects_append, TablesDelta.comp, Delta.comp_apply]
  cases Mutation.effects key (batch'.of table) <;> simp

theorem tables_write (db : Db) : tables (db.write batch) = batch.delta.patch (tables db) := by
  funext table
  ext key
  change key ∈ Mutation.applyAll (db table) (batch.of table) ↔
    batch.delta table key = some true ∨ batch.delta table key = none ∧ key ∈ db table
  rw [Mutation.mem_applyAll, Std.ExtTreeMap.mem_iff_isSome_getElem?, delta]
  cases Mutation.effects key (batch.of table) <;> simp

def put (entry : Table × Bytes × Bytes) : Table × Mutation Bytes Bytes :=
  (entry.1, .put entry.2.1 entry.2.2)

def delete (entry : Table × Bytes) : Table × Mutation Bytes Bytes := (entry.1, .delete entry.2)

theorem foldl_insert {entries : List (Table × Bytes × Bytes)} :
    entries.foldl insert batch = batch ++ entries.map put := by
  induction entries generalizing batch
  case nil => simp
  case cons hi => simp [hi, insert, put]

theorem foldl_remove {keys : List (Table × Bytes)} :
    keys.foldl remove batch = batch ++ keys.map delete := by
  induction keys generalizing batch
  case nil => simp
  case cons hi => simp [hi, remove, delete]

theorem of_puts {entries : List (Table × Bytes × Bytes)} : of (entries.map put) table =
    (entries.filter (·.1 = table)).map fun e => .put e.2.1 e.2.2 := by
  induction entries
  case nil => rfl
  case cons e entries hi =>
    by_cases h : e.1 = table <;> simp_all [of, put]

theorem of_deletes {keys : List (Table × Bytes)} : of (keys.map delete) table =
    ((keys.filter (·.1 = table)).map Prod.snd).map .delete := by
  induction keys
  case nil => rfl
  case cons e keys hi =>
    by_cases h : e.1 = table <;> simp_all [of, delete]

theorem delta_puts {entries : List (Table × Bytes × Bytes)} :
    delta (entries.map put) = .puts entries := by
  funext table key
  refine Option.ext fun b => ?_
  have he : (∃ e ∈ entries.filter (·.1 = table), e.2.1 = key) ↔ ∃ v, (table, key, v) ∈ entries := by
    constructor
    · intro ⟨⟨_, _, v⟩, he, hk⟩
      have ⟨he, ht⟩ := List.mem_filter.mp he
      exact ⟨v, by simpa [← hk, ← of_decide_eq_true ht] using he⟩
    · exact fun ⟨v, he⟩ => ⟨_, List.mem_filter.mpr ⟨he, by simp⟩, rfl⟩
  rw [Layout.puts_eq_some, ← he, ← Mutation.effects_puts, delta, of_puts]

theorem delta_deletes {keys : List (Table × Bytes)} :
    delta (keys.map delete) = .deletes keys := by
  funext table key
  have hm : key ∈ (keys.filter (·.1 = table)).map Prod.snd ↔ (table, key) ∈ keys := by simp
  simp only [delta, of_deletes, Mutation.effects_deletes, hm, TablesDelta.deletes]
  split <;> rfl

-- Takes out all keys of the given tables that are less than the highest byte.
def wipes (ts : List Table) : TablesDelta := fun table key =>
  if table ∈ ts ∧ key < [0xFF] then some false else none

theorem removeTables_eq {ts : List Table} : StorageTransaction.removeTables ts batch =
    batch ++ ts.map fun table => (table, .deleteRange [] [0xFF]) := by
  induction ts generalizing batch
  case nil => simp [StorageTransaction.removeTables]
  case cons table ts hi => exact hi.trans <| by simp [removeRange]

theorem delta_removeRanges {ts : List Table} :
    delta (ts.map fun table => (table, .deleteRange [] [0xFF])) = wipes ts := by
  induction ts using List.reverseRecOn
  case nil =>
    funext
    simp [delta_nil, wipes]
  case append_singleton ts table hi =>
    rw [List.map_append, delta_append, hi]
    funext table' key
    have hl : ([] : Bytes) ≤ key := not_lt.mp Bytes.not_lt_nil
    by_cases ht : table = table' <;> by_cases hk : key < [0xFF] <;>
      simp [TablesDelta.comp, delta, of, wipes, Mutation.effects, Mutation.effect, ht, hk, hl,
        eq_comm]

theorem wipes_ne_true : wipes ts table key ≠ some true := by
  simp [wipes]

-- Emptying all column families of the default graph, or all those of the named graphs.
theorem coherent_wipes (es : List QuadEncoding) (b : Bool)
    (hd : ∀ e, e ∈ es ↔ e.forDefaultGraph = b) : (wipes (es.map QuadEncoding.table)).Coherent
      (.dropQuads { q | q.graphName = .defaultGraph ↔ b }) := by
  constructor
  case isQuad | quadStrs => simp [DatasetDelta.dropQuads, Delta.drop_eq_some_iff]
  case isTerm | graphStrs => simp [DatasetDelta.dropQuads]
  case foreign | foreignGraph => exact fun _ => wipes_ne_true
  case graphs => simp [wipes, QuadEncoding.table_ne_graphs, DatasetDelta.dropQuads]
  case strs => simp [wipes, QuadEncoding.table_ne_id2str]
  case index =>
    intro e q hq
    have hm : e.table ∈ es.map QuadEncoding.table ↔
        q.canonical ∈ { q | q.graphName = .defaultGraph ↔ b } := by
      have hg : q.canonical.graphName = .defaultGraph ↔ e.forDefaultGraph := hq.canonical.graph
      rw [List.mem_map_of_injective QuadEncoding.table_injective, hd, Set.mem_ofPred, hg,
        ← Bool.eq_iff_iff]
    simp only [wipes, hq.writer_lt, and_true, hm]
    split <;> simp_all [DatasetDelta.dropQuads, Delta.drop]

theorem coherent_wipes_graphs : (wipes [.graphs]).Coherent (.dropGraphs Set.univ) := by
  constructor
  case isTerm | graphStrs => simp [DatasetDelta.dropGraphs, Delta.drop_eq_some_iff]
  case isQuad | quadStrs => simp [DatasetDelta.dropGraphs]
  case foreign | foreignGraph => exact fun _ => wipes_ne_true
  case index => simp [wipes, QuadEncoding.table_ne_graphs, DatasetDelta.dropGraphs]
  case strs => simp [wipes]
  case graphs =>
    intro g hg
    have hl := hg.writeTerm_append_lt []
    rw [List.append_nil] at hl
    simp [wipes, hl, DatasetDelta.dropGraphs, Delta.drop]

end WriteBatch

namespace StorageTransaction

variable {batch : WriteBatch} {δ : DatasetDelta} {enc : Encoder}

open WriteBatch

theorem coherent_append {batch' : WriteBatch} (h : batch.delta.Coherent δ)
    (h' : batch'.delta.Coherent δ') : (delta (batch ++ batch')).Coherent (δ'.comp δ) :=
  delta_append ▸ h'.comp h

theorem insertQuad_coherent (quad : Rdf.Quad) (h : batch.delta.Coherent δ) :
    (batch.insertQuad enc quad).delta.Coherent <|
      (DatasetDelta.insert (enc.encodeQuad quad).canonical).comp δ := by
  rw [insertQuad, foldl_insert]
  exact coherent_append h <| delta_puts ▸ Layout.coherent_insert enc quad

theorem insertNamedGraph_coherent (graphName : Rdf.NamedOrBlankNode) (h : batch.delta.Coherent δ) :
    (batch.insertNamedGraph enc graphName).delta.Coherent <|
      (DatasetDelta.insertNamedGraph (enc.encodeNamedOrBlankNode graphName).canonical).comp δ := by
  rw [insertNamedGraph, foldl_insert]
  exact coherent_append h <| delta_puts ▸ Layout.coherent_insertNamedGraph enc graphName

theorem removeEncoded_coherent (h : batch.delta.Coherent δ) (hq : q.IsQuad) :
    (batch.removeEncoded q).delta.Coherent <| (DatasetDelta.remove q.canonical).comp δ := by
  rw [removeEncoded, foldl_remove]
  exact coherent_append h <| delta_deletes ▸ Layout.coherent_remove hq

theorem removeGraphName_coherent (h : batch.delta.Coherent δ) (hg : g.IsTerm) :
    (batch.remove (.graphs, writeTerm g)).delta.Coherent <|
      (DatasetDelta.removeGraphName g.canonical).comp δ := by
  have hd : delta ([(.graphs, writeTerm g)].map delete) = _ := delta_deletes
  exact coherent_append h <| hd ▸ Layout.coherent_removeGraphName hg

theorem clearDefaultGraph_coherent (h : batch.delta.Coherent δ) :
    (clearDefaultGraph batch).delta.Coherent <|
      (DatasetDelta.dropQuads { q | q.graphName = .defaultGraph }).comp δ := by
  have hw := coherent_wipes [.dspo, .dpos, .dosp] true fun e => by cases e <;> decide
  simp only [iff_true] at hw
  rw [clearDefaultGraph, removeTables_eq]
  exact coherent_append h <| delta_removeRanges ▸ hw

theorem clearAllNamedGraphs_coherent (h : batch.delta.Coherent δ) :
    (clearAllNamedGraphs batch).delta.Coherent <|
      (DatasetDelta.dropQuads { q | q.graphName ≠ .defaultGraph }).comp δ := by
  have hw := coherent_wipes [.gspo, .gpos, .gosp, .spog, .posg, .ospg] false
    fun e => by cases e <;> decide
  simp only [Bool.false_eq_true, iff_false] at hw
  rw [clearAllNamedGraphs, removeTables_eq]
  exact coherent_append h <| delta_removeRanges ▸ hw

theorem removeAllNamedGraphs_coherent (h : batch.delta.Coherent δ) :
    (removeAllNamedGraphs batch).delta.Coherent <| (DatasetDelta.dropGraphs Set.univ).comp <|
      (DatasetDelta.dropQuads { q | q.graphName ≠ .defaultGraph }).comp δ := by
  rw [removeAllNamedGraphs, removeTables_eq]
  exact coherent_append (clearAllNamedGraphs_coherent h) <|
    delta_removeRanges ▸ coherent_wipes_graphs

theorem clear_coherent (h : batch.delta.Coherent δ) :
    (clear batch).delta.Coherent <| (DatasetDelta.dropGraphs Set.univ).comp <|
      (DatasetDelta.dropQuads { q | q.graphName ≠ .defaultGraph }).comp <|
        (DatasetDelta.dropQuads { q | q.graphName = .defaultGraph }).comp δ := by
  rw [clear]
  exact removeAllNamedGraphs_coherent <| clearDefaultGraph_coherent h

-- What an operation adds to the batch makes the change that the operation means.
theorem apply_coherent (op : WriteOp) (h : batch.delta.Coherent δ) :
    ∃ δ', (apply enc op batch).delta.Coherent δ' ∧
      ∀ D, δ'.patch D = op.kvMeaning enc (δ.patch D) := by
  have hd {D : Dataset} : (D.quads \ { q | q.graphName = .defaultGraph }) \
      { q | q.graphName ≠ .defaultGraph } = ∅ := by
    ext q
    by_cases hq : q.graphName = .defaultGraph <;> simp [hq]
  cases op
  case insert quad =>
    refine ⟨_, insertQuad_coherent quad h, fun D => ?_⟩
    rw [DatasetDelta.patch_comp, DatasetDelta.patch_insert]
    rfl
  case insertNamedGraph graphName =>
    refine ⟨_, insertNamedGraph_coherent graphName h, fun D => ?_⟩
    rw [DatasetDelta.patch_comp, DatasetDelta.patch_insertNamedGraph,
      Encoder.canonical_encodeNamedOrBlankNode]
    rfl
  case remove quad =>
    refine ⟨_, removeEncoded_coherent h (enc.isQuad_encodeQuad quad), fun D => ?_⟩
    rw [DatasetDelta.patch_comp, DatasetDelta.patch_remove]
    rfl
  case clearDefaultGraph =>
    refine ⟨_, clearDefaultGraph_coherent h, fun D => ?_⟩
    rw [DatasetDelta.patch_comp, DatasetDelta.patch_dropQuads]
    simp only [WriteOp.kvMeaning, WriteOp.meaning, Dataset.clearGraph, quadsOf]
    congr 1
    ext q
    simp
  case clearAllNamedGraphs =>
    refine ⟨_, clearAllNamedGraphs_coherent h, fun D => ?_⟩
    rw [DatasetDelta.patch_comp, DatasetDelta.patch_dropQuads]
    rfl
  case removeAllNamedGraphs =>
    refine ⟨_, removeAllNamedGraphs_coherent h, fun D => ?_⟩
    simp [DatasetDelta.patch_comp, WriteOp.kvMeaning, WriteOp.meaning, Dataset.removeAllNamedGraphs]
  case clear | clearAllGraphs =>
    refine ⟨_, clear_coherent h, fun D => ?_⟩
    simp [DatasetDelta.patch_comp, WriteOp.kvMeaning, WriteOp.meaning, Dataset.clear, hd]

end StorageTransaction

end RocksDb
