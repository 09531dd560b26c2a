import OxigraphCloud.Storage.Theorems.Registration
import OxigraphCloud.Storage.Theorems.Semantics
import OxigraphCloud.Storage.TiKv.Transaction
import OxigraphCloud.Storage.TiKv.Theorems.Reader

namespace TiKv

theorem Table.byte_injective : Function.Injective Table.byte := by
  intro t t' h
  cases t <;> cases t' <;> first | rfl | contradiction

@[simp]
theorem prefixedKey_inj : prefixedKey table key = prefixedKey table' key' ↔
    table = table' ∧ key = key' := by
  simp [prefixedKey, Table.byte_injective.eq_iff]

-- What buffered writes do to the tables.
def writesDelta (ws : List (Mutation Bytes Bytes)) : TablesDelta := fun table key =>
  (Mutation.effects (prefixedKey table key) ws).map Option.isSome

theorem tables_applyAll :
    tables (Mutation.applyAll kv ws) = (writesDelta ws).patch (tables kv) := by
  funext table
  ext key
  change prefixedKey table key ∈ Mutation.applyAll kv ws ↔
    writesDelta ws table key = some true ∨ writesDelta ws table key = none ∧
      prefixedKey table key ∈ kv
  rw [Mutation.mem_applyAll, Std.ExtTreeMap.mem_iff_isSome_getElem?, writesDelta]
  cases Mutation.effects (prefixedKey table key) ws <;> simp

theorem writesDelta_append :
    writesDelta (ws ++ ws') = (writesDelta ws').comp (writesDelta ws) := by
  funext table key
  simp only [writesDelta, Mutation.effects_append, TablesDelta.comp, Delta.comp_apply]
  cases Mutation.effects (prefixedKey table key) ws' <;> simp

theorem writesDelta_nil : writesDelta [] = fun _ _ => none := rfl

def putMutation (entry : Table × Bytes × Bytes) : Mutation Bytes Bytes :=
  .put (prefixedKey entry.1 entry.2.1) entry.2.2

def deleteMutation (entry : Table × Bytes) : Mutation Bytes Bytes :=
  .delete (prefixedKey entry.1 entry.2)

theorem writesDelta_puts : writesDelta (entries.map putMutation) = .puts entries := by
  funext table key
  refine Option.ext fun b => ?_
  have he : (∃ e ∈ entries, prefixedKey e.1 e.2.1 = prefixedKey table key) ↔
      ∃ v, (table, key, v) ∈ entries := by
    simp only [prefixedKey_inj]
    exact ⟨fun ⟨⟨_, _, v⟩, he, ht, hk⟩ => ⟨v, ht ▸ hk ▸ he⟩, fun ⟨v, he⟩ => ⟨_, he, rfl, rfl⟩⟩
  rw [Layout.puts_eq_some, ← he, ← Mutation.effects_puts]
  rfl

theorem writesDelta_deleteKeys {keys : List Bytes} : writesDelta (keys.map .delete) table key =
    if prefixedKey table key ∈ keys then some false else none := by
  rw [writesDelta, Mutation.effects_deletes]
  split <;> rfl

theorem writesDelta_deletes : writesDelta (keys.map deleteMutation) = .deletes keys := by
  funext table key
  have hk : keys.map deleteMutation =
      (keys.map fun entry => prefixedKey entry.1 entry.2).map .delete := by
    rw [List.map_map]
    rfl
  have hm : prefixedKey table key ∈ keys.map (fun entry => prefixedKey entry.1 entry.2) ↔
      (table, key) ∈ keys := by
    simp
  rw [hk, writesDelta_deleteKeys, TablesDelta.deletes]
  simp only [hm]

namespace Transaction

variable {txn txn₁ txn₂ : Transaction}

-- The transaction `txn'` has buffered `ws` in addition to the writes of `txn`.
def Writes (txn : Transaction) (ws : List (Mutation Bytes Bytes)) (txn' : Transaction) : Prop :=
  ∃ n, txn' = { txn with writes := txn.writes ++ ws, calls := n }

theorem Writes.refl : txn.Writes [] txn :=
  ⟨txn.calls, by simp⟩

theorem Writes.trans (h₁ : txn.Writes ws₁ txn₁) (h₂ : txn₁.Writes ws₂ txn₂) :
    txn.Writes (ws₁ ++ ws₂) txn₂ := by
  have ⟨_, h₁⟩ := h₁
  have ⟨n, h₂⟩ := h₂
  exact ⟨n, by simp [h₁, h₂]⟩

theorem Writes.faults (h : txn.Writes ws txn₁) : txn₁.faults = txn.faults := by
  have ⟨_, h⟩ := h
  rw [h]

theorem Writes.view (h : txn.Writes ws txn₁) : txn₁.view = Mutation.applyAll txn.view ws := by
  have ⟨_, h⟩ := h
  rw [h, Transaction.view, Mutation.applyAll_append]
  rfl

section NoFaults

variable (hf : txn.faults = noFaults)

include hf

theorem putEntry_writes : txn.Writes [putMutation entry] (txn.putEntry entry) := by
  refine ⟨txn.calls + 1, ?_⟩
  simp [putEntry, Call.ignore, put, request, hf, noFaults, putMutation]

theorem delete_writes : txn.Writes [.delete key] (Call.ignore (delete key) txn) := by
  refine ⟨txn.calls + 1, ?_⟩
  simp [Call.ignore, delete, request, hf, noFaults]

-- Single writes one after the other.
theorem foldl_writes {write : Transaction → α → Transaction} {mutation : α → Mutation Bytes Bytes}
    (hw : ∀ {txn : Transaction} {a}, txn.faults = noFaults → txn.Writes [mutation a] (write txn a))
    {as : List α} :
    txn.Writes (as.map mutation) (as.foldl write txn) := by
  induction as generalizing txn
  case nil => exact .refl
  case cons a as hi =>
    have h := hw (a := a) hf
    exact h.trans <| hi <| h.faults.trans hf

theorem putEntries_writes {entries : List (Table × Bytes × Bytes)} :
    txn.Writes (entries.map putMutation) (entries.foldl putEntry txn) :=
  foldl_writes hf fun hf => putEntry_writes hf

theorem deleteKeys_writes {keys : List (Table × Bytes)} :
    txn.Writes (keys.map deleteMutation) (keys.foldl deleteKey txn) :=
  foldl_writes hf fun hf => delete_writes hf

end NoFaults

-- A transaction on a store that holds `D`, whose buffered writes make the change `δ`.
structure Pending (txn : Transaction) (D : Dataset) (δ : DatasetDelta) : Prop where
  faults   : txn.faults = noFaults
  stores   : (tables txn.snapshot).Stores D
  coherent : (writesDelta txn.writes).Coherent δ

namespace Pending

variable {D : Dataset} {δ δ' : DatasetDelta}

theorem view (h : txn.Pending D δ) : (tables txn.view).Stores (δ.patch D) := by
  rw [Transaction.view, tables_applyAll]
  exact h.stores.patch h.coherent

theorem writes (h : txn.Pending D δ) (hw : txn.Writes ws txn₁)
    (hc : (writesDelta ws).Coherent δ') : txn₁.Pending D (δ'.comp δ) := by
  have ⟨_, hw⟩ := hw
  subst hw
  exact ⟨h.faults, h.stores, writesDelta_append ▸ hc.comp h.coherent⟩

theorem insert (h : txn.Pending D δ) : (txn.insert enc quad).Pending D <|
    (DatasetDelta.insert (enc.encodeQuad quad).canonical).comp δ :=
  h.writes (putEntries_writes h.faults) <| writesDelta_puts ▸ Layout.coherent_insert enc quad

theorem insertNamedGraph (h : txn.Pending D δ) : (txn.insertNamedGraph enc graphName).Pending D <|
    (DatasetDelta.insertNamedGraph (enc.encodeNamedOrBlankNode graphName).canonical).comp δ :=
  h.writes (putEntries_writes h.faults) <|
    writesDelta_puts ▸ Layout.coherent_insertNamedGraph enc graphName

theorem removeEncoded (h : txn.Pending D δ) (hq : q.IsQuad) : (txn.removeEncoded q).Pending D <|
    (DatasetDelta.remove q.canonical).comp δ :=
  h.writes (deleteKeys_writes h.faults) <| writesDelta_deletes ▸ Layout.coherent_remove hq

theorem removeGraphName (h : txn.Pending D δ) (hg : g.IsTerm) :
    (txn.deleteKey (.graphs, writeTerm g)).Pending D <|
      (DatasetDelta.removeGraphName g.canonical).comp δ := by
  have hw : txn.Writes _ ([(.graphs, writeTerm g)].foldl deleteKey txn) :=
    deleteKeys_writes h.faults
  exact h.writes hw <| writesDelta_deletes ▸ Layout.coherent_removeGraphName hg

end Pending

end Transaction

namespace StorageTransaction

variable {txn : Transaction}

theorem deletePrefix_writes (table : Table) (hf : txn.faults = noFaults)
    (hs : Fits txn.view table) :
    ∃ ws, txn.Writes ws (deletePrefix table txn) ∧
      writesDelta ws = .clears [table] (tables txn.view) := by
  have hr : txn.Reads txn.view := ⟨hf, rfl⟩
  let keys := txn.view.keysIn (prefixRange (prefixedKey table []))
  refine ⟨keys.map .delete, ?_, ?_⟩
  · have hw : txn.Writes [] { txn with calls := txn.calls + 1 } := ⟨txn.calls + 1, by simp⟩
    rw [deletePrefix, hr.scanKeys, List.take_of_length_le (length_keysIn_table.trans_le hs)]
    exact hw.trans <|
      Transaction.foldl_writes (hw.faults.trans hf) fun hf => Transaction.delete_writes hf
  · funext table' key
    have hm : prefixedKey table' key ∈ keys ↔ table' ∈ [table] ∧ key ∈ tables txn.view table' := by
      simp +contextual [keys, mem_keysIn_prefixRange, eq_comm, and_assoc]
    rw [writesDelta_deleteKeys]
    refine Option.ext fun b => ?_
    rw [TablesDelta.clears_eq_some_iff, ← hm]
    split <;> simp_all [eq_comm]

theorem fits_of_clears (hw : txn.Writes ws txn')
    (hc : writesDelta ws = .clears ts (tables txn.view)) (hs : Fits txn.view table) :
    Fits txn'.view table := by
  refine le_trans (Set.ncard_le_ncard ?_ (lists_table ..).finite) hs
  rw [hw.view, tables_applyAll, hc]
  exact fun key hk => (TablesDelta.mem_patch_clears.mp hk).left

-- The tables are emptied one after the other.
theorem deletePrefixes_writes (ts : List Table) (hf : txn.faults = noFaults)
    (hs : ∀ table ∈ ts, Fits txn.view table) :
    ∃ ws, txn.Writes ws (deletePrefixes ts txn) ∧
      writesDelta ws = .clears ts (tables txn.view) := by
  induction ts generalizing txn
  case nil => exact ⟨[], .refl, by funext; simp [writesDelta_nil, TablesDelta.clears]⟩
  case cons table ts hi =>
    obtain ⟨ht, hts⟩ := List.forall_mem_cons.mp hs
    obtain ⟨ws, hw, hc⟩ := deletePrefix_writes table hf ht
    obtain ⟨ws', hw', hc'⟩ := hi (hw.faults.trans hf) fun table ht =>
      fits_of_clears hw hc (hts table ht)
    refine ⟨ws ++ ws', hw.trans hw', ?_⟩
    rw [writesDelta_append, hc, hc', hw.view, tables_applyAll, hc, ← TablesDelta.clears_cons]

-- A transaction that can delete all keys of a table with a single scan.
structure Clearable (txn : Transaction) (D : Dataset) (δ : DatasetDelta) : Prop
    extends txn.Pending D δ where
  fits       : ∀ e : QuadEncoding, Fits txn.view e.table
  fitsGraphs : Fits txn.view .graphs

section Clear

variable {D : Dataset} {δ : DatasetDelta}

theorem deletePrefixes_clearable (es : List QuadEncoding) (b : Bool) (h : Clearable txn D δ)
    (hd : ∀ e, e ∈ es ↔ e.forDefaultGraph = b) :
    Clearable (deletePrefixes (es.map QuadEncoding.table) txn) D <| (DatasetDelta.dropQuads {
      q ∈ (δ.patch D).quads | q.graphName = .defaultGraph ↔ b
    }).comp δ := by
  have ⟨ws, hw, hc⟩ := deletePrefixes_writes (es.map QuadEncoding.table) h.faults <|
    List.forall_mem_map.mpr fun e _ => h.fits e
  have hm : ∀ e : QuadEncoding, e.table ∈ es.map QuadEncoding.table ↔ e.forDefaultGraph = b :=
    fun e => (List.mem_map_of_injective QuadEncoding.table_injective).trans (hd e)
  have hco := Layout.coherent_clears h.view.toIndexes hm
    (by simp [QuadEncoding.table_ne_graphs]) (by simp [QuadEncoding.table_ne_id2str])
  rw [← hc] at hco
  exact ⟨h.writes hw hco, fun e => fits_of_clears hw hc (h.fits e),
    fits_of_clears hw hc h.fitsGraphs⟩

theorem clearDefaultGraph_clearable (h : Clearable txn D δ) :
    Clearable (clearDefaultGraph txn) D <| (DatasetDelta.dropQuads {
      q ∈ (δ.patch D).quads | q.graphName = .defaultGraph
    }).comp δ := by
  have := deletePrefixes_clearable [.dspo, .dpos, .dosp] true h fun e => by cases e <;> decide
  simpa [clearDefaultGraph, QuadEncoding.table] using this

theorem clearAllNamedGraphs_clearable (h : Clearable txn D δ) :
    Clearable (clearAllNamedGraphs txn) D <| (DatasetDelta.dropQuads {
      q ∈ (δ.patch D).quads | q.graphName ≠ .defaultGraph
    }).comp δ := by
  have := deletePrefixes_clearable [.gspo, .gpos, .gosp, .spog, .posg, .ospg] false h
    fun e => by cases e <;> decide
  simpa [clearAllNamedGraphs, QuadEncoding.table] using this

theorem deleteGraphs_clearable (h : Clearable txn D δ) :
    Clearable (deletePrefix .graphs txn) D <|
      (DatasetDelta.dropGraphs (δ.patch D).namedGraphs).comp δ := by
  have ⟨ws, hw, hc⟩ := deletePrefix_writes .graphs h.faults h.fitsGraphs
  exact ⟨h.writes hw <| hc ▸ Layout.coherent_clears_graphs h.view,
    fun e => fits_of_clears hw hc (h.fits e), fits_of_clears hw hc h.fitsGraphs⟩

theorem removeAllNamedGraphs_clearable (h : Clearable txn D δ) :
    Clearable (removeAllNamedGraphs txn) D <|
      (DatasetDelta.dropGraphs (δ.patch D).namedGraphs).comp <| (DatasetDelta.dropQuads {
        q ∈ (δ.patch D).quads | q.graphName ≠ .defaultGraph
      }).comp δ := by
  have := deleteGraphs_clearable <| clearAllNamedGraphs_clearable h
  simpa [DatasetDelta.patch_comp, removeAllNamedGraphs] using this

theorem clear_clearable (h : Clearable txn D δ) :
    Clearable (clear txn) D <|
      (DatasetDelta.dropGraphs (δ.patch D).namedGraphs).comp <|
        (DatasetDelta.dropQuads (δ.patch D).quads).comp δ := by
  have := removeAllNamedGraphs_clearable <| clearDefaultGraph_clearable h
  have he : { q ∈ (δ.patch D).quads | q.graphName = .defaultGraph } ∪
      { q ∈ (δ.patch D).quads \ { q ∈ (δ.patch D).quads | q.graphName = .defaultGraph } |
        q.graphName ≠ .defaultGraph } = (δ.patch D).quads := by
    ext q
    by_cases hg : q.graphName = .defaultGraph <;> simp [hg]
  rw [DatasetDelta.patch_comp, DatasetDelta.patch_dropQuads,
    ← DatasetDelta.comp_assoc _ _ δ, DatasetDelta.dropQuads_comp, he] at this
  exact this

-- An operation makes the change that it means, if the scans of the tables can be complete. The
-- graph names of all quads stay known.
theorem apply_pending {enc : Encoder} (op : WriteOp) (h : Clearable txn D δ) :
    ∃ δ', (apply enc op txn).Pending D δ' ∧ δ'.patch D = op.kvMeaning enc (δ.patch D) ∧
      ∀ {versions : Set (Set EncodedQuad)},
        D.quads ∈ versions → δ.Sound versions → δ'.Sound versions := by
  -- A quad that a scan does not find has not been inserted, and it is not committed.
  have hn {q} {versions : Set (Set EncodedQuad)} (hD : D.quads ∈ versions)
      (hq : q ∉ (δ.patch D).quads) :
      δ.quads q ≠ some true ∧ (δ.quads q = none → ∃ Q ∈ versions, q ∉ Q) :=
    ⟨fun hd => hq (.inl hd), fun hd => ⟨_, hD, fun hm => hq (.inr ⟨hd, hm⟩)⟩⟩
  cases op
  case insert quad =>
    refine ⟨_, h.toPending.insert, ?_, fun _ hs => hs.insert⟩
    rw [DatasetDelta.patch_comp, DatasetDelta.patch_insert]
    rfl
  case insertNamedGraph graphName =>
    refine ⟨_, h.toPending.insertNamedGraph, ?_, fun _ hs => hs.insertNamedGraph⟩
    rw [DatasetDelta.patch_comp, DatasetDelta.patch_insertNamedGraph,
      Encoder.canonical_encodeNamedOrBlankNode]
    rfl
  case remove quad =>
    refine ⟨_, h.toPending.removeEncoded (enc.isQuad_encodeQuad quad), ?_,
      fun _ hs => DatasetDelta.dropQuads_singleton ▸ hs.dropQuads⟩
    rw [DatasetDelta.patch_comp, DatasetDelta.patch_remove]
    rfl
  case clearDefaultGraph =>
    refine ⟨_, (clearDefaultGraph_clearable h).toPending, ?_, fun _ hs => hs.dropQuads⟩
    rw [DatasetDelta.patch_comp, DatasetDelta.patch_dropQuads]
    rfl
  case clearAllNamedGraphs =>
    refine ⟨_, (clearAllNamedGraphs_clearable h).toPending, ?_, fun _ hs => hs.dropQuads⟩
    rw [DatasetDelta.patch_comp, DatasetDelta.patch_dropQuads]
    simp only [WriteOp.kvMeaning, WriteOp.meaning, Dataset.clearAllNamedGraphs]
    congr 1
    ext q
    simp
  case removeAllNamedGraphs =>
    refine ⟨_, (removeAllNamedGraphs_clearable h).toPending, ?_, fun hD hs =>
      hs.dropGraphs fun hg hq => hn hD fun hm => hq ⟨hm, h.view.ne_defaultGraph hg⟩⟩
    simp only [DatasetDelta.patch_comp, DatasetDelta.patch_dropQuads, DatasetDelta.patch_dropGraphs,
      WriteOp.kvMeaning, WriteOp.meaning, Dataset.removeAllNamedGraphs, Set.sdiff_self]
    congr 1
    ext q
    simp
  case clear | clearAllGraphs =>
    refine ⟨_, (clear_clearable h).toPending, ?_, fun hD hs => hs.dropGraphs fun _ => hn hD⟩
    simp [DatasetDelta.patch_comp, WriteOp.kvMeaning, WriteOp.meaning, Dataset.clear]

end Clear

end StorageTransaction

end TiKv
