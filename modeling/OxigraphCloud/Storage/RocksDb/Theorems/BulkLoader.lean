import OxigraphCloud.Storage.RocksDb.Theorems.FileBulkLoader

namespace RocksDb

-- The value that puts leave under a key.
def lastValue (entries : List (Table × Bytes × Bytes)) (table : Table) (key : Bytes) :
    Option Bytes :=
  entries.foldl (fun v e => if e.1 = table ∧ e.2.1 = key then some e.2.2 else v) none

section LastValue

variable {entries entries' : List (Table × Bytes × Bytes)} {table : Table} {key : Bytes}

theorem lastValue_concat {e : Table × Bytes × Bytes} : lastValue (entries ++ [e]) table key =
    if e.1 = table ∧ e.2.1 = key then some e.2.2 else lastValue entries table key := by
  simp [lastValue]

theorem lastValue_append : lastValue (entries ++ entries') table key =
    (lastValue entries' table key).or (lastValue entries table key) := by
  induction entries' using List.reverseRecOn
  case nil => simp [lastValue]
  case append_singleton entries' e hi =>
    rw [← List.append_assoc, lastValue_concat, lastValue_concat, hi]
    split <;> rfl

theorem mem_of_lastValue (h : lastValue entries table key = some v) :
    (table, key, v) ∈ entries := by
  induction entries using List.reverseRecOn
  case nil => contradiction
  case append_singleton entries e hi =>
    rw [lastValue_concat] at h
    split at h
    case isTrue he =>
      obtain ⟨rfl, rfl⟩ := he
      cases h
      simp
    case isFalse => exact List.mem_append_left _ (hi h)

theorem lastValue_isSome_iff :
    (lastValue entries table key).isSome ↔ ∃ v, (table, key, v) ∈ entries := by
  induction entries using List.reverseRecOn
  case nil => simp [lastValue]
  case append_singleton entries e hi =>
    simp only [lastValue_concat, List.mem_append, List.mem_singleton, exists_or, ← hi]
    split
    case isTrue he => exact ⟨fun _ => .inr ⟨e.2.2, by simp [← he.1, ← he.2]⟩, fun _ => rfl⟩
    case isFalse he =>
      refine (or_iff_left ?_).symm
      rintro ⟨v, rfl⟩
      exact he ⟨rfl, rfl⟩

-- The order of the entries does not matter if there is at most one value for the key.
theorem lastValue_eq {value : Option Bytes}
    (h : ∀ v, (table, key, v) ∈ entries ↔ value = some v) :
    lastValue entries table key = value := by
  cases hl : lastValue entries table key
  case some v => exact ((h v).mp (mem_of_lastValue hl)).symm
  case none =>
    cases value
    case none => rfl
    case some v =>
      have hs := lastValue_isSome_iff.mpr ⟨v, (h v).mpr rfl⟩
      simp [hl] at hs

theorem lastValue_congr (h : ∀ v, (table, key, v) ∈ entries → v = c)
    (h' : ∀ v, (table, key, v) ∈ entries' → v = c)
    (hm : (∃ v, (table, key, v) ∈ entries) ↔ ∃ v, (table, key, v) ∈ entries') :
    lastValue entries table key = lastValue entries' table key := by
  rw [← lastValue_isSome_iff, ← lastValue_isSome_iff] at hm
  cases hl : lastValue entries table key <;> cases hl' : lastValue entries' table key
  case some.some v v' => rw [h v (mem_of_lastValue hl), h' v' (mem_of_lastValue hl')]
  all_goals simp_all

theorem lastValue_filter :
    lastValue (entries.filter (·.1 = table)) table key = lastValue entries table key := by
  induction entries using List.reverseRecOn
  case nil => rfl
  case append_singleton entries e hi =>
    rw [List.filter_append, lastValue_append, hi, lastValue_append]
    congr 1
    by_cases he : e.1 = table <;> simp [he, lastValue]

theorem effects_puts_eq : Mutation.effects key (WriteBatch.of (entries.map WriteBatch.put) table) =
    (lastValue entries table key).map some := by
  induction entries using List.reverseRecOn
  case nil => rfl
  case append_singleton entries e hi =>
    rw [List.map_append, WriteBatch.of_append, Mutation.effects_append, hi, lastValue_append]
    by_cases ht : e.1 = table <;> by_cases hk : e.2.1 = key <;>
      simp [WriteBatch.of, WriteBatch.put, ht, hk, Mutation.effects, Mutation.effect, lastValue]

theorem getElem?_write_puts (db : Db) : (db.write (entries.map WriteBatch.put) table)[key]? =
    (lastValue entries table key).or (db table)[key]? := by
  rw [Db.write, Mutation.getElem?_applyAll, effects_puts_eq]
  cases lastValue entries table key <;> rfl

theorem write_puts_eq_iff (db : Db) (h : ∀ table key,
    (∃ v, (table, key, v) ∈ entries) ↔ ∃ v, (table, key, v) ∈ entries') :
    db.write (entries.map WriteBatch.put) = db.write (entries'.map WriteBatch.put) ↔
      ∀ table key, lastValue entries table key = lastValue entries' table key := by
  constructor
  · intro he table key
    have hs := h table key
    have hv : (db.write (entries.map WriteBatch.put) table)[key]? =
      (db.write (entries'.map WriteBatch.put) table)[key]? := by rw [he]
    rw [← lastValue_isSome_iff, ← lastValue_isSome_iff] at hs
    rw [getElem?_write_puts, getElem?_write_puts] at hv
    cases hl : lastValue entries table key <;> cases hl' : lastValue entries' table key <;>
      simp_all
  · intro hl
    funext table
    refine Kv.ext_getElem? fun key => ?_
    rw [getElem?_write_puts, getElem?_write_puts, hl]

end LastValue

-- The files of a load are those of its batches, in their order, no matter when threads are joined
-- and files are ingested.
namespace StorageBulkLoader

abbrev Outcomes := List (Except StorageError SstFiles)

-- What is ingested, what waits to be ingested and what the threads still have to give.
def Holds (db : Db) (outcomes : Outcomes) (loader : StorageBulkLoader) : Prop :=
  ∃ (joined : List SstFiles) (committed : SstFiles),
    outcomes = joined.map .ok ++ loader.threads ∧
    loader.db = db.insertSttFiles committed ∧ joined.flatten = committed ++ loader.sstFiles

-- The call comes to its end unless a thread has failed.
def Triple (pre : StorageBulkLoader → Prop) (call : Call Unit) (post : StorageBulkLoader → Prop)
    (outcomes : Outcomes) : Prop :=
  ∀ loader, pre loader → (∃ loader', call loader = (.ok (), loader') ∧ post loader') ∨
    ∃ e loader', call loader = (.error e, loader') ∧ .error e ∈ outcomes

namespace Triple

variable {pre mid post : StorageBulkLoader → Prop} {outcomes outcomes' : Outcomes}

theorem bind {call call' : Call Unit} (h : Triple pre call mid outcomes)
    (h' : Triple mid call' post outcomes) : Triple pre (do call; call') post outcomes := by
  intro loader hp
  cases h loader hp
  case inl h =>
    have ⟨loader', hc, hm⟩ := h
    have hb : (do call; call' : Call Unit) loader = call' loader' := by
      simp [Bind.bind, ExceptT.bind, ExceptT.mk, ExceptT.bindCont, StateT.bind, hc]
    rw [hb]
    exact h' loader' hm
  case inr h =>
    have ⟨e, loader', hc, he⟩ := h
    refine .inr ⟨e, loader', ?_, he⟩
    simp [Bind.bind, ExceptT.bind, ExceptT.mk, ExceptT.bindCont, StateT.bind, hc, Pure.pure,
      StateT.pure]

theorem mono {call : Call Unit} (h : Triple pre call post outcomes) (hs : outcomes ⊆ outcomes') :
    Triple pre call post outcomes' := by
  intro loader hp
  refine (h loader hp).imp_right ?_
  intro ⟨e, loader', hc, he⟩
  exact ⟨e, loader', hc, hs he⟩

theorem imp {call : Call Unit} (h : Triple pre call mid outcomes)
    (hm : ∀ loader, mid loader → post loader) : Triple pre call post outcomes := by
  intro loader hp
  refine (h loader hp).imp_left ?_
  intro ⟨loader', hc, hm'⟩
  exact ⟨loader', hc, hm _ hm'⟩

end Triple

variable {db : Db} {outcomes : Outcomes}

theorem join_triple (n : ℕ) :
    Triple (fun l => l.Holds db outcomes ∧ l.threads.length = n + 1) join
      (fun l => l.Holds db outcomes ∧ l.threads.length = n) outcomes := by
  rintro ⟨_, threads, sstFiles, atomic⟩ ⟨⟨joined, committed, ho, hd, hf⟩, hl⟩
  simp only at ho hd hf hl
  cases threads
  case nil => contradiction
  case cons outcome threads =>
    cases outcome
    case error e => exact .inr ⟨e, _, rfl, by simp [ho]⟩
    case ok files =>
      refine .inl ⟨_, rfl, ⟨joined ++ [files], committed, ?_, hd, ?_⟩, by simpa using hl⟩
      · simpa using ho
      · simp [hf]

theorem joinDownTo_triple (max n : ℕ) :
    Triple (fun l => l.Holds db outcomes ∧ l.threads.length = n) (joinDownTo max n)
      (fun l => l.Holds db outcomes ∧ (max = 0 → l.threads = [])) outcomes := by
  induction n
  case zero =>
    intro loader ⟨hh, hl⟩
    exact .inl ⟨loader, rfl, hh, fun _ => List.length_eq_zero_iff.mp hl⟩
  case succ n hi =>
    intro loader ⟨hh, hl⟩
    simp only [joinDownTo]
    split
    case isTrue => exact (join_triple n).bind hi loader ⟨hh, hl⟩
    case isFalse => exact .inl ⟨loader, rfl, hh, by omega⟩

theorem insertSttFiles_append {files files' : SstFiles} :
    db.insertSttFiles (files ++ files') = (db.insertSttFiles files).insertSttFiles files' := by
  funext table
  simp [Db.insertSttFiles, Db.write, SstFiles.entries, WriteBatch.of_append,
    Mutation.applyAll_append]

theorem holds_doCommit {loader : StorageBulkLoader} (h : loader.Holds db outcomes) :
    (doCommit loader).2.Holds db outcomes := by
  have ⟨joined, committed, ho, hd, hf⟩ := h
  refine ⟨joined, committed ++ loader.sstFiles, ho, ?_, by simpa [doCommit] using hf⟩
  simp [doCommit, hd, insertSttFiles_append]

theorem loadBatch_triple (enc : Encoder) (max : ℕ+) (batch : List Rdf.Quad) :
    Triple (Holds db outcomes) (loadBatch enc max batch)
      (Holds db (outcomes ++ [FileBulkLoader.load enc batch])) outcomes := by
  intro loader hh
  have hc : Triple (Holds db outcomes) commitUnlessAtomic (Holds db outcomes) outcomes := by
    intro loader hh
    unfold commitUnlessAtomic
    split
    · exact .inl ⟨loader, rfl, hh⟩
    · exact .inl ⟨_, rfl, holds_doCommit hh⟩
  have hs (outcome : Except StorageError SstFiles) : Triple (Holds db outcomes) (spawn outcome)
      (Holds db (outcomes ++ [outcome])) outcomes := by
    intro loader ⟨joined, committed, ho, hd, hf⟩
    exact .inl ⟨_, rfl, joined, committed, by simp [ho], hd, hf⟩
  have hj : Triple (fun l => l.Holds db outcomes ∧ l.threads.length = loader.threads.length)
      (joinDownTo max loader.threads.length) (Holds db outcomes) outcomes :=
    (joinDownTo_triple max _).imp fun _ h => h.left
  exact hj.bind (hc.bind (hs _)) loader ⟨hh, rfl⟩

theorem loadBatches_triple (enc : Encoder) (max : ℕ+) (batches : List (List Rdf.Quad)) :
    Triple (Holds db outcomes) (batches.forM (loadBatch enc max))
      (Holds db (outcomes ++ batches.map (FileBulkLoader.load enc)))
      (outcomes ++ batches.map (FileBulkLoader.load enc)) := by
  induction batches generalizing outcomes
  case nil => exact fun loader hh => .inl ⟨loader, rfl, by simpa using hh⟩
  case cons batch batches hi =>
    have hb : Triple (Holds db outcomes) (loadBatch enc max batch) _ outcomes :=
      loadBatch_triple enc max batch
    have hbs : Triple (Holds db (outcomes ++ [FileBulkLoader.load enc batch])) _ _ _ := hi
    rw [List.append_assoc] at hbs
    exact (hb.mono (List.subset_append_left ..)).bind hbs

theorem commit_triple :
    Triple (Holds db outcomes) commit
      (fun l => ∃ files : List SstFiles, outcomes = files.map .ok ∧
        l.db = db.insertSttFiles files.flatten) outcomes := by
  intro loader hh
  have hj : Triple (fun l => l.Holds db outcomes ∧ l.threads.length = loader.threads.length)
      (joinDownTo 0 loader.threads.length) (fun l => l.Holds db outcomes ∧ l.threads = [])
      outcomes :=
    (joinDownTo_triple 0 _).imp fun _ h => ⟨h.left, h.right rfl⟩
  refine hj.bind ?_ loader ⟨hh, rfl⟩
  intro loader ⟨⟨joined, committed, ho, hd, hf⟩, ht⟩
  refine .inl ⟨_, rfl, joined, by simpa [ht] using ho, ?_⟩
  rw [hf, insertSttFiles_append, ← hd]

-- A load succeeds iff all of its batches do.
theorem run_cases (enc : Encoder) (max : ℕ+) (atomic : Bool) (batches : List (List Rdf.Quad))
    (db : Db) :
    (∃ files : List SstFiles, batches.map (FileBulkLoader.load enc) = files.map .ok ∧
      run enc max atomic batches db = (.ok (), db.insertSttFiles files.flatten)) ∨
    ∃ e, .error e ∈ batches.map (FileBulkLoader.load enc) ∧
      (run enc max atomic batches db).1 = .error e := by
  have hs : Holds db [] { db, threads := [], sstFiles := [], atomic } :=
    ⟨[], [], rfl, rfl, rfl⟩
  have ht := (loadBatches_triple enc max batches).bind commit_triple _ hs
  rw [List.nil_append] at ht
  refine ht.imp ?_ ?_
  · intro ⟨loader, hr, files, hf, hd⟩
    exact ⟨files, hf, by simp only [run]; rw [hr]; exact congrArg _ hd⟩
  · intro ⟨e, loader, hr, he⟩
    exact ⟨e, he, by simp only [run]; rw [hr]⟩

-- The string that is left for an id by inserts, and the one that is left by a load: Inserts replace
-- a string, but within a batch the first one is kept.
def insertedStr (enc : Encoder) (quads : List Rdf.Quad) (id : StrHash) : Option String :=
  (allStrs enc quads).reverse.lookup id

def loadedStr (enc : Encoder) (batches : List (List Rdf.Quad)) (id : StrHash) : Option String :=
  batches.reverse.findSome? fun batch => (allStrs enc batch).lookup id

-- Inserts the quads one by one.
def insertAll (enc : Encoder) (quads : List Rdf.Quad) : WriteBatch :=
  quads.foldl (fun batch quad => StorageTransaction.apply enc (.insert quad) batch) []

section Inserts

variable {enc : Encoder} {id : StrHash}

theorem insertAll_eq (quads : List Rdf.Quad) :
    insertAll enc quads = (quads.flatMap (Layout.insertEntries enc)).map WriteBatch.put := by
  have h (batch : WriteBatch) : quads.foldl (fun batch quad => batch.insertQuad enc quad) batch =
      batch ++ (quads.flatMap (Layout.insertEntries enc)).map WriteBatch.put := by
    induction quads generalizing batch
    case nil => simp
    case cons quad quads hi =>
      rw [List.foldl_cons, hi, WriteBatch.insertQuad, WriteBatch.foldl_insert]
      simp
  exact (h []).trans (List.nil_append _)

def strEntry (str : StrHash × String) : Table × Bytes × Bytes :=
  (.id2str, str.1.toBeBytes, SmallString.strBytes str.2)

theorem filter_insertEntries (quad : Rdf.Quad) :
    (Layout.insertEntries enc quad).filter (·.1 = .id2str) = (quadStrs enc quad).map strEntry := by
  have hq : ((Layout.quadKeys (enc.encodeQuad quad)).map
      fun entry => (entry.1, entry.2, ([] : Bytes))).filter (·.1 = .id2str) = [] := by
    unfold Layout.quadKeys
    split <;> rfl
  have hs (term : Rdf.Term) (encoded : EncodedTerm) :
      (Layout.strEntries term encoded).filter (·.1 = .id2str) =
        (termStrs term encoded).map strEntry := by
    simp [Layout.strEntries, termStrs, List.filter_map, Function.comp_def, strEntry]
  cases hg : quad.graphName <;>
    simp [Layout.insertEntries, hq, hs, hg, quadStrs, nodeStrs, graphStrs,
      Rdf.GraphName.isDefaultGraph, Layout.graphNameStrEntries]

theorem lastValue_strs (strs : List (StrHash × String)) :
    lastValue (strs.map strEntry) .id2str id.toBeBytes =
      (strs.reverse.lookup id).map SmallString.strBytes := by
  induction strs using List.reverseRecOn
  case nil => rfl
  case append_singleton strs e hi =>
    rw [List.map_append, List.map_singleton, lastValue_concat, hi, List.reverse_concat,
      List.lookup_cons]
    simp only [strEntry, StrHash.toBeBytes_injective.eq_iff, true_and]
    cases hb : id == e.1
    case true => simp [eq_of_beq hb]
    case false => simp [(ne_of_beq_false hb).symm]

theorem lastValue_inserts (quads : List Rdf.Quad) :
    lastValue (quads.flatMap (Layout.insertEntries enc)) .id2str id.toBeBytes =
      (insertedStr enc quads id).map SmallString.strBytes := by
  rw [← lastValue_filter, List.filter_flatMap]
  simp only [filter_insertEntries]
  rw [← List.map_flatMap]
  exact lastValue_strs _

theorem mem_insertEntries {quad : Rdf.Quad} : (t, k, v) ∈ Layout.insertEntries enc quad ↔
    ((t, k) ∈ Layout.quadKeys (enc.encodeQuad quad) ∨ t = .graphs ∧ quad.graphName ≠ .defaultGraph ∧
      k = writeTerm (enc.encodeGraphName quad.graphName)) ∧ v = [] ∨
    (t, k, v) ∈ (quadStrs enc quad).map strEntry := by
  have hs (term : Rdf.Term) (encoded : EncodedTerm) :
      Layout.strEntries term encoded = (termStrs term encoded).map strEntry := rfl
  have hk : (t, k, v) ∈ (Layout.quadKeys (enc.encodeQuad quad)).map
      (fun entry => (entry.1, entry.2, ([] : Bytes))) ↔
      (t, k) ∈ Layout.quadKeys (enc.encodeQuad quad) ∧ v = [] := by
    simp [eq_comm]
  have hn : (enc.encodeQuad quad).graphName = enc.encodeGraphName quad.graphName := rfl
  simp only [Layout.insertEntries, List.mem_append, hk, hs, quadStrs, nodeStrs, List.map_append, hn]
  cases quad.graphName <;>
    simp only [Rdf.GraphName.isDefaultGraph, Layout.graphNameStrEntries, graphStrs, hs, reduceIte,
      Bool.false_eq_true, List.mem_cons, Prod.mk.injEq, ne_eq, not_true_eq_false, false_and,
      and_false, or_false, reduceCtorEq, not_false_eq_true, true_and, List.not_mem_nil,
      List.map_nil, or_and_right, and_assoc, or_assoc, or_left_comm]

end Inserts

-- The entries of the files of a batch.
theorem mem_entries_iff {enc : Encoder} {batch : List Rdf.Quad} {files : SstFiles}
    (h : FileBulkLoader.load enc batch = .ok files) : (t, k, v) ∈ files.entries ↔
      (t = .id2str ∧ ∃ id str, (allStrs enc batch).lookup id = some str ∧ k = id.toBeBytes ∧
        v = SmallString.strBytes str) ∨
      ((∃ quad ∈ batch, (t, k) ∈ Layout.quadKeys (enc.encodeQuad quad)) ∨ t = .graphs ∧
        ∃ quad ∈ batch, quad.graphName ≠ .defaultGraph ∧
          k = writeTerm (enc.encodeGraphName quad.graphName)) ∧ v = [] := by
  obtain ⟨⟨_, he, hm⟩, _⟩ | ⟨⟨_, he⟩, _⟩ := FileBulkLoader.load_builds enc batch
  case inl =>
    cases h.symm.trans he
    exact hm t k v
  case inr => cases h.symm.trans he

section Loads

variable {enc : Encoder} {batch : List Rdf.Quad} {files : SstFiles} {id : StrHash}

theorem id2str_not_mem_quadKeys : (.id2str, k) ∉ Layout.quadKeys q := by
  rw [Layout.mem_quadKeys]
  exact fun ⟨e, _, he, _⟩ => e.table_ne_id2str he

-- A batch writes the keys that the inserts of its quads write.
theorem exists_mem_entries_iff (h : FileBulkLoader.load enc batch = .ok files) :
    (∃ v, (t, k, v) ∈ files.entries) ↔
      ∃ v, (t, k, v) ∈ batch.flatMap (Layout.insertEntries enc) := by
  constructor
  · intro ⟨v, hm⟩
    obtain ⟨rfl, id, str, hl, rfl, rfl⟩ | ⟨⟨quad, hq, hk⟩ | ⟨rfl, quad, hq, hd, rfl⟩, rfl⟩ :=
      (mem_entries_iff h).mp hm
    · have hi : id ∈ (allStrs enc batch).map Prod.fst := lookup_isSome_iff.mp (by simp [hl])
      have ⟨⟨_, str⟩, hs, hid⟩ := List.mem_map.mp hi
      have ⟨quad, hq, hs⟩ := List.mem_flatMap.mp hs
      subst hid
      exact ⟨_, List.mem_flatMap.mpr ⟨quad, hq,
        mem_insertEntries.mpr <| .inr <| List.mem_map_of_mem hs⟩⟩
    · exact ⟨_, List.mem_flatMap.mpr ⟨quad, hq, mem_insertEntries.mpr <| .inl ⟨.inl hk, rfl⟩⟩⟩
    · exact ⟨_, List.mem_flatMap.mpr ⟨quad, hq,
        mem_insertEntries.mpr <| .inl ⟨.inr ⟨rfl, hd, rfl⟩, rfl⟩⟩⟩
  · intro ⟨v, hm⟩
    have ⟨quad, hq, hm⟩ := List.mem_flatMap.mp hm
    obtain ⟨hk | ⟨rfl, hd, rfl⟩, rfl⟩ | hs := mem_insertEntries.mp hm
    · exact ⟨_, (mem_entries_iff h).mpr <| .inr ⟨.inl ⟨quad, hq, hk⟩, rfl⟩⟩
    · exact ⟨_, (mem_entries_iff h).mpr <| .inr ⟨.inr ⟨rfl, quad, hq, hd, rfl⟩, rfl⟩⟩
    · have ⟨⟨id, str⟩, hid, he⟩ := List.mem_map.mp hs
      cases he
      have hi := map_fst_allStrs_subset hq (List.mem_map_of_mem hid)
      have ⟨str', hl⟩ := Option.isSome_iff_exists.mp <| lookup_isSome_iff.mpr hi
      exact ⟨_, (mem_entries_iff h).mpr <| .inl ⟨rfl, id, str', hl, rfl, rfl⟩⟩

theorem lastValue_load (h : FileBulkLoader.load enc batch = .ok files) :
    lastValue files.entries .id2str id.toBeBytes =
      ((allStrs enc batch).lookup id).map SmallString.strBytes := by
  refine lastValue_eq fun v => ?_
  simp only [mem_entries_iff h, id2str_not_mem_quadKeys, StrHash.toBeBytes_injective.eq_iff,
    true_and, reduceCtorEq, false_and, and_false, exists_false, or_false, Option.map_eq_some_iff]
  constructor
  · rintro ⟨_, str, hl, rfl, rfl⟩
    exact ⟨str, hl, rfl⟩
  · rintro ⟨str, hl, rfl⟩
    exact ⟨id, str, hl, rfl, rfl⟩

variable {batches : List (List Rdf.Quad)} {outcomes : List SstFiles}

def Loaded (enc : Encoder) : List (List Rdf.Quad) → List SstFiles → Prop :=
  List.Forall₂ fun batch files => FileBulkLoader.load enc batch = .ok files

theorem loaded_iff :
    batches.map (FileBulkLoader.load enc) = outcomes.map .ok ↔ Loaded enc batches outcomes := by
  rw [← List.forall₂_eq_eq_eq, List.forall₂_map_left_iff, List.forall₂_map_right_iff]
  rfl

theorem entries_flatten_cons : SstFiles.entries (files :: outcomes).flatten =
    files.entries ++ SstFiles.entries outcomes.flatten := by
  simp [SstFiles.entries]

theorem Loaded.exists_mem_iff (h : Loaded enc batches outcomes) :
    (∃ v, (t, k, v) ∈ SstFiles.entries outcomes.flatten) ↔
      ∃ v, (t, k, v) ∈ batches.flatten.flatMap (Layout.insertEntries enc) := by
  induction h
  case nil => rfl
  case cons hb _ hi =>
    rw [entries_flatten_cons, List.flatten_cons, List.flatMap_append]
    simp only [List.mem_append, exists_or, exists_mem_entries_iff hb, hi]

theorem Loaded.lastValue (h : Loaded enc batches outcomes) :
    lastValue (SstFiles.entries outcomes.flatten) .id2str id.toBeBytes =
      (loadedStr enc batches id).map SmallString.strBytes := by
  induction h
  case nil => rfl
  case cons batch files batches outcomes hb _ hi =>
    rw [entries_flatten_cons, lastValue_append, lastValue_load hb, hi, loadedStr, loadedStr,
      List.reverse_cons, List.findSome?_append]
    cases batches.reverse.findSome? fun batch => (allStrs enc batch).lookup id <;> simp

-- Only strings have a value.
theorem Loaded.value_eq_nil (h : Loaded enc batches outcomes) (ht : t ≠ .id2str)
    (hm : (t, k, v) ∈ SstFiles.entries outcomes.flatten) : v = [] := by
  induction h
  case nil => contradiction
  case cons hb _ hi =>
    rw [entries_flatten_cons, List.mem_append] at hm
    cases hm
    case inl hm => exact ((mem_entries_iff hb).mp hm).elim (absurd ·.1 ht) (·.2)
    case inr hm => exact hi hm

theorem value_eq_nil_of_insert {quads : List Rdf.Quad} (ht : t ≠ .id2str)
    (hm : (t, k, v) ∈ quads.flatMap (Layout.insertEntries enc)) : v = [] := by
  have ⟨quad, _, hm⟩ := List.mem_flatMap.mp hm
  obtain ⟨_, hv⟩ | hs := mem_insertEntries.mp hm
  · exact hv
  · have ⟨_, _, he⟩ := List.mem_map.mp hs
    cases he
    contradiction

theorem id2str_key {quads : List Rdf.Quad}
    (hm : (.id2str, k, v) ∈ quads.flatMap (Layout.insertEntries enc)) :
    ∃ id : StrHash, id.toBeBytes = k := by
  have ⟨quad, _, hm⟩ := List.mem_flatMap.mp hm
  obtain ⟨hk | hk, _⟩ | hs := mem_insertEntries.mp hm
  · exact absurd hk id2str_not_mem_quadKeys
  · exact nomatch hk.1
  · have ⟨str, _, he⟩ := List.mem_map.mp hs
    cases he
    exact ⟨str.1, rfl⟩

theorem strBytes_injective : Function.Injective SmallString.strBytes := by
  intro str str' h
  exact String.toByteArray_inj.mp <| ByteArray.ext <| Array.toList_inj.mp h

-- The content is the same iff the same strings are left.
theorem Loaded.insertSttFiles_eq_iff (h : Loaded enc batches outcomes) (db : Db) :
    db.insertSttFiles outcomes.flatten = db.write (insertAll enc batches.flatten) ↔
      ∀ id, loadedStr enc batches id = insertedStr enc batches.flatten id := by
  have hstr (id : StrHash) : loadedStr enc batches id = insertedStr enc batches.flatten id ↔
      RocksDb.lastValue (SstFiles.entries outcomes.flatten) .id2str id.toBeBytes =
        RocksDb.lastValue (batches.flatten.flatMap (Layout.insertEntries enc)) .id2str
          id.toBeBytes := by
    rw [h.lastValue, lastValue_inserts, (Option.map_injective strBytes_injective).eq_iff]
  rw [insertAll_eq]
  refine (write_puts_eq_iff db fun _ _ => h.exists_mem_iff).trans ?_
  constructor
  · exact fun hl id => (hstr id).mpr (hl .id2str id.toBeBytes)
  · intro hs t k
    by_cases ht : t = .id2str
    case neg =>
      exact lastValue_congr (fun _ => h.value_eq_nil ht) (fun _ => value_eq_nil_of_insert ht)
        h.exists_mem_iff
    case pos =>
      subst ht
      by_cases hk : ∃ id : StrHash, id.toBeBytes = k
      case pos =>
        obtain ⟨id, rfl⟩ := hk
        exact (hstr id).mp (hs id)
      case neg =>
        refine lastValue_congr (c := []) (fun v hm => ?_) (fun v hm => ?_) h.exists_mem_iff
        · have ⟨_, hm⟩ := h.exists_mem_iff.mp ⟨v, hm⟩
          exact absurd (id2str_key hm) hk
        · exact absurd (id2str_key hm) hk

end Loads

theorem load_ok_iff (enc : Encoder) (batch : List Rdf.Quad) :
    (∃ files, FileBulkLoader.load enc batch = .ok files) ↔
      FileBulkLoader.Distinct (batch.map enc.encodeQuad) := by
  obtain ⟨⟨files, hf, _⟩, hd⟩ | ⟨⟨e, he⟩, hd⟩ := FileBulkLoader.load_builds enc batch
  case inl => exact iff_of_true ⟨files, hf⟩ hd
  case inr => exact iff_of_false (fun ⟨files, hf⟩ => nomatch he.symm.trans hf) hd

-- A load does what inserting the quads does iff there is no batch with two quads that only differ
-- in what their keys do not tell, and the same strings are left.
theorem run_eq_insertAll_iff (enc : Encoder) (max : ℕ+) (atomic : Bool)
    (batches : List (List Rdf.Quad)) (db : Db) :
    run enc max atomic batches db = (.ok (), db.write (insertAll enc batches.flatten)) ↔
      (∀ batch ∈ batches, FileBulkLoader.Distinct (batch.map enc.encodeQuad)) ∧
      ∀ id, loadedStr enc batches id = insertedStr enc batches.flatten id := by
  simp only [← load_ok_iff]
  obtain ⟨files, hf, hr⟩ | ⟨e, he, hr⟩ := run_cases enc max atomic batches db
  case inl =>
    have hl (batch : List Rdf.Quad) (hb : batch ∈ batches) :
        ∃ files, FileBulkLoader.load enc batch = .ok files := by
      have hm : FileBulkLoader.load enc batch ∈ files.map .ok := hf ▸ List.mem_map_of_mem hb
      have ⟨files, _, h⟩ := List.mem_map.mp hm
      exact ⟨files, h.symm⟩
    rw [hr, Prod.mk.injEq, (loaded_iff.mp hf).insertSttFiles_eq_iff]
    exact ⟨fun h => ⟨hl, h.2⟩, fun h => ⟨rfl, h.2⟩⟩
  case inr =>
    refine iff_of_false (fun h => ?_) fun h => ?_
    · cases hr.symm.trans (congrArg Prod.fst h)
    · have ⟨batch, hb, he⟩ := List.mem_map.mp he
      have ⟨files, hf⟩ := h.1 batch hb
      cases he.symm.trans hf

-- Two literals for the same instant, without a timezone and in one that is a minute behind UTC.
def dateTimes : Encoder :=
  { Encoder.plain with
    hash str := ⟨⟨List.replicate 15 0 ++ [UInt8.ofNat str.length], rfl⟩⟩
    parseDateTime
      | "2020-01-01T00:00:00"       => some ⟨63713433600000000000000000000, none⟩
      | "2019-12-31T23:59:00-00:01" => some ⟨63713433600000000000000000000, some (-1)⟩
      | _                           => none }

def instant (value : String) : Rdf.Quad where
  subject   := .namedNode "http://example.com/s"
  predicate := "http://example.com/at"
  object    := .literal (.typedLiteral value "http://www.w3.org/2001/XMLSchema#dateTime")
  graphName := .defaultGraph

theorem encodeQuad_instant : dateTimes.encodeQuad (instant value) =
    ⟨.namedNode (dateTimes.hash "http://example.com/s"),
      .namedNode (dateTimes.hash "http://example.com/at"),
      (dateTimes.parseDateTime value |>.map .dateTimeLiteral).getD
        (dateTimes.encodeTyped value "http://www.w3.org/2001/XMLSchema#dateTime"), .defaultGraph⟩ :=
  rfl

-- A load that fails with its only batch leaves everything as it is.
theorem run_of_load_error {enc : Encoder} (h : FileBulkLoader.load enc batch = .error e) (db : Db)
    (atomic : Bool) : run enc 1 atomic [batch] db = (.error e, db) := by
  have hb : (loadBatch enc 1 batch) ⟨db, [], [], atomic⟩ =
      (.ok (), ⟨db, [.error e], [], atomic⟩) := by
    rw [← h]
    cases atomic <;> rfl
  have hr : (do [batch].forM (loadBatch enc 1); commit : Call Unit) ⟨db, [], [], atomic⟩ =
      commit ⟨db, [.error e], [], atomic⟩ := by
    simp only [List.forM, Bind.bind, ExceptT.bind, ExceptT.mk, ExceptT.bindCont, StateT.bind, hb]
    rfl
  rw [run, hr]
  rfl

-- Both of them are in the set of triples, and the file with the keys cannot be written.
theorem run_instants :
    let batch := [instant "2020-01-01T00:00:00", instant "2019-12-31T23:59:00-00:01"]
    let db : Db := fun _ => ∅
    (∃ e, run dateTimes 1 false [batch] db = (.error e, db)) ∧
    ∀ quad ∈ batch, writeSpoQuad (dateTimes.encodeQuad quad) ∈
      db.write (insertAll dateTimes batch) .dspo := by
  intro batch db
  constructor
  · have hd : ¬FileBulkLoader.Distinct (batch.map dateTimes.encodeQuad) := by
      intro h
      have he := h _ (List.mem_cons_self ..) _ (List.mem_cons_of_mem _ (List.mem_cons_self ..))
      rw [encodeQuad_instant, encodeQuad_instant] at he
      have ho := congrArg EncodedQuad.object (he rfl)
      exact absurd ho (by decide)
    obtain ⟨_, hd'⟩ | ⟨⟨e, he⟩, _⟩ := FileBulkLoader.load_builds dateTimes batch
    case inl => exact absurd hd' hd
    case inr => exact ⟨e, run_of_load_error he db false⟩
  · intro quad hq
    have hg : (dateTimes.encodeQuad quad).graphName = .defaultGraph := by
      obtain rfl | rfl : quad = instant _ ∨ quad = instant _ := by simpa [batch] using hq
      · rfl
      · rfl
    have hk : (.dspo, writeSpoQuad (dateTimes.encodeQuad quad)) ∈
        Layout.quadKeys (dateTimes.encodeQuad quad) :=
      Layout.mem_quadKeys.mpr ⟨.dspo, iff_of_true hg rfl, rfl, rfl⟩
    have hm : ∃ v, (.dspo, writeSpoQuad (dateTimes.encodeQuad quad), v) ∈
        batch.flatMap (Layout.insertEntries dateTimes) :=
      ⟨[], List.mem_flatMap.mpr ⟨quad, hq, mem_insertEntries.mpr <| .inl ⟨.inl hk, rfl⟩⟩⟩
    rw [insertAll_eq, Std.ExtTreeMap.mem_iff_isSome_getElem?, getElem?_write_puts,
      Option.isSome_or, lastValue_isSome_iff.mpr hm]
    rfl

end StorageBulkLoader

end RocksDb
