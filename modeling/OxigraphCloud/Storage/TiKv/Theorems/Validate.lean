import OxigraphCloud.Storage.TiKv.Theorems.Transaction

-- What the check of the storage invariants can and cannot see.

namespace Tables

-- All index tables have the same quads, whose graph names and strings are known.
structure Valid (t : Tables) (Q : Set EncodedQuad) : Prop extends t.Indexes Q where
  registered : ∀ q ∈ Q, q.graphName ≠ .defaultGraph → writeTerm q.graphName ∈ t .graphs
  strs       : ∀ q ∈ Q, ∀ p, ∀ id ∈ (q.term p).strIds, id.toBeBytes ∈ t .id2str

theorem Stores.valid {t : Tables} {D : Dataset} (h : t.Stores D) (hr : D.Registered) :
    t.Valid D.quads where
  toIndexes := h.toIndexes
  registered q hq hg := by
    rw [h.mem_graphs_iff ((h.isQuad q hq).graphName hg), h.canonicalGraph _ (hr q hq hg)]
    exact hr q hq hg
  strs := h.quadStrs

end Tables

namespace TiKv

-- A scan of a whole table does not give more keys than this.
noncomputable def tableCount (t : Tables) (table : Table) : ℕ := min u32Max (t table).ncard

-- The tables of the default graph have the same number of keys, and so have the other ones.
def SameCounts (t : Tables) : Prop := ∀ e e' : QuadEncoding,
  (e.forDefaultGraph ↔ e'.forDefaultGraph) → tableCount t e.table = tableCount t e'.table

-- Each table is compared with `dspo` or `gspo`.
theorem sameCounts_iff {t : Tables} : SameCounts t ↔
    (tableCount t .dspo = tableCount t .dpos ∧ tableCount t .dspo = tableCount t .dosp) ∧
    tableCount t .gspo = tableCount t .gpos ∧ tableCount t .gspo = tableCount t .gosp ∧
    tableCount t .gspo = tableCount t .spog ∧ tableCount t .gspo = tableCount t .posg ∧
    tableCount t .gspo = tableCount t .ospg where
  mp h := ⟨⟨h .dspo .dpos (by decide), h .dspo .dosp (by decide)⟩, h .gspo .gpos (by decide),
    h .gspo .gosp (by decide), h .gspo .spog (by decide), h .gspo .posg (by decide),
    h .gspo .ospg (by decide)⟩
  mpr h := by
    have hs (e : QuadEncoding) : tableCount t e.table =
        tableCount t (if e.forDefaultGraph then .dspo else .gspo) := by
      cases e <;>
        simp [QuadEncoding.table, QuadEncoding.forDefaultGraph, QuadEncoding.positions, ← h]
    intro e e' he
    rw [hs e, hs e', if_congr he rfl rfl]

namespace StorageReader

variable {r : StorageReader} {kv : State}

theorem count_eq (h : r.txn.Reads kv) (table : Table) :
    count table r = (.ok (tableCount (tables kv) table), r.called) := by
  have hs : scanPrefixKeys table [] r = _ := scanPrefixKeysLimit_eq h
  rw [count, Call.bind_apply hs, List.length_take, length_keysIn_table]
  rfl

theorem count_bind (h : r.txn.Reads kv) (table : Table) (f : ℕ → Call StorageReader α) :
    (count table >>= f) r = f (tableCount (tables kv) table) r.called :=
  Call.bind_apply (count_eq h table)

-- Only numbers of keys are compared.
theorem validate_ok_iff (h : r.txn.Reads kv) :
    (validate r).1 = .ok () ↔ SameCounts (tables kv) := by
  have hr {r : StorageReader} (h : r.txn.Reads kv) : r.called.txn.Reads kv := h.called
  have h₃ := hr <| hr <| hr h
  have h₆ := hr <| hr <| hr h₃
  rw [sameCounts_iff, validate, count_bind h, count_bind (hr h), count_bind (hr (hr h))]
  split
  case isTrue hd => exact iff_of_false (fun h => by cases h) (by tauto)
  case isFalse hd =>
    beta_reduce
    rw [count_bind h₃, count_bind (hr h₃), count_bind (hr (hr h₃)), count_bind h₆,
      count_bind (hr h₆), count_bind (hr (hr h₆))]
    split
    case isTrue hg => exact iff_of_false (fun h => by cases h) (by tauto)
    case isFalse hg =>
      simp only [ne_eq, not_or, not_not] at hd hg
      exact iff_of_true rfl ⟨hd, hg⟩

-- Each quad has one key in each table of its group.
theorem sameCounts_of_indexes {Q : Set EncodedQuad} (h : (tables kv).Indexes Q) :
    SameCounts (tables kv) := by
  have hn (e : QuadEncoding) : (tables kv e.table).ncard =
      { q | q ∈ Q ∧ (q.graphName = .defaultGraph ↔ e.forDefaultGraph) }.ncard := by
    rw [← length_keysIn_table, (lists_of_table h e).ncard, List.length_map]
  intro e e' he
  simp only [tableCount, hn, he]

-- What the operations of the storage keep passes the check.
theorem validate_of_stores {D : Dataset} (h : r.txn.Reads kv) (hs : (tables kv).Stores D)
    (hr : D.Registered) : (validate r).1 = .ok () ∧ (tables kv).Valid D.quads :=
  ⟨(validate_ok_iff h).mpr <| sameCounts_of_indexes hs.toIndexes, hs.valid hr⟩

-- The check is right about the storages that are as they should be, and about those in which it
-- finds different numbers of keys.
theorem validate_iff_valid_iff (r : StorageReader) (kv : State) (h : r.txn.Reads kv) :
    ((validate r).1 = .ok () ↔ ∃ Q, (tables kv).Valid Q) ↔
      (∃ Q, (tables kv).Valid Q) ∨ ¬SameCounts (tables kv) := by
  have hv : (∃ Q, (tables kv).Valid Q) → SameCounts (tables kv) := by
    rintro ⟨Q, hQ⟩
    exact sameCounts_of_indexes hQ.toIndexes
  rw [validate_ok_iff h]
  constructor
  case mp =>
    intro h
    by_cases hs : SameCounts (tables kv)
    case pos => exact .inl <| h.mp hs
    case neg => exact .inr hs
  case mpr =>
    rintro (h | h)
    · exact iff_of_true (hv h) h
    · exact iff_of_false h (mt hv h)

-- A triple, and a storage with this triple that may have another one in `dpos`.
def sampleTriple (value : Bool) : EncodedQuad where
  subject   := .numericalBlankNode (.replicate 16 0)
  predicate := .namedNode ⟨.replicate 16 0⟩
  object    := .booleanLiteral value
  graphName := .defaultGraph

def sampleEntries (value : Bool) : List (Table × Bytes × Bytes) :=
  [(.dspo, writeSpoQuad (sampleTriple true), []), (.dpos, writePosQuad (sampleTriple value), []),
    (.dosp, writeOspQuad (sampleTriple true), []),
    (.id2str, StrHash.toBeBytes ⟨.replicate 16 0⟩, SmallString.strBytes "http://example.com/p")]

def sampleReader (value : Bool) : StorageReader where
  storage  := { begins _ := .error (.other ""), begun := 0, scanBatchSize := 1 }
  txn      := {
    startTs  := 0
    snapshot := ∅
    writes   := (sampleEntries value).map putMutation
    faults   := noFaults
    calls    := 0
  }
  strCache := []

def sampleState (value : Bool) : State := (sampleReader value).txn.view

theorem reads_sampleReader (value : Bool) :
    (sampleReader value).txn.Reads (sampleState value) where
  faults := rfl
  view   := rfl

theorem mem_sampleState : key ∈ tables (sampleState value) table ↔
    ∃ bytes, (table, key, bytes) ∈ sampleEntries value := by
  have ht : tables (sampleState value) =
      (TablesDelta.puts (sampleEntries value)).patch (tables ∅) :=
    tables_applyAll.trans <| congrArg (TablesDelta.patch · _) writesDelta_puts
  have he : key ∉ tables ∅ table := by simp [tables]
  rw [ht, TablesDelta.patch, Delta.mem_patch, or_iff_left fun h => he h.right]
  simp [Layout.puts_eq_some]

theorem mem_sampleState_index (e : QuadEncoding) : key ∈ tables (sampleState value) e.table ↔
    e.forDefaultGraph ∧ key = e.writer (sampleTriple (e = .dpos → value)) := by
  rw [mem_sampleState]
  cases e <;> simp [sampleEntries, QuadEncoding.table, QuadEncoding.writer,
    QuadEncoding.forDefaultGraph, QuadEncoding.positions]

theorem indexes_sampleTriple {e : QuadEncoding} (he : e.forDefaultGraph) :
    e.Indexes (sampleTriple value) :=
  ⟨⟨trivial, trivial, trivial, fun h => absurd rfl h⟩, iff_of_true rfl he⟩

theorem validate_iff_valid_sample : (validate (sampleReader true)).1 = .ok () ↔
    ∃ Q, (tables (sampleState true)).Valid Q := by
  refine (validate_iff_valid_iff _ _ (reads_sampleReader true)).mpr <| .inl ?_
  refine ⟨{sampleTriple true}, ?_⟩
  constructor
  case toIndexes =>
    refine ⟨?_, ?_, fun e key => ?_⟩
    · rintro _ rfl
      exact (indexes_sampleTriple (e := .dspo) rfl).isQuad
    · rintro _ rfl
      rfl
    · rw [mem_sampleState_index]
      simp only [implies_true, decide_true, Set.mem_singleton_iff, exists_eq_left]
      refine and_congr ⟨indexes_sampleTriple, fun hi => hi.graph.mp rfl⟩ eq_comm
  case registered => simp [sampleTriple]
  case strs =>
    rintro _ rfl p id hi
    rw [mem_sampleState]
    cases p <;> simp_all [sampleTriple, EncodedQuad.term, EncodedTerm.strIds, sampleEntries]

-- The numbers of keys are right, but two tables have the triple and the third one has another one.
theorem validate_ok_of_swapped_triples : (validate (sampleReader false)).1 = .ok () ∧
    ¬∃ Q, (tables (sampleState false)).Valid Q := by
  constructor
  case left =>
    have hn (e : QuadEncoding) : (tables (sampleState false) e.table).ncard =
        if e.forDefaultGraph then 1 else 0 := by
      cases hd : e.forDefaultGraph
      case false =>
        have hs : tables (sampleState false) e.table = ∅ :=
          Set.eq_empty_of_forall_notMem fun key => by simp [mem_sampleState_index, hd]
        simp [hs]
      case true =>
        rw [Set.ext fun key => (mem_sampleState_index e).trans <| and_iff_right hd]
        exact Set.ncard_singleton _
    refine (validate_ok_iff (reads_sampleReader false)).mpr fun e e' he => ?_
    rw [tableCount, tableCount, hn, hn, if_congr he rfl rfl]
  case right =>
    rintro ⟨Q, hQ⟩
    have hd : QuadEncoding.Indexes .dspo (sampleTriple true) := indexes_sampleTriple rfl
    have hp : QuadEncoding.Indexes .dpos (sampleTriple true) := indexes_sampleTriple rfl
    have hQ := hQ.toIndexes
    have hm := (hQ.mem_iff hd).mp <| (mem_sampleState_index .dspo).mpr ⟨rfl, rfl⟩
    obtain ⟨_, hw⟩ := (mem_sampleState_index .dpos).mp <| (hQ.mem_iff hp).mpr hm
    have := (hp.writer_eq_iff (indexes_sampleTriple rfl)).mp hw
    revert this
    decide

end StorageReader

end TiKv
