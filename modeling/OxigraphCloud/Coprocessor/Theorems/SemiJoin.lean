import OxigraphCloud.Coprocessor.Theorems.BloomFilter
import OxigraphCloud.Coprocessor.Theorems.Navigation
import OxigraphCloud.Coprocessor.Theorems.Protocol
import OxigraphCloud.Storage.TiKv.Client

namespace Coprocessor

namespace BloomFilter

variable {filter filter' : BloomFilter}

-- The positions that a scan looks at.
def probe (key : Bytes) (bits i : ℕ) : ℕ :=
  bitPos (siphasherHash key, siphasherHash key >>> (32 : ℕ)) bits i

-- A scan finds `key` in a filter that it reads behind the bytes `extra`.
def Passes (filter : BloomFilter) (keys : List Bytes) (extra key : Bytes) : Prop :=
  extra.length + filter.bits.length = 0 ∨
  ∀ i < 3,
    extra.testBit (probe key ((extra.length + filter.bits.length) * 8) i) = true ∨
    8 * extra.length ≤ probe key ((extra.length + filter.bits.length) * 8) i ∧
    filter.Marked keys
      (probe key ((extra.length + filter.bits.length) * 8) i - 8 * extra.length)

instance {keys : List Bytes} : Decidable (filter.Passes keys extra key) :=
  inferInstanceAs <| Decidable (_ ∨ ∀ i < 3, _)

theorem Inserts.bloomCheck_iff {keys : List Bytes} (h : filter.Inserts keys filter')
    (extra key : Bytes) :
    bloomCheck (extra ++ filter'.toBytes) key = true ↔ filter.Passes keys extra key := by
  have hl : (extra ++ filter'.toBytes).length = extra.length + filter.bits.length := by
    simp [toBytes, h.length]
  have he : (extra ++ filter'.toBytes).isEmpty = true ↔ extra.length + filter.bits.length = 0 := by
    rw [← hl, List.isEmpty_iff_length_eq_zero]
  simp only [bloomCheck, hl]
  split
  case isTrue hc => simp [Passes, he.mp hc]
  case isFalse hc =>
    rw [Passes, or_iff_right (he.not.mp hc)]
    simp [Bytes.testBit_append, toBytes, h.marked, probe]

end BloomFilter

-- A key of an index and the quad that it is for.
structure IndexRow where
  encoding : QuadEncoding
  quad     : EncodedQuad
  indexes  : encoding.Indexes quad

namespace IndexRow

variable (row : IndexRow)

def key : Bytes := TiKv.prefixedKey row.encoding.table (row.encoding.writer row.quad)

def pair : KvPair := (row.key, [])

def terms : List EncodedTerm := row.encoding.positions.map row.quad.term

def joinTerms (positions : List ℕ) : Option (List EncodedTerm) :=
  positions.mapM (row.terms[·]?)

theorem isTerm : ∀ t ∈ row.terms, t.IsTerm := by
  simp only [terms, List.forall_mem_map]
  exact fun _ h => row.indexes.isTerm h

theorem drop_key : row.key.drop 1 = row.terms.flatMap writeTerm := by
  simp [key, TiKv.prefixedKey, terms, QuadEncoding.writer_eq, writeQuad, List.flatMap_map]

end IndexRow

-- What is inserted for a tuple of join terms.
def joinKey (terms : List EncodedTerm) : Bytes := terms.flatMap writeTerm

-- The first `limit` elements, all elements if there is no limit.
def limited (limit : ℕ) (l : List α) : List α := if limit = 0 then l else l.take limit

theorem mem_of_mem_limited {l : List α} (h : a ∈ limited limit l) : a ∈ l := by
  unfold limited at h
  split at h
  · exact h
  · exact List.mem_of_mem_take h

namespace IndexScanParams

variable {params : IndexScanParams}

-- A scan goes through the keys with its prefix and returns those that are not pruned.
theorem scanFrom_spec {rows : List ρ} {pair : ρ → KvPair} {keep : ρ → Bool}
    (h : ∀ row ∈ rows, params.fullPrefix <+: (pair row).1 →
      params.prunes (pair row).1 = some (!keep row))
    (result : ScanResult) (hl : params.limit = 0 ∨ result.pairs.length < params.limit) :
    ∃ result', params.scanFrom result (rows.map pair) = some result' ∧
      result'.pairs = limited params.limit (result.pairs ++
        (rows.filter fun row =>
          params.fullPrefix.isPrefixOf (pair row).1 && keep row).map pair) := by
  induction rows generalizing result
  case nil =>
    refine ⟨result, rfl, ?_⟩
    rcases hl with hl | hl
    · simp [limited, hl]
    · simp [limited, List.take_of_length_le hl.le]
  case cons row rows hi =>
    have ⟨h₁, h₂⟩ := List.forall_mem_cons.mp h
    simp only [List.map_cons, scanFrom]
    cases hp : params.fullPrefix.isPrefixOf (pair row).1
    case false =>
      have ⟨r, hr, hrp⟩ := hi h₂ result hl
      exact ⟨r, by simpa using hr, by simp [hrp, hp]⟩
    case true =>
      have hk := h₁ <| List.isPrefixOf_iff_prefix.mp hp
      cases hr : keep row
      case false =>
        have ⟨r, hr', hrp⟩ := hi h₂ ⟨result.pairs, result.scannedKeys + 1⟩ hl
        exact ⟨r, by simpa [hk, hr] using hr', by simp [hrp, hr]⟩
      case true =>
        by_cases hf : 0 < params.limit ∧ params.limit ≤ result.pairs.length + 1
        · -- The limit is reached.
          have hn : params.limit = result.pairs.length + 1 := by omega
          refine ⟨⟨result.pairs ++ [pair row], result.scannedKeys + 1⟩, by simp [hk, hr, hf], ?_⟩
          simp [limited, hn, hp, hr, List.take_append]
        · have ⟨r, hr', hrp⟩ := hi h₂ ⟨result.pairs ++ [pair row], result.scannedKeys + 1⟩
            (by simp only [List.length_append, List.length_singleton]; omega)
          exact ⟨r, by simpa [hk, hr, hf] using hr', by simp [hrp, hp, hr]⟩

theorem executeIndexScan_spec {rows : List ρ} {pair : ρ → KvPair} {keep : ρ → Bool}
    (h : ∀ row ∈ rows, params.fullPrefix <+: (pair row).1 →
      params.prunes (pair row).1 = some (!keep row)) :
    ∃ result, executeIndexScan params (rows.map pair) = some result ∧
      result.pairs = limited params.limit
        ((rows.filter fun row => params.fullPrefix.isPrefixOf (pair row).1 && keep row).map pair) :=
  scanFrom_spec h ⟨[], 0⟩ (Nat.eq_zero_or_pos _)

theorem prunes_key {tablePrefix : UInt8} {keyPrefix : Bytes} {limit : ℕ} (bloomBytes : Bytes)
    (positions : List ℕ) (row : IndexRow) :
    prunes ⟨tablePrefix, keyPrefix, limit, some bloomBytes, positions⟩ row.key =
      some (!(row.joinTerms positions).all (bloomCheck bloomBytes <| joinKey ·)) := by
  simp only [prunes, row.drop_key, extractConcatTermBytes_flatMap row.isTerm, IndexRow.joinTerms]
  cases positions.mapM (row.terms[·]?)
  case none => simp
  case some terms => simp [joinKey]

-- Whether a row is pruned only depends on its key.
theorem all_bloomCheck_eq {row row' : IndexRow} (h : row.key = row'.key) (bloomBytes : Bytes)
    (positions : List ℕ) :
    (row.joinTerms positions).all (bloomCheck bloomBytes <| joinKey ·) =
      (row'.joinTerms positions).all (bloomCheck bloomBytes <| joinKey ·) := by
  have hp : prunes ⟨0, [], 0, some bloomBytes, positions⟩ row.key = _ := prunes_key ..
  rw [h, prunes_key] at hp
  simpa using hp.symm

end IndexScanParams

namespace IndexRow

variable (row : IndexRow)

def Scanned (tablePrefix : UInt8) (keyPrefix : Bytes) : Prop :=
  tablePrefix :: keyPrefix <+: row.key

-- The terms at the join positions are one of the inserted tuples.
def Joins (positions : List ℕ) (inserted : List (List EncodedTerm)) : Prop :=
  ∃ terms ∈ inserted, row.joinTerms positions = some terms

-- The row is in the range of a scan with the given filter and is not pruned.
def kept (filter : BloomFilter) (inserted : List (List EncodedTerm)) (tablePrefix : UInt8)
    (keyPrefix : Bytes) (positions : List ℕ) : Bool :=
  (tablePrefix :: keyPrefix).isPrefixOf row.key &&
    (row.joinTerms positions).all fun terms =>
      filter.Passes (inserted.map joinKey) [] (joinKey terms)

end IndexRow

-- The rows of the join are among the returned pairs.
def Complete (rows : List IndexRow) (inserted : List (List EncodedTerm)) (tablePrefix : UInt8)
    (keyPrefix : Bytes) (positions : List ℕ) (pairs : List KvPair) : Prop :=
  ∀ row ∈ rows, row.Scanned tablePrefix keyPrefix → row.Joins positions inserted →
    row.pair ∈ pairs

variable {filter filter' : BloomFilter} {inserted : List (List EncodedTerm)} {rows : List IndexRow}

theorem bloomCheck_joinKey (h : filter.insertAll (inserted.map joinKey) = some filter')
    (terms : List EncodedTerm) :
    bloomCheck filter'.toBytes (joinKey terms) =
      decide (filter.Passes (inserted.map joinKey) [] (joinKey terms)) := by
  rw [Bool.eq_iff_iff, decide_eq_true_iff, ← (BloomFilter.insertAll_inserts h).bloomCheck_iff,
    List.nil_append]

-- The rows that a scan with join positions returns.
theorem executeIndexScan_pairs (h : filter.insertAll (inserted.map joinKey) = some filter')
    (rows : List IndexRow) (tablePrefix : UInt8) (keyPrefix : Bytes) (positions : List ℕ)
    (limit : ℕ) :
    ∃ result,
      executeIndexScan ⟨tablePrefix, keyPrefix, limit, some filter'.toBytes, positions⟩
        (rows.map IndexRow.pair) = some result ∧
      result.pairs = limited limit
        ((rows.filter (·.kept filter inserted tablePrefix keyPrefix positions)).map
          IndexRow.pair) := by
  refine IndexScanParams.executeIndexScan_spec fun row _ _ => ?_
  simp only [IndexRow.pair, IndexScanParams.prunes_key, bloomCheck_joinKey h]

theorem executeIndexScan_complete_iff (h : filter.insertAll (inserted.map joinKey) = some filter')
    (tablePrefix : UInt8) (keyPrefix : Bytes) (positions : List ℕ) (limit : ℕ) :
    ∃ result,
      executeIndexScan ⟨tablePrefix, keyPrefix, limit, some filter'.toBytes, positions⟩
        (rows.map IndexRow.pair) = some result ∧
      (Complete rows inserted tablePrefix keyPrefix positions result.pairs ↔
        ∀ row ∈ rows, row.Scanned tablePrefix keyPrefix → ∀ terms ∈ inserted,
          row.joinTerms positions = some terms →
            filter.Passes (inserted.map joinKey) [] (joinKey terms) ∧
            (0 < limit → row.pair ∈ ((rows.filter
              (·.kept filter inserted tablePrefix keyPrefix positions)).map
                IndexRow.pair).take limit)) := by
  have ⟨result, hr, hp⟩ := executeIndexScan_pairs h rows tablePrefix keyPrefix positions limit
  refine ⟨result, hr, ?_⟩
  rw [hp]
  constructor
  · intro hc row hrow hscan terms hterms hj
    have hm := hc row hrow hscan ⟨terms, hterms, hj⟩
    refine ⟨?_, fun hl => by simpa [limited, hl.ne'] using hm⟩
    have ⟨row', hk, he⟩ := List.mem_map.mp <| mem_of_mem_limited hm
    have hk := (List.mem_filter.mp hk).2
    simp only [IndexRow.kept, ← bloomCheck_joinKey h, Bool.and_eq_true] at hk
    have hall := IndexScanParams.all_bloomCheck_eq (congrArg Prod.fst he) filter'.toBytes
      positions
    rw [hall, hj, Option.all_some, bloomCheck_joinKey h] at hk
    exact of_decide_eq_true hk.2
  · intro hc row hrow hscan ⟨terms, hterms, hj⟩
    have ⟨hpass, hl⟩ := hc row hrow hscan terms hterms hj
    unfold limited
    split
    case isFalse hn => exact hl <| Nat.pos_of_ne_zero hn
    case isTrue =>
      refine List.mem_map_of_mem <| List.mem_filter.mpr ⟨hrow, ?_⟩
      have := List.isPrefixOf_iff_prefix.mpr hscan
      simp [IndexRow.kept, this, hj, hpass]

-- The plugin looks for the empty key, since it has no join positions.
theorem onRawCoprocessorRequest_complete_iff
    (h : filter.insertAll (inserted.map joinKey) = some filter')
    (tablePrefix : UInt8) (keyPrefix : Bytes) (positions : List ℕ)
    {ranges : List (Bytes × Bytes)} {storage : RawStorage} {parts : List (List KvPair)}
    (hs : ranges.mapM storage.scan = .ok parts) (hp : parts.flatten = rows.map IndexRow.pair) :
    ∃ req result,
      decodeRequest
        (encodeRequest ⟨.indexScan, tablePrefix, keyPrefix, some filter'.toBytes⟩) = .ok req ∧
      scanRequest req (rows.map IndexRow.pair) = some result ∧
      onRawCoprocessorRequest ranges
        (encodeRequest ⟨.indexScan, tablePrefix, keyPrefix, some filter'.toBytes⟩) storage =
          pure (encodeScanResponse result.scannedKeys result.pairs) ∧
      (Complete rows inserted tablePrefix keyPrefix positions result.pairs ↔
        ∀ row ∈ rows, row.Scanned tablePrefix keyPrefix → row.Joins positions inserted →
          filter.Passes (inserted.map joinKey)
            (keyPrefix.drop (keyPrefix.length % 2 ^ 16)) []) := by
  let extra := keyPrefix.drop (keyPrefix.length % 2 ^ 16)
  let req : CoprocessorRequest := ⟨.indexScan, tablePrefix,
    keyPrefix.take (keyPrefix.length % 2 ^ 16),
    if (extra ++ filter'.toBytes).isEmpty then none else some (extra ++ filter'.toBytes)⟩
  have hreq := decodeRequest_encodeRequest
    ⟨.indexScan, tablePrefix, keyPrefix, some filter'.toBytes⟩
  have hprunes (row : IndexRow) :
      IndexScanParams.prunes ⟨tablePrefix, req.keyPrefix, 0, req.bloomFilter, []⟩ row.pair.1 =
        some (!decide (filter.Passes (inserted.map joinKey) extra [])) := by
    have hc := (BloomFilter.insertAll_inserts h).bloomCheck_iff extra []
    simp only [req, IndexRow.pair]
    split
    case isTrue he =>
      have : bloomCheck (extra ++ filter'.toBytes) [] = true := by simp [bloomCheck, he]
      simp [IndexScanParams.prunes, hc.mp this]
    case isFalse =>
      simp [IndexScanParams.prunes_key, IndexRow.joinTerms, joinKey, ← hc]
  have ⟨result, hr, hpairs⟩ := IndexScanParams.executeIndexScan_spec fun row (_ : row ∈ rows) _ =>
    hprunes row
  refine ⟨req, result, hreq, hr, ?_, ?_⟩
  · have hscan : respond req parts.flatten =
        some (encodeScanResponse result.scannedKeys result.pairs) := by
      rw [hp]
      simp only [respond, req, scanRequest]
      exact congrArg (Option.bind · _) hr
    simp only [onRawCoprocessorRequest, hreq, hs]
    change ExceptT.lift (respond req parts.flatten) = _
    rw [hscan]
    rfl
  · rw [hpairs]
    constructor
    · intro hc row hrow hscan hj
      have ⟨_, hk, _⟩ := List.mem_map.mp <| mem_of_mem_limited <| hc row hrow hscan hj
      simp only [List.mem_filter, Bool.and_eq_true, decide_eq_true_iff] at hk
      exact hk.2.2
    · intro hc row hrow hscan hj
      have hpass := hc row hrow hscan hj
      have hpre : tablePrefix :: req.keyPrefix <+: row.key :=
        List.IsPrefix.trans (by simpa [req] using List.take_prefix ..) hscan
      refine List.mem_map_of_mem <| List.mem_filter.mpr ⟨hrow, ?_⟩
      rw [Bool.and_eq_true, decide_eq_true_iff]
      exact ⟨List.isPrefixOf_iff_prefix.mpr hpre, hpass⟩

-- `BloomFilter` and the scans do not agree on the bits of a key, and the plugin does not pass on
-- the join positions.
theorem semiJoin_complete_iff (h : filter.insertAll (inserted.map joinKey) = some filter')
    (tablePrefix : UInt8) (keyPrefix : Bytes) (positions : List ℕ) (limit : ℕ)
    {ranges : List (Bytes × Bytes)} {storage : RawStorage} {parts : List (List KvPair)}
    (hs : ranges.mapM storage.scan = .ok parts) (hp : parts.flatten = rows.map IndexRow.pair) :
    (∃ result,
      executeIndexScan ⟨tablePrefix, keyPrefix, limit, some filter'.toBytes, positions⟩
        (rows.map IndexRow.pair) = some result ∧
      (Complete rows inserted tablePrefix keyPrefix positions result.pairs ↔
        ∀ row ∈ rows, row.Scanned tablePrefix keyPrefix → ∀ terms ∈ inserted,
          row.joinTerms positions = some terms →
            filter.Passes (inserted.map joinKey) [] (joinKey terms) ∧
            (0 < limit → row.pair ∈ ((rows.filter
              (·.kept filter inserted tablePrefix keyPrefix positions)).map
                IndexRow.pair).take limit))) ∧
    ∃ req result,
      decodeRequest
        (encodeRequest ⟨.indexScan, tablePrefix, keyPrefix, some filter'.toBytes⟩) = .ok req ∧
      scanRequest req (rows.map IndexRow.pair) = some result ∧
      onRawCoprocessorRequest ranges
        (encodeRequest ⟨.indexScan, tablePrefix, keyPrefix, some filter'.toBytes⟩) storage =
          pure (encodeScanResponse result.scannedKeys result.pairs) ∧
      (Complete rows inserted tablePrefix keyPrefix positions result.pairs ↔
        ∀ row ∈ rows, row.Scanned tablePrefix keyPrefix → row.Joins positions inserted →
          filter.Passes (inserted.map joinKey)
            (keyPrefix.drop (keyPrefix.length % 2 ^ 16)) []) :=
  ⟨executeIndexScan_complete_iff h tablePrefix keyPrefix positions limit,
    onRawCoprocessorRequest_complete_iff h tablePrefix keyPrefix positions hs hp⟩

def sampleRow (subject : UInt8) : IndexRow where
  encoding := .dspo
  quad     := ⟨.namedNode ⟨.replicate 16 subject⟩, .namedNode ⟨.replicate 16 0⟩,
    .booleanLiteral true, .defaultGraph⟩
  indexes  := ⟨⟨trivial, trivial, trivial, fun h => absurd rfl h⟩, iff_of_true rfl rfl⟩

-- `BloomFilter::new(100, 0.01)` has these sizes.
theorem semiJoin_loses_row :
    let row := sampleRow 0
    row.joinTerms [0] = some [row.quad.subject] ∧
    (do
      let filter ← (BloomFilter.new 959 7).insertAll [joinKey [row.quad.subject]]
      executeIndexScan ⟨Table.dspo.byte, [], 0, some filter.toBytes, [0]⟩ [row.pair]) =
        some ⟨[], 1⟩ ∧
    (do
      let filter ← (BloomFilter.new 959 7).insertAll [joinKey [row.quad.subject]]
      let response ← (onRawCoprocessorRequest [([], [0xFF])]
        (encodeRequest ⟨.indexScan, Table.dspo.byte, [], some filter.toBytes⟩)
        ⟨fun _ => .ok [row.pair]⟩).run
      return response.toOption) = some (some (encodeScanResponse 1 [])) := by
  decide +kernel

-- A filter of ten bits keeps the two rows with an inserted term, but the plugin loses one.
theorem semiJoin_complete_sample :
    let rows := [sampleRow 2, sampleRow 0, sampleRow 1]
    let inserted := [[(sampleRow 0).quad.subject], [(sampleRow 1).quad.subject]]
    ∃ filter', (BloomFilter.new 10 7).insertAll (inserted.map joinKey) = some filter' ∧
    (∃ result, executeIndexScan ⟨Table.dspo.byte, [], 2, some filter'.toBytes, [0]⟩
      (rows.map IndexRow.pair) = some result ∧
      Complete rows inserted Table.dspo.byte [] [0] result.pairs) ∧
    ∃ req result,
      decodeRequest
        (encodeRequest ⟨.indexScan, Table.dspo.byte, [], some filter'.toBytes⟩) = .ok req ∧
      scanRequest req (rows.map IndexRow.pair) = some result ∧
      ¬Complete rows inserted Table.dspo.byte [] [0] result.pairs := by
  intro rows inserted
  refine ⟨_, rfl, ?_⟩
  let storage : RawStorage := ⟨fun _ => .ok (rows.map IndexRow.pair)⟩
  have hb : (BloomFilter.new 10 7).insertAll (inserted.map joinKey) = some _ := rfl
  have hs : [([], [0xFF])].mapM storage.scan = .ok [rows.map IndexRow.pair] := rfl
  have ⟨⟨result, hr, hi⟩, req, result', hd, hr', _, hi'⟩ :=
    semiJoin_complete_iff hb Table.dspo.byte [] [0] 2 hs List.flatten_singleton
  have hp : ∀ terms ∈ inserted,
      (BloomFilter.new 10 7).Passes (inserted.map joinKey) [] (joinKey terms) := by
    decide +kernel
  have hl : ∀ row ∈ rows, ∀ terms ∈ inserted, row.joinTerms [0] = some terms →
      row.pair ∈ ((rows.filter (·.kept (.new 10 7) inserted Table.dspo.byte [] [0])).map
        IndexRow.pair).take 2 := by
    decide +kernel
  refine ⟨⟨result, hr, hi.mpr fun row hr _ terms ht hj => ?_⟩, req, result', hd, hr', fun hc => ?_⟩
  · exact ⟨hp terms ht, fun _ => hl row hr terms ht hj⟩
  · have hn := hi'.mp hc (sampleRow 0) (by simp [rows]) ⟨_, rfl⟩ ⟨_, List.mem_cons_self, rfl⟩
    exact absurd hn (by decide +kernel)

end Coprocessor
