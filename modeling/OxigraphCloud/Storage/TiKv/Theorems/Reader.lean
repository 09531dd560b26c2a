import OxigraphCloud.Storage.Theorems.Layout
import OxigraphCloud.Storage.Theorems.Pattern
import OxigraphCloud.Storage.TiKv.Theorems.Iterator

namespace TiKv

variable {kv : State} {views : ℕ → State} {Qs : ℕ → Set EncodedQuad}

theorem mem_keysIn_prefixRange {k pre : Bytes} :
    k ∈ kv.keysIn (prefixRange (prefixedKey table pre)) ↔
      ∃ k', prefixedKey table k' = k ∧ k' ∈ tables kv table ∧ pre <+: k' := by
  rw [Kv.mem_keysIn, mem_prefixRange, prefixedKey, List.cons_prefix_iff]
  constructor
  · intro ⟨hk, k', he, hp⟩
    exact ⟨k', he.symm, by simpa [tables, prefixedKey, ← he] using hk, hp⟩
  · intro ⟨k', he, hk, hp⟩
    exact ⟨by simpa [tables, he] using hk, k', he.symm, hp⟩

theorem lists_table (kv : State) (table : Table) :
    Iter.Lists ((kv.keysIn (prefixRange (prefixedKey table []))).map fun key =>
      (.ok (key.drop 1) : Except StorageError Bytes)) (tables kv table) := by
  refine .map (prefixedKey table) Kv.keysIn_nodup (fun k => ?_) (by simp [prefixedKey])
  simp [mem_keysIn_prefixRange, and_comm]

theorem length_keysIn_table :
    (kv.keysIn (prefixRange (prefixedKey table []))).length = (tables kv table).ncard := by
  simp [(lists_table kv table).ncard]

-- The scans of whole tables ask for at most this many keys.
def Fits (kv : State) (table : Table) : Prop :=
  (tables kv table).ncard ≤ u32Max

-- Decodes a list of index keys where each key may have been read at a different time.
theorem lists_of_keys {e : QuadEncoding} {p : Pattern} {keys : List Bytes} (time : Bytes → ℕ)
    (h : ∀ n, (tables (views n)).Indexes (Qs n)) (ht : ∀ t ∈ p.keyTerms e, t.IsTerm)
    (hp : p.ServedBy e) (hn : keys.Nodup)
    (hk : ∀ k, k ∈ keys ↔ k ∈ (views (time k)).keysIn
      (prefixRange (prefixedKey e.table ((p.keyTerms e).flatMap writeTerm)))) :
    Iter.Lists (keys.map fun key => e.decode (key.drop 1)) {
      q | q ∈ Qs (time (prefixedKey e.table (e.writer q))) ∧
        (q.graphName = .defaultGraph ↔ e.forDefaultGraph) ∧ p.canonical.Matches q
    } := by
  have hw {q n} (hq : q ∈ Qs n) (hi : e.Indexes q) :
      (p.keyTerms e).flatMap writeTerm <+: e.writer q ↔ p.canonical.Matches q := by
    rw [hi.prefix_writer_iff ht, (h n).canonical q hq, hp.prefix_iff]
  refine .map (fun q => prefixedKey e.table (e.writer q)) hn (fun k => ?_) ?_
  · rw [hk, mem_keysIn_prefixRange]
    constructor
    · intro ⟨_, he, hm, hp⟩
      have ⟨q, hq, hi, hw'⟩ := (h _).index e _ |>.mp hm
      subst hw' he
      exact ⟨q, ⟨hq, hi.graph, hw hq hi |>.mp hp⟩, rfl⟩
    · intro ⟨q, ⟨hq, hg, hp⟩, he⟩
      have hi : e.Indexes q := ⟨(h _).isQuad q hq, hg⟩
      subst he
      exact ⟨_, rfl, (h _).index e _ |>.mpr ⟨q, hq, hi, rfl⟩, hw hq hi |>.mpr hp⟩
  · intro q ⟨hq, hg, _⟩
    have hi : e.Indexes q := ⟨(h _).isQuad q hq, hg⟩
    simp [prefixedKey, hi.decode_writer, (h _).canonical q hq]

-- The batch sizes that the configuration allows.
structure Storage.BatchSize (storage : Storage) : Prop where
  pos : 0 < storage.scanBatchSize
  lt  : storage.scanBatchSize < 2 ^ 32

-- The iterator yields the quads that match the pattern, each of them once, and then ends. Each quad
-- is looked up in one of the transactions that have been opened for the iterator, which are those
-- from `start` on.
def DecodingQuadIterator.Answers (it : DecodingQuadIterator) (storage : Storage) (start : ℕ)
    (Qs : ℕ → Set EncodedQuad) (p : Pattern) : Prop :=
  ∃ items it' last, ∃ time : EncodedQuad → ℕ,
    Iter.Yields next (it, storage) items (it', { storage with begun := last }) ∧
    Iter.Lists items { q | q ∈ Qs (time q) ∧ p.canonical.Matches q } ∧
    ∀ q, start ≤ time q ∧ time q < last

theorem DecodingQuadIterator.Answers.of_ready {it : DecodingQuadIterator} {storage : Storage}
    (time : EncodedQuad → ℕ) (h : it.Ready) (hs : storage.Serves views)
    (hl : Iter.Lists (it.pending views storage.begun) {
      q | q ∈ Qs (time q) ∧ p.canonical.Matches q
    }) (ht : ∀ q, start ≤ time q ∧ time q < storage.begun + it.opens) :
    it.Answers storage start Qs p :=
  have ⟨_, hy⟩ := it.yields h hs
  ⟨_, _, _, time, hy, hl, ht⟩

-- The quads of the default graph and those of the named graphs come from different iterators.
theorem lists_append {items₁ items₂ : List (Except StorageError EncodedQuad)}
    (time₁ time₂ : EncodedQuad → ℕ) {P : EncodedQuad → Prop} {e₁ e₂ : QuadEncoding}
    (he₁ : e₁.forDefaultGraph) (he₂ : ¬e₂.forDefaultGraph)
    (h₁ : Iter.Lists items₁ {
      q | q ∈ Qs (time₁ q) ∧ (q.graphName = .defaultGraph ↔ e₁.forDefaultGraph) ∧ P q
    })
    (h₂ : Iter.Lists items₂ {
      q | q ∈ Qs (time₂ q) ∧ (q.graphName = .defaultGraph ↔ e₂.forDefaultGraph) ∧ P q
    }) :
    Iter.Lists (items₁ ++ items₂) {
      q | q ∈ Qs (if q.graphName = .defaultGraph then time₁ q else time₂ q) ∧ P q
    } := by
  refine h₁.append h₂ ?_ |>.congr fun q => ?_
  · exact Set.disjoint_left.mpr fun q h₁ h₂ => he₂ <| h₂.2.1.mp <| h₁.2.1.mpr he₁
  · by_cases hg : q.graphName = .defaultGraph <;> simp [hg, he₁, he₂]

namespace StorageReader

variable {r : StorageReader} {e : QuadEncoding} {p : Pattern}

-- The iterator over the quads of an index that match a pattern.
def lookup (r : StorageReader) (p : Pattern) (e : QuadEncoding) : PrefetchQuadIterator :=
  r.innerQuads e.table ((p.keyTerms e).flatMap writeTerm) e

theorem quadsForPattern_graph (hg : p.graphName = some g) :
    r.quadsForPattern p = (.new <| if g.isDefaultGraph then
      r.lookup { p with graphName := none } p.index.1
    else
      r.lookup p p.index.2, r) := by
  rcases p with ⟨_ | _, _ | _, _ | _, _ | _⟩ <;> cases hg <;>
    simp only [quadsForPattern, lookup, Pattern.keyTerms, Pattern.index, QuadEncoding.positions,
      List.filterMap_cons, List.filterMap_nil, Pattern.term, List.flatMap_cons, List.flatMap_nil,
      List.append_nil] <;>
    simp only [quadsForGraph, quadsForSubjectGraph, quadsForSubjectPredicateGraph,
      quadsForSubjectPredicateObjectGraph, quadsForSubjectObjectGraph, quadsForPredicateGraph,
      quadsForPredicateObjectGraph, quadsForObjectGraph, encodeTermTriple, encodeTermQuad,
      List.append_assoc] <;>
    rfl

theorem quadsForPattern_pair (hg : p.graphName = none) (hu : p ≠ ⟨none, none, none, none⟩) :
    r.quadsForPattern p = (.pair (r.lookup p p.index.1) (r.lookup p p.index.2), r) := by
  rcases p with ⟨_ | _, _ | _, _ | _, _ | _⟩ <;> cases hg <;> try contradiction
  all_goals
    simp only [quadsForPattern, lookup, Pattern.keyTerms, Pattern.index, QuadEncoding.positions,
      List.filterMap_cons, List.filterMap_nil, Pattern.term, List.flatMap_cons, List.flatMap_nil,
      List.append_nil]
  all_goals
    simp only [quadsForSubject, quadsForSubjectPredicate, quadsForSubjectPredicateObject,
      quadsForSubjectObject, quadsForPredicate, quadsForPredicateObject, quadsForObject,
      encodeTermTriple, List.append_assoc]
    rfl

theorem lookup_ready (h : r.storage.BatchSize) : (r.lookup p e).Ready where
  pos    := h.pos
  lt     := h.lt
  faults := nofun

@[simp]
theorem lookup_opens : (r.lookup p e).opens = 1 := rfl

theorem lookup_lists (r : StorageReader) (n : ℕ)
    (hq : ∀ n, (tables (views n)).Indexes (Qs n)) (ht : ∀ t ∈ p.keyTerms e, t.IsTerm)
    (hp : p.ServedBy e) :
    Iter.Lists ((r.lookup p e).pending views n) {
      q | q ∈ Qs n ∧ (q.graphName = .defaultGraph ↔ e.forDefaultGraph) ∧ p.canonical.Matches q
    } :=
  lists_of_keys (fun _ => n) hq ht hp Kv.keysIn_nodup fun _ => .rfl

theorem prefetched_ready (h : r.storage.BatchSize) : (r.prefetched table e pairs).Ready where
  pos    := h.pos
  lt     := h.lt
  faults := nofun

theorem prefetched_pending {page : List (Bytes × Bytes)} :
    (r.prefetched e.table e page).pending views n =
      (page.map Prod.fst ++ if page.length < r.storage.scanBatchSize then [] else
        (views n).keysIn <| Kv.resume (· ++ [0x00]) (prefixRange (prefixedKey e.table [])) page
      ).map fun key => e.decode (key.drop 1) := by
  rw [List.map_append, PrefetchQuadIterator.pending, ← decodePairs_eq]
  by_cases hx : page.length < r.storage.scanBatchSize
  case pos => simp [prefetched, PrefetchQuadIterator.unfetched, hx]
  case neg =>
    cases h : page.getLast? <;>
      simp [prefetched, PrefetchQuadIterator.unfetched, PrefetchQuadIterator.source,
        PrefetchQuadIterator.range, prefixRange, Kv.resume, hx, h]

-- The keys up to the last one of the first batch are read by one transaction, the keys behind it by
-- another one.
theorem prefetched_lists (r : StorageReader) (m n : ℕ)
    (hq : ∀ n, (tables (views n)).Indexes (Qs n)) (hp : p.ServedBy e) (hk : p.keyTerms e = []) :
    ∃ time : EncodedQuad → ℕ,
      let it := r.prefetched e.table e <|
        (views m).scan (prefixRange (prefixedKey e.table [])) r.storage.scanBatchSize
      Iter.Lists (it.pending views n) {
        q | q ∈ Qs (time q) ∧ (q.graphName = .defaultGraph ↔ e.forDefaultGraph) ∧
          p.canonical.Matches q
      } ∧
      ∀ q, time q = m ∨ time q = n ∧ it.opens = 1 := by
  classical
  have ⟨hn, later, hs, hm⟩ := Kv.page_append_later (views m) (views n)
    (prefixRange (prefixedKey e.table [])) r.storage.scanBatchSize
    fun _ _ => Bytes.append_zero_le_iff
  let time k := if later k then n else m
  refine ⟨fun q => time (prefixedKey e.table (e.writer q)), ?_, ?_⟩
  · rw [prefetched_pending]
    refine lists_of_keys time hq (by simp [hk]) hp hn fun k => ?_
    rw [hm]
    by_cases hl : later k <;> simp [hl, hk, time]
  · intro q
    by_cases hk : later (prefixedKey e.table (e.writer q)) <;> simp only [time, hk]
    case pos =>
      have hx := mt hs <| by simpa using ⟨_, hk⟩
      exact .inr ⟨rfl, by simpa [PrefetchQuadIterator.opens, prefetched] using hx⟩
    case neg => exact .inl rfl

theorem scanFirstBatch_eq {txn : Transaction} (h : txn.Reads kv) (hb : r.storage.BatchSize) :
    r.scanFirstBatch table txn =
      .ok (kv.scan (prefixRange (prefixedKey table [])) r.storage.scanBatchSize) := by
  rw [scanFirstBatch, h.scan, asU32_eq hb.lt]

theorem quads_eq (hs : r.storage.Serves views) (hb : r.storage.BatchSize) :
    let page (table : Table) (n : ℕ) :=
      (views n).scan (prefixRange (prefixedKey table [])) r.storage.scanBatchSize
    r.quads = (.pair (r.prefetched .dspo .dspo <| page .dspo r.storage.begun)
        (r.prefetched .gspo .gspo <| page .gspo (r.storage.begun + 1)),
      { r with storage := { r.storage with begun := r.storage.begun + 2 } }) := by
  have ⟨txn₁, hb₁, hr₁⟩ := hs r.storage.begun
  have ⟨txn₂, hb₂, hr₂⟩ := hs (r.storage.begun + 1)
  simp only [quads, Storage.beginOptimistic, hb₁, hb₂, bind, Except.bind, pure, Except.pure,
    scanFirstBatch_eq hr₁ hb, scanFirstBatch_eq hr₂ hb]

-- A bound graph name: one index is looked up. In an index of the default graph the graph name is
-- not part of the key, so that the pattern that is looked up there leaves it out.
theorem graph_lists (hq : ∀ n, (tables (views n)).Indexes (Qs n)) (hp : p.IsPattern)
    (hg : p.graphName = some g) :
    ∃ p' e, r.quadsForPattern p = (.new (r.lookup p' e), r) ∧
      ∀ n, Iter.Lists ((r.lookup p' e).pending views n) {
        q | q ∈ Qs n ∧ p.canonical.Matches q
      } := by
  have ⟨he₁, he₂⟩ := p.index_forDefaultGraph
  rw [quadsForPattern_graph hg]
  by_cases h : g = .defaultGraph
  case pos =>
    have hp₀ : Pattern.IsPattern { p with graphName := none } :=
      ⟨hp.subject, hp.predicate, hp.object, by simp⟩
    rw [if_pos <| EncodedTerm.isDefaultGraph_iff.mpr h]
    refine ⟨_, _, rfl, fun n =>
      .congr (lookup_lists r n hq (hp₀.keyTerms nofun) p.servedBy_index_fst) fun q => ?_⟩
    simp [Pattern.matches_iff, Pattern.canonical, hg, h, he₁, EncodedTerm.canonical]
    tauto
  case neg =>
    rw [if_neg <| EncodedTerm.isDefaultGraph_iff.not.mpr h]
    have ht := hp.keyTerms (e := p.index.2) <| by simpa [hg] using h
    refine ⟨_, _, rfl, fun n => .congr (lookup_lists r n hq ht p.servedBy_index_snd) fun q => ?_⟩
    refine and_congr_right fun _ => and_iff_right_of_imp fun hm => ?_
    have := Pattern.matches_iff.mp hm |>.2.2.2 g.canonical (by simp [Pattern.canonical, hg])
    simp [this, h, he₂]

section Answers

variable (hs : r.storage.Serves views) (hq : ∀ n, (tables (views n)).Indexes (Qs n))
  (hb : r.storage.BatchSize)

include hs hq hb

theorem graph_answers (hp : p.IsPattern) (hg : p.graphName = some g) :
    (r.quadsForPattern p).1.Answers r.storage r.storage.begun Qs p := by
  have ⟨p', e, he, hl⟩ := graph_lists (r := r) hq hp hg
  rw [he]
  refine .of_ready (fun _ => r.storage.begun) ⟨lookup_ready hb, nofun⟩ hs ?_ ?_
  · simpa [DecodingQuadIterator.pending, DecodingQuadIterator.new] using hl r.storage.begun
  · exact fun _ => ⟨le_rfl, Nat.lt_succ_self _⟩

theorem pair_answers (hp : p.IsPattern) (hg : p.graphName = none)
    (hu : p ≠ ⟨none, none, none, none⟩) :
    (r.quadsForPattern p).1.Answers r.storage r.storage.begun Qs p := by
  have ⟨he₁, he₂⟩ := p.index_forDefaultGraph
  have ht {e} : ∀ t ∈ p.keyTerms e, t.IsTerm := hp.keyTerms (by simp [hg])
  have hf : p.ServedBy p.index.1 := by
    have := p.servedBy_index_fst
    rwa [← hg] at this
  have hl₁ := lookup_lists r r.storage.begun hq ht hf
  have hl₂ := lookup_lists r (r.storage.begun + 1) hq ht p.servedBy_index_snd
  rw [quadsForPattern_pair hg hu]
  refine .of_ready _
    ⟨lookup_ready hb, by simpa [DecodingQuadIterator.pair] using lookup_ready hb⟩ hs
    (lists_append (fun _ => r.storage.begun) (fun _ => r.storage.begun + 1) he₁ he₂ hl₁ hl₂) ?_
  intro q
  simp only [DecodingQuadIterator.opens, DecodingQuadIterator.pair, lookup_opens, Option.elim_some]
  split <;> omega

theorem quads_answers : r.quads.1.Answers r.quads.2.storage r.storage.begun Qs
    ⟨none, none, none, none⟩ := by
  have hp {e} : Pattern.ServedBy ⟨none, none, none, none⟩ e :=
    ⟨by cases e <;> exact ⟨_, rfl⟩, by rintro (_ | _) <;> nofun⟩
  have hk {e} : Pattern.keyTerms ⟨none, none, none, none⟩ e = [] := by cases e <;> rfl
  have ⟨time₁, hl₁, ht₁⟩ := prefetched_lists (e := .dspo) r r.storage.begun
    (r.storage.begun + 2) hq hp hk
  set dspo := r.prefetched (QuadEncoding.table .dspo) .dspo _
  have ⟨time₂, hl₂, ht₂⟩ := prefetched_lists (e := .gspo) r (r.storage.begun + 1)
    (r.storage.begun + 2 + dspo.opens) hq hp hk
  rw [quads_eq hs hb]
  refine .of_ready _
    ⟨prefetched_ready hb, by simpa [DecodingQuadIterator.pair] using prefetched_ready hb⟩ hs
    (lists_append time₁ time₂ rfl (by decide) hl₁ hl₂) ?_
  intro q
  have h₁ := ht₁ q
  have h₂ := ht₂ q
  simp only [DecodingQuadIterator.opens, DecodingQuadIterator.pair, Option.elim_some]
  simp only [QuadEncoding.table, dspo] at h₁ h₂
  split <;> omega

theorem quadsForPattern_answers (hp : p.IsPattern) :
    (r.quadsForPattern p).1.Answers (r.quadsForPattern p).2.storage r.storage.begun Qs p := by
  cases hg : p.graphName
  case some g =>
    have h := graph_answers hs hq hb hp hg
    rwa [quadsForPattern_graph hg] at h ⊢
  case none =>
    by_cases hu : p = ⟨none, none, none, none⟩
    case pos =>
      subst hu
      exact quads_answers hs hq hb
    case neg =>
      have h := pair_answers hs hq hb hp hg hu
      rwa [quadsForPattern_pair hg hu] at h ⊢

end Answers

section Reads

variable {Q : Set EncodedQuad} {D : Dataset}

def called (r : StorageReader) : StorageReader :=
  { r with txn := { r.txn with calls := r.txn.calls + 1 } }

theorem containsKey_eq (h : r.txn.Reads kv) :
    containsKey table key r = (.ok (prefixedKey table key ∈ kv : Bool), r.called) := by
  simp only [containsKey, withTxn, h.keyExists]
  rfl

theorem scanPrefixKeysLimit_eq (h : r.txn.Reads kv) :
    scanPrefixKeysLimit table pre limit r =
      (.ok ((kv.keysIn (prefixRange (prefixedKey table pre))).take limit), r.called) := by
  simp only [scanPrefixKeysLimit, withTxn, h.scanKeys]
  rfl

theorem contains_eq (h : r.txn.Reads kv) (hi : (tables kv).Indexes Q) (hq : q.IsQuad) :
    ∃ b : Bool, contains q r = (.ok b, r.called) ∧ (b ↔ q.canonical ∈ Q) := by
  rw [contains]
  by_cases hg : q.graphName = .defaultGraph
  case pos =>
    have he : QuadEncoding.Indexes .dspo q := ⟨hq, iff_of_true hg rfl⟩
    rw [if_pos <| EncodedTerm.isDefaultGraph_iff.mpr hg, containsKey_eq h]
    exact ⟨_, rfl, decide_eq_true_iff.trans <| hi.mem_iff he⟩
  case neg =>
    have he : QuadEncoding.Indexes .gspo q := ⟨hq, iff_of_false hg (by decide)⟩
    rw [if_neg <| EncodedTerm.isDefaultGraph_iff.not.mpr hg, containsKey_eq h]
    exact ⟨_, rfl, decide_eq_true_iff.trans <| hi.mem_iff he⟩

theorem containsNamedGraph_eq (h : r.txn.Reads kv) (hs : (tables kv).Stores D) (hg : g.IsTerm) :
    ∃ b : Bool, containsNamedGraph g r = (.ok b, r.called) ∧ (b ↔ g.canonical ∈ D.namedGraphs) := by
  rw [containsNamedGraph, containsKey_eq h]
  exact ⟨_, rfl, decide_eq_true_iff.trans <| hs.mem_graphs_iff hg⟩

-- The keys of an index are those of its quads.
theorem lists_of_table (hi : (tables kv).Indexes Q) (e : QuadEncoding) :
    Iter.Lists ((kv.keysIn (prefixRange (prefixedKey e.table []))).map fun key =>
      e.decode (key.drop 1)) { q | q ∈ Q ∧ (q.graphName = .defaultGraph ↔ e.forDefaultGraph) } := by
  have hk : Pattern.keyTerms ⟨none, none, none, none⟩ e = [] := by cases e <;> rfl
  have hp : Pattern.ServedBy ⟨none, none, none, none⟩ e :=
    ⟨by cases e <;> exact ⟨_, rfl⟩, by rintro (_ | _) <;> nofun⟩
  have := lists_of_keys (fun _ => 0) (fun _ => hi) (by simp [hk]) hp Kv.keysIn_nodup fun _ => .rfl
  simpa [hk, Pattern.matches_iff, Pattern.canonical] using this

theorem lists_of_graphs (hs : (tables kv).Stores D) :
    Iter.Lists ((kv.keysIn (prefixRange (prefixedKey .graphs []))).map fun key =>
      decodeTerm (key.drop 1)) D.namedGraphs := by
  refine .map (fun g => prefixedKey .graphs (writeTerm g)) Kv.keysIn_nodup (fun k => ?_) ?_
  · rw [mem_keysIn_prefixRange]
    constructor
    · intro ⟨_, he, hm, _⟩
      have ⟨g, hg, _, hw⟩ := hs.graphs _ |>.mp hm
      exact ⟨g, hg, hw ▸ he⟩
    · intro ⟨g, hg, he⟩
      exact ⟨_, he, hs.graphs _ |>.mpr ⟨g, hg, hs.isTerm g hg, rfl⟩, by simp⟩
  · intro g hg
    simp [prefixedKey, decodeTerm_writeTerm (hs.isTerm g hg), hs.canonicalGraph g hg]

theorem lists_of_both (hi : (tables kv).Indexes Q) :
    Iter.Lists ((kv.keysIn (prefixRange (prefixedKey .gspo []))).map (fun key =>
        QuadEncoding.gspo.decode (key.drop 1)) ++
      (kv.keysIn (prefixRange (prefixedKey .dspo []))).map fun key =>
        QuadEncoding.dspo.decode (key.drop 1)) Q := by
  refine .congr ((lists_of_table hi .gspo).append (lists_of_table hi .dspo) ?_) fun q => ?_
  · exact Set.disjoint_left.mpr fun q h₁ h₂ => nomatch h₁.2.mp (h₂.2.mpr rfl)
  · by_cases hg : q.graphName = .defaultGraph <;>
      simp [hg, QuadEncoding.forDefaultGraph, QuadEncoding.positions]

theorem len_eq (h : r.txn.Reads kv) (hi : (tables kv).Indexes Q) (hg : Fits kv .gspo)
    (hd : Fits kv .dspo) : len r = (.ok Q.ncard, r.called.called) := by
  have h₁ : scanPrefixKeys .gspo [] r = _ := scanPrefixKeysLimit_eq h
  have h₂ : scanPrefixKeys .dspo [] r.called = _ := scanPrefixKeysLimit_eq h.called
  rw [List.take_of_length_le (length_keysIn_table.trans_le hg)] at h₁
  rw [List.take_of_length_le (length_keysIn_table.trans_le hd)] at h₂
  rw [len, Call.bind_apply h₁, Call.bind_apply h₂, (lists_of_both hi).ncard, List.length_append,
    List.length_map, List.length_map]
  rfl

theorem isEmpty_eq (h : r.txn.Reads kv) (hi : (tables kv).Indexes Q) :
    ∃ b : Bool, ∃ r', isEmpty r = (.ok b, r') ∧ (b ↔ Q = ∅) ∧
      r'.txn.Reads kv ∧ r'.storage = r.storage := by
  have h₁ : scanPrefixKeysLimit .gspo [] 1 r = _ := scanPrefixKeysLimit_eq h
  have h₂ : scanPrefixKeysLimit .dspo [] 1 r.called = _ := scanPrefixKeysLimit_eq h.called
  have hn := (lists_of_both hi).eq_nil_iff
  rw [isEmpty, Call.bind_apply h₁]
  cases hk : kv.keysIn (prefixRange (prefixedKey .gspo [])) <;> simp only [hk] at *
  case cons key keys =>
    exact ⟨false, r.called, rfl, by simp [← hn], h.called, rfl⟩
  case nil =>
    simp only [List.take_nil, List.isEmpty_nil, Bool.not_true, Bool.false_eq_true, if_false]
    rw [Call.bind_apply h₂]
    refine ⟨_, _, rfl, ?_, h.called.called, rfl⟩
    simp [← hn]

theorem namedGraphs_eq (h : r.txn.Reads kv) (hs : (tables kv).Stores D) (hf : Fits kv .graphs) :
    Iter.Lists (namedGraphs r).1 D.namedGraphs ∧ (namedGraphs r).2 = r.called := by
  have hl := lists_of_graphs hs
  have ht : kv.scan (prefixRange (prefixedKey .graphs [])) u32Max =
      kv.entriesIn (prefixRange (prefixedKey .graphs [])) :=
    List.take_of_length_le <| by simpa [Kv.keysIn] using length_keysIn_table.trans_le hf
  simp only [namedGraphs, scanPrefix, withTxn, h.scan, ht]
  rw [Kv.keysIn, List.map_map] at hl
  exact ⟨hl, rfl⟩

end Reads

end StorageReader

end TiKv
