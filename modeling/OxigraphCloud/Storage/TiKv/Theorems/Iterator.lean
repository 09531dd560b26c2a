import OxigraphCloud.Storage.TiKv.Reader

namespace TiKv

theorem popBound_eq : (l : Bytes) → prefixUpperBound.popBound l = Bytes.next? l.reverse
  | []     => rfl
  | b :: l => by
    rw [prefixUpperBound.popBound, List.reverse_cons, Bytes.next?_append_singleton, popBound_eq l]

theorem prefixUpperBound_eq : prefixUpperBound pre = Bytes.next? pre := by
  simp [prefixUpperBound, popBound_eq]

theorem mem_prefixRange {k pre : Bytes} : k ∈ prefixRange pre ↔ pre <+: k := by
  rw [BoundRange.mem_iff, Bytes.prefix_iff_mem_range, prefixRange, prefixUpperBound_eq]

theorem asU32_eq (h : n < 2 ^ 32) : asU32 n = n :=
  Nat.mod_eq_of_lt h

-- A transaction that reads `kv` and whose calls do not fail.
structure Transaction.Reads (txn : Transaction) (kv : State) : Prop where
  faults : txn.faults = noFaults
  view   : txn.view = kv

namespace Transaction.Reads

variable {txn : Transaction} {kv : State}

theorem called (h : txn.Reads kv) : { txn with calls := n }.Reads kv where
  faults := h.faults
  view   := h.view

theorem scan (h : txn.Reads kv) :
    txn.scan range limit = (.ok (kv.scan range limit), { txn with calls := txn.calls + 1 }) := by
  have hv : Mutation.applyAll txn.snapshot txn.writes = kv := h.view
  simp [Transaction.scan, request, h.faults, noFaults, Transaction.view, hv]

theorem scanKeys (h : txn.Reads kv) :
    txn.scanKeys range limit =
      (.ok ((kv.keysIn range).take limit), { txn with calls := txn.calls + 1 }) := by
  have hv : Mutation.applyAll txn.snapshot txn.writes = kv := h.view
  simp [Transaction.scanKeys, request, h.faults, noFaults, Transaction.view, hv, Kv.scan, Kv.keysIn,
    List.map_take]

theorem keyExists (h : txn.Reads kv) :
    txn.keyExists key = (.ok (key ∈ kv : Bool), { txn with calls := txn.calls + 1 }) := by
  have hv : Mutation.applyAll txn.snapshot txn.writes = kv := h.view
  simp [Transaction.keyExists, request, h.faults, noFaults, Transaction.view, hv]

end Transaction.Reads

-- The `n`-th transaction that is opened reads `views n`.
def Storage.Serves (storage : Storage) (views : ℕ → State) : Prop :=
  ∀ n, ∃ txn, storage.begins n = .ok txn ∧ txn.Reads (views n)

theorem decodePairs_eq : decodePairs encoding pairs =
    (pairs.map Prod.fst).map fun key => encoding.decode (key.drop 1) := by
  simp [decodePairs]

namespace PrefetchQuadIterator

variable {it it' : PrefetchQuadIterator} {views : ℕ → State} {storage : Storage}

def range (it : PrefetchQuadIterator) : BoundRange Bytes where
  start := it.scanRangeStart
  upper := it.scanRangeUpper

structure Ready (it : PrefetchQuadIterator) : Prop where
  pos    : 0 < it.batchSize
  lt     : it.batchSize < 2 ^ 32
  faults : ∀ txn ∈ it.txn, txn.faults = noFaults

-- The number of transactions that the iterator is still going to open.
def opens (it : PrefetchQuadIterator) : ℕ :=
  if it.txn.isNone && !it.exhausted then 1 else 0

-- What the batches that are still to be fetched are read from, if the next transaction that is
-- opened is the `n`-th.
def source (it : PrefetchQuadIterator) (views : ℕ → State) (n : ℕ) : State :=
  match it.txn with
  | some txn => txn.view
  | none     => views n

def unfetched (it : PrefetchQuadIterator) (views : ℕ → State) (n : ℕ) : List Bytes :=
  if it.exhausted then [] else (it.source views n).keysIn it.range

-- The items that the iterator is still going to yield.
def pending (it : PrefetchQuadIterator) (views : ℕ → State) (n : ℕ) :
    List (Except StorageError EncodedQuad) :=
  it.buffer.drop it.bufferPos ++
  (it.unfetched views n).map fun key => it.encoding.decode (key.drop 1)

theorem getTxn_eq (h : it.Ready) (hs : storage.Serves views) :
    ∃ txn, txn.Reads (it.source views storage.begun) ∧
      it.getTxn storage = (.ok txn, {
        storage with begun := storage.begun + if it.txn.isNone then 1 else 0
      }) := by
  cases ht : it.txn
  case some txn =>
    exact ⟨txn, ⟨h.faults txn ht, by simp [source, ht]⟩, by simp [getTxn, ht]⟩
  case none =>
    have ⟨txn, hb, hr⟩ := hs storage.begun
    exact ⟨txn, by simpa [source, ht] using hr, by simp [getTxn, ht, Storage.beginOptimistic, hb]⟩

-- A batch is a page of the range, and what is left is the range behind that page.
theorem fetchNextBatch_spec (h : it.Ready) (hs : storage.Serves views)
    (hx : it.exhausted = false) :
    ∃ it', fetchNextBatch (it, storage) =
        (.ok (), it', { storage with begun := storage.begun + it.opens }) ∧
      it'.Ready ∧ it'.opens = 0 ∧ it'.bufferPos = 0 ∧ (it'.buffer = [] → it'.exhausted) ∧
      ∀ n, it'.pending views n = ((it.source views storage.begun).keysIn it.range).map fun key =>
        it.encoding.decode (key.drop 1) := by
  have ⟨txn, hr, hg⟩ := getTxn_eq h hs
  have ho : it.opens = if it.txn.isNone then 1 else 0 := by simp [opens, hx]
  simp only [fetchNextBatch, hg, hr.scan, ho, asU32_eq h.lt, hx]
  refine ⟨_, rfl, ⟨h.pos, h.lt, by simp [hr.faults]⟩, by simp [opens], rfl, ?_, ?_⟩
  · intro hb
    simp_all [decodePairs, Kv.scan]
  · intro _
    generalize it.source views storage.begun = kv at *
    have hv : { txn with calls := txn.calls + 1 }.view = kv := hr.called.view
    have he : ∀ page : List (Bytes × Bytes),
        (page.isEmpty || page.length < it.batchSize) = decide (page.length < it.batchSize) := by
      have := h.pos
      intro page
      cases page <;> simp_all
    simp only [pending, unfetched, List.drop_zero, decodePairs_eq, ← List.map_append, source, hv]
    rw [← Kv.keysIn_eq_page_append kv it.range it.batchSize fun _ _ => Bytes.append_zero_le_iff]
    simp only [he, range, Kv.resume, List.map_append]
    by_cases hc : (kv.scan it.range it.batchSize).length < it.batchSize
    all_goals
      simp only [range] at hc
      cases (kv.scan ⟨it.scanRangeStart, it.scanRangeUpper⟩ it.batchSize).getLast? <;> simp [hc]

-- An iterator that already has its transaction does not depend on those that are opened later.
theorem pending_of_opens_eq_zero (h : it.opens = 0) :
    it.pending views n = it.pending views m := by
  cases ht : it.txn <;> simp_all [pending, unfetched, source, opens]

-- Taking an item out of the buffer.
theorem pending_of_buffer (views : ℕ → State) (n : ℕ) (h : it.buffer[it.bufferPos]? = some item) :
    it.pending views n = item :: pending {
      it with
      buffer    := it.buffer.set it.bufferPos consumed
      bufferPos := it.bufferPos + 1
    } views n := by
  have hd : it.buffer.drop it.bufferPos = item :: it.buffer.drop (it.bufferPos + 1) := by
    have ⟨hl, hi⟩ := List.getElem?_eq_some_iff.mp h
    rw [List.drop_eq_getElem_cons hl, hi]
  rw [pending, hd, pending, List.drop_set_of_lt (Nat.lt_succ_self _)]
  rfl

theorem next_spec (h : it.Ready) (hs : storage.Serves views) :
    ∃ it' n, next (it, storage) =
        ((it.pending views storage.begun).head?, it', { storage with begun := n }) ∧
      it'.Ready ∧ it'.pending views n = (it.pending views storage.begun).tail ∧
      n + it'.opens = storage.begun + it.opens ∧
      (it.pending views storage.begun = [] → it'.opens = 0) := by
  rw [next]
  cases hb : it.buffer[it.bufferPos]?
  case some item =>
    have hp := pending_of_buffer views storage.begun hb
    simp only [hp]
    exact ⟨_, _, rfl, ⟨h.pos, h.lt, h.faults⟩, rfl, rfl, by simp⟩
  case none =>
    have hd : it.buffer.drop it.bufferPos = [] := by simpa using hb
    cases hx : it.exhausted
    case true =>
      have hp : it.pending views storage.begun = [] := by simp [pending, unfetched, hd, hx]
      simp only [hp]
      exact ⟨it, _, rfl, h, hp, rfl, fun _ => by simp [opens, hx]⟩
    case false =>
      have ⟨it', hf, hr, ho, hz, he, hi⟩ := fetchNextBatch_spec h hs hx
      have hp : it'.pending views (storage.begun + it.opens) = it.pending views storage.begun := by
        rw [hi, pending, hd, unfetched, hx]
        rfl
      simp only [hf, ← hp]
      cases hb : it'.buffer[0]?
      case none =>
        have hp : it'.pending views (storage.begun + it.opens) = [] := by
          simp_all [pending, unfetched]
        simp only [hp]
        exact ⟨it', _, rfl, hr, hp, by simp [ho], fun _ => ho⟩
      case some item =>
        have hp := pending_of_buffer views (storage.begun + it.opens) (hz ▸ hb)
        simp only [hp, hz]
        exact ⟨_, _, rfl, ⟨hr.pos, hr.lt, hr.faults⟩, rfl, by simpa [opens] using ho, by simp⟩

end PrefetchQuadIterator

namespace DecodingQuadIterator

variable {it : DecodingQuadIterator} {views : ℕ → State} {storage : Storage}

structure Ready (it : DecodingQuadIterator) : Prop where
  first  : it.first.Ready
  second : ∀ second ∈ it.second, second.Ready

def opens (it : DecodingQuadIterator) : ℕ :=
  it.first.opens + it.second.elim 0 (·.opens)

-- The second iterator only starts to read when the first one has come to its end.
def pending (it : DecodingQuadIterator) (views : ℕ → State) (n : ℕ) :
    List (Except StorageError EncodedQuad) :=
  it.first.pending views n ++ it.second.elim [] (·.pending views (n + it.first.opens))

theorem next_spec (h : it.Ready) (hs : storage.Serves views) :
    ∃ it' n, next (it, storage) =
        ((it.pending views storage.begun).head?, it', { storage with begun := n }) ∧
      it'.Ready ∧ it'.pending views n = (it.pending views storage.begun).tail ∧
      n + it'.opens = storage.begun + it.opens ∧
      (it.pending views storage.begun = [] → it'.opens = 0) := by
  have ⟨first', n, hn, hr, ht, ho, hz⟩ := PrefetchQuadIterator.next_spec h.first hs
  rw [next, hn]
  cases hp : it.first.pending views storage.begun
  case cons item items =>
    refine ⟨{ it with first := first' }, n, by simp [pending, hp], ⟨hr, h.second⟩, ?_, ?_, ?_⟩
    · simp [pending, hp, ht, ho]
    · simp only [opens]
      omega
    · simp [pending, hp]
  case nil =>
    rw [hp] at ht
    cases hs₂ : it.second
    case none =>
      refine ⟨{ it with first := first' }, n, by simp [pending, hp, hs₂], ⟨hr, h.second⟩, ?_, ?_,
        ?_⟩
      · simp [pending, hp, ht, hs₂]
      · simpa [opens, hs₂] using ho
      · simp [opens, hs₂, hz hp]
    case some second =>
      have ho' : n = storage.begun + it.first.opens := by
        rw [← ho, hz hp, Nat.add_zero]
      have hs' : Storage.Serves { storage with begun := n } views := hs
      have ⟨second', n', hn', hr', ht', ho₂, hz₂⟩ :=
        PrefetchQuadIterator.next_spec (h.second second hs₂) hs'
      simp only [List.head?_nil, hn']
      refine ⟨⟨first', some second'⟩, n', by simp [pending, hp, hs₂, ← ho'],
        ⟨hr, by simpa using hr'⟩, ?_, ?_, ?_⟩
      · have hf : first'.pending views n' = [] :=
          PrefetchQuadIterator.pending_of_opens_eq_zero (hz hp) |>.trans ht
        simp [pending, hf, hz hp, ht', hp, hs₂, ← ho']
      · simp only [opens, hs₂, Option.elim_some, hz hp] at *
        omega
      · intro h
        simp_all [pending, opens]

-- The remaining items of an iterator and the transactions that it opens until its end.
def remaining (hs : storage.Serves views) (last : ℕ) : Iter.Remaining next where
  valid := fun (it, storage') =>
    it.Ready ∧ storage' = { storage with begun := storage'.begun } ∧
      storage'.begun + it.opens = last
  items := fun (it, storage') => it.pending views storage'.begun
  head  := by
    intro (it, storage') ⟨h, he, _⟩
    have hs' : storage'.Serves views := he ▸ hs
    have ⟨_, _, hn, _⟩ := next_spec h hs'
    rw [hn]
  tail := by
    intro (it, storage') ⟨h, he, ho⟩
    have hs' : storage'.Serves views := he ▸ hs
    have ⟨it', n, hn, hr, ht, ho', _⟩ := next_spec h hs'
    rw [hn]
    exact ⟨⟨hr, by rw [he], by rw [← ho, ← ho']⟩, ht⟩

theorem yields (h : it.Ready) (hs : storage.Serves views) :
    ∃ it', Iter.Yields next (it, storage) (it.pending views storage.begun)
      (it', { storage with begun := storage.begun + it.opens }) := by
  have hv : (remaining hs (storage.begun + it.opens)).valid (it, storage) := ⟨h, rfl, rfl⟩
  have ⟨(it₀, storage₀), ⟨hr, he, ho⟩, hi, hy⟩ := (remaining hs _).yields hv
  have hs₀ : storage₀.Serves views := he ▸ hs
  have ⟨it', n, hn, _, _, ho', hz⟩ := next_spec hr hs₀
  have hn' : n = storage.begun + it.opens := by
    rw [← ho, ← ho', hz hi, Nat.add_zero]
  rw [hn, he, hn'] at hy
  exact ⟨it', hy⟩

theorem takeCollect_spec {quads : List EncodedQuad} (h : it.Ready) (hs : storage.Serves views)
    (hl : it.pending views storage.begun = quads.map .ok) (n : ℕ) :
    ∃ it' m, Iter.takeCollect next n (it, storage) =
      (.ok (quads.take n), it', { storage with begun := m }) := by
  have hv : (remaining hs (storage.begun + it.opens)).valid (it, storage) := ⟨h, rfl, rfl⟩
  have hc := (remaining hs _).takeCollect_eq (n := n) hv hl
  have ⟨_, he, _⟩ := (remaining hs _).takeCollect_valid (n := n) hv
  exact ⟨_, _, Prod.ext hc <| Prod.ext rfl he⟩

end DecodingQuadIterator

end TiKv
