import OxigraphCloud.Coprocessor.Scan

namespace Coprocessor

namespace BloomFilter

variable {filter filter' : BloomFilter}

-- The bits that are set once `keys` have been inserted.
def Marked (filter : BloomFilter) (keys : List Bytes) (p : ℕ) : Prop :=
  filter.bits.testBit p = true ∨ ∃ key ∈ keys, p ∈ filter.bitPositions key

instance {keys : List Bytes} : Decidable (filter.Marked keys p) :=
  inferInstanceAs <| Decidable (_ ∨ ∃ key ∈ keys, _)

theorem lt_of_mem_bitPositions (hn : filter.numBits ≠ 0) (h : p ∈ filter.bitPositions key) :
    p < 8 * filter.bits.length := by
  obtain ⟨i, _, hp⟩ := List.mem_map.mp h
  have : p < filter.numBits := hp ▸ Nat.mod_lt _ (by omega)
  have := filter.length_bits
  omega

theorem bitPositions_eq_nil (h : filter.numHashes.toNat = 0) : filter.bitPositions key = [] := by
  simp [bitPositions, h]

-- Inserting a key sets the bits of its positions and changes nothing else.
structure Inserts (filter : BloomFilter) (keys : List Bytes) (filter' : BloomFilter) : Prop where
  length       : filter'.bits.length = filter.bits.length
  bitPositions : filter'.bitPositions = filter.bitPositions
  marked       : ∀ p, filter'.bits.testBit p = true ↔ filter.Marked keys p

theorem insert_inserts (h : filter.insert key = some filter') : filter.Inserts [key] filter' := by
  simp only [insert, Option.ite_none_left_eq_some, Option.some.injEq] at h
  obtain ⟨hn, rfl⟩ := h
  refine ⟨by simp, rfl, fun p => ?_⟩
  have hp : ∀ p ∈ filter.bitPositions key, p < 8 * filter.bits.length := by
    intro p hp
    refine lt_of_mem_bitPositions (fun h₀ => ?_) hp
    have hh : filter.numHashes.toNat = 0 := by
      by_contra hh
      exact hn ⟨h₀, Nat.pos_of_ne_zero hh⟩
    simp [bitPositions_eq_nil hh] at hp
  simp [Bytes.testBit_foldl_setBit hp, Marked, or_comm]

theorem insertAll_inserts {keys : List Bytes} (h : filter.insertAll keys = some filter') :
    filter.Inserts keys filter' := by
  induction keys generalizing filter
  case nil =>
    obtain rfl : filter = filter' := by simpa [insertAll] using h
    exact ⟨rfl, rfl, by simp [Marked]⟩
  case cons key keys hi =>
    simp only [insertAll, List.foldlM_cons, Option.bind_eq_bind, Option.bind_eq_some_iff] at h
    obtain ⟨next, h₁, h₂⟩ := h
    have i₁ := insert_inserts h₁
    have i₂ := hi h₂
    refine ⟨i₂.length.trans i₁.length, i₂.bitPositions.trans i₁.bitPositions, fun p => ?_⟩
    rw [i₂.marked, Marked, i₁.marked, i₁.bitPositions]
    simp [Marked, or_assoc]

theorem numHashes_of_insertAll {keys : List Bytes} (h : filter.insertAll keys = some filter') :
    filter'.numHashes = filter.numHashes := by
  induction keys generalizing filter
  case nil =>
    obtain rfl : filter = filter' := by simpa [insertAll] using h
    rfl
  case cons key keys hi =>
    simp only [insertAll, List.foldlM_cons, Option.bind_eq_bind, Option.bind_eq_some_iff] at h
    obtain ⟨next, h₁, h₂⟩ := h
    rw [hi h₂]
    simp only [insert, Option.ite_none_left_eq_some, Option.some.injEq] at h₁
    obtain ⟨-, rfl⟩ := h₁
    rfl

theorem exists_insertAll (hn : 0 < filter.numBits) (keys : List Bytes) :
    ∃ filter', filter.insertAll keys = some filter' := by
  induction keys generalizing filter
  case nil => exact ⟨filter, rfl⟩
  case cons key keys hi =>
    have hp : ¬(filter.numBits = 0 ∧ 0 < filter.numHashes.toNat) := by omega
    simp only [insertAll, List.foldlM_cons, insert, if_neg hp]
    exact hi hn

-- The number of bits of a filter that is rebuilt from its bytes.
def wholeBits (filter : BloomFilter) : ℕ := 8 * ((filter.numBits + 7) / 8)

variable {keys : List Bytes}

theorem Inserts.mayContain_fromBytes_iff (h : filter.Inserts keys filter')
    (hn : 0 < filter.numBits) (numHashes : UInt8) (key : Bytes) :
    (fromBytes filter'.toBytes numHashes).mayContain key = some true ↔
      ∀ i < numHashes.toNat, filter.Marked keys (bitPos (hashPair key) filter.wholeBits i) := by
  have hb : filter'.bits.length * 8 = filter.wholeBits := by
    rw [h.length, filter.length_bits, wholeBits, mul_comm]
  have hp : ¬(filter.wholeBits = 0 ∧ 0 < numHashes.toNat) := by
    rw [wholeBits]
    omega
  simp only [mayContain, fromBytes, toBytes, BloomFilter.bitPositions, hb, if_neg hp,
    Option.some.injEq, List.all_eq_true, List.forall_mem_map, List.mem_range, h.marked]

-- With whole bytes of bits, the rebuilt filter looks at the bits that have been set.
theorem marked_of_dvd (hd : 8 ∣ filter.numBits) (hk : key ∈ keys)
    (hi : i < filter.numHashes.toNat) :
    filter.Marked keys (bitPos (hashPair key) filter.wholeBits i) := by
  have hw : filter.wholeBits = filter.numBits := by
    rw [wholeBits]
    omega
  refine .inr ⟨key, hk, ?_⟩
  rw [hw, bitPositions]
  exact List.mem_map_of_mem (List.mem_range.mpr hi)

-- The bytes of a filter do not tell its number of bits. What has been inserted is found again if
-- the positions for the rounded number of bits happen to be set, and always if it is a multiple
-- of 8.
theorem fromBytes_reports_iff (filter : BloomFilter) (keys : List Bytes)
    (hn : 0 < filter.numBits) :
    ∃ filter', filter.insertAll keys = some filter' ∧
      ((∀ key ∈ keys,
          (fromBytes filter'.toBytes filter'.numHashes).mayContain key = some true) ↔
        ∀ key ∈ keys, ∀ i < filter.numHashes.toNat,
          filter.Marked keys (bitPos (hashPair key) filter.wholeBits i)) ∧
      (8 ∣ filter.numBits → ∀ key ∈ keys,
        (fromBytes filter'.toBytes filter'.numHashes).mayContain key = some true) := by
  obtain ⟨filter', h⟩ := exists_insertAll hn keys
  have hi := insertAll_inserts h
  refine ⟨filter', h, ?_, ?_⟩
  · rw [numHashes_of_insertAll h]
    exact forall₂_congr fun key _ => hi.mayContain_fromBytes_iff hn _ key
  · intro hd key hk
    rw [numHashes_of_insertAll h, hi.mayContain_fromBytes_iff hn]
    exact fun i => marked_of_dvd hd hk

-- `BloomFilter::new(100, 0.01)` has these sizes, and `hello` is inserted.
theorem fromBytes_misses_hello :
    (do
      let filter ← (new 959 7).insertAll [[104, 101, 108, 108, 111]]
      (fromBytes filter.toBytes filter.numHashes).mayContain [104, 101, 108, 108, 111]) =
        some false := by
  decide +kernel

theorem fromBytes_reports_hello :
    ∃ filter', (new 960 7).insertAll [[104, 101, 108, 108, 111]] = some filter' ∧
      (fromBytes filter'.toBytes filter'.numHashes).mayContain [104, 101, 108, 108, 111] =
        some true := by
  obtain ⟨filter', h, -, hd⟩ :=
    fromBytes_reports_iff (new 960 7) [[104, 101, 108, 108, 111]] (by decide)
  exact ⟨filter', h, hd (by decide) _ (List.mem_singleton_self _)⟩

end BloomFilter

end Coprocessor
