import OxigraphCloud.Coprocessor.Regions
import OxigraphCloud.Primitives.Except

-- What the decoders make of the messages that the encoders build.
namespace Coprocessor

theorem OpType.fromByte_toByte (op : OpType) : fromByte op.toByte = some op := by
  cases op <;> rfl

-- The filter follows the key, whose length is sent in two bytes.
theorem decodeRequest_encodeRequest (req : CoprocessorRequest) :
    decodeRequest (encodeRequest req) = .ok {
      opType      := req.opType
      tablePrefix := req.tablePrefix
      keyPrefix   := req.keyPrefix.take (req.keyPrefix.length % 2 ^ 16)
      bloomFilter :=
        let sent := req.keyPrefix.drop (req.keyPrefix.length % 2 ^ 16) ++ req.bloomFilter.getD []
        if sent.isEmpty then none else some sent
    } := by
  obtain ⟨op, tablePrefix, keyPrefix, bloomFilter⟩ := req
  have hl := Bytes.ofBe_toBe 2 keyPrefix.length
  have hm : keyPrefix.length % 2 ^ 16 ≤ keyPrefix.length := Nat.mod_le ..
  have hb : Bytes.ofBe [UInt8.ofNat (keyPrefix.length / 256), UInt8.ofNat keyPrefix.length] =
      keyPrefix.length % 2 ^ 16 := hl
  simp only [encodeRequest, Bytes.toBe, List.nil_append, List.cons_append, decodeRequest,
    OpType.fromByte_toByte, hb]
  generalize bloomFilter.getD [] = bloomBytes
  have ht : (keyPrefix ++ bloomBytes).take (keyPrefix.length % 2 ^ 16) =
      keyPrefix.take (keyPrefix.length % 2 ^ 16) := List.take_append_of_le_length hm
  have hd : (keyPrefix ++ bloomBytes).drop (keyPrefix.length % 2 ^ 16) =
      keyPrefix.drop (keyPrefix.length % 2 ^ 16) ++ bloomBytes := List.drop_append_of_le_length hm
  have he : (keyPrefix.length % 2 ^ 16 < (keyPrefix ++ bloomBytes).length) ↔
      ¬(keyPrefix.drop (keyPrefix.length % 2 ^ 16) ++ bloomBytes).isEmpty := by
    rw [List.isEmpty_iff_length_eq_zero, ← hd, List.length_drop]
    omega
  have hn : ¬(keyPrefix ++ bloomBytes).length < keyPrefix.length % 2 ^ 16 := by
    simp only [List.length_append]; omega
  simp only [hn, if_false, ht, hd, he, ite_not]
  rfl

theorem take_length_mod_eq_iff {field : Bytes} (hn : 0 < n) :
    field.take (field.length % n) = field ↔ field.length < n := by
  rw [List.take_eq_self_iff]
  constructor
  · intro h
    exact h.trans_lt (Nat.mod_lt _ hn)
  · intro h
    rw [Nat.mod_eq_of_lt h]

-- An empty filter is sent like none at all.
theorem decodeRequest_eq_iff (req : CoprocessorRequest) :
    decodeRequest (encodeRequest req) = .ok req ↔
      req.keyPrefix.length < 2 ^ 16 ∧ req.bloomFilter ≠ some [] := by
  rw [decodeRequest_encodeRequest, Except.ok.injEq]
  obtain ⟨op, tablePrefix, keyPrefix, bloomFilter⟩ := req
  simp only [CoprocessorRequest.mk.injEq, true_and, take_length_mod_eq_iff (n := 2 ^ 16) (by simp)]
  refine and_congr_right fun hl => ?_
  rw [Nat.mod_eq_of_lt hl, List.drop_length, List.nil_append]
  cases bloomFilter
  case none => simp
  case some bloomBytes => cases bloomBytes <;> simp

theorem ofBe_lt (bs : Bytes) : Bytes.ofBe bs < 256 ^ bs.length := by
  rw [← Bytes.toBe_ofBe bs, Bytes.ofBe_toBe, Bytes.length_toBe]
  exact Nat.mod_lt _ (by positivity)

theorem splitBytes_append (h : a.length = n) : splitBytes n e (a ++ b) = .ok (a, b) := by
  subst h
  simp [splitBytes, pure, Except.pure]

theorem splitBytes_eq_ok_iff :
    splitBytes n e data = .ok (a, b) ↔ a.length = n ∧ data = a ++ b := by
  constructor
  case mp =>
    intro h
    unfold splitBytes at h
    split at h
    case isTrue => cases h
    case isFalse hn =>
      cases h
      exact ⟨by simp; omega, (List.take_append_drop ..).symm⟩
  case mpr =>
    rintro ⟨h, rfl⟩
    exact splitBytes_append h

-- The lengths of the key and the value are not cut.
structure Fits (pair : KvPair) : Prop where
  key   : pair.1.length < 2 ^ 16
  value : pair.2.length < 2 ^ 32

def encodePair (pair : KvPair) : Bytes :=
  Bytes.toBe 2 pair.1.length ++ pair.1 ++ Bytes.toBe 4 pair.2.length ++ pair.2

theorem decodePair_encodePair (h : Fits pair) (rest : Bytes) :
    decodePair (encodePair pair ++ rest) = .ok (pair, rest) := by
  have hk : Bytes.ofBe (Bytes.toBe 2 pair.1.length) = pair.1.length :=
    (Bytes.ofBe_toBe ..).trans <| Nat.mod_eq_of_lt h.key
  have hv : Bytes.ofBe (Bytes.toBe 4 pair.2.length) = pair.2.length :=
    (Bytes.ofBe_toBe ..).trans <| Nat.mod_eq_of_lt h.value
  simp only [decodePair, encodePair, List.append_assoc, splitBytes_append, Bytes.length_toBe, hk,
    hv, bind, Except.bind, pure, Except.pure]

theorem fits_of_decodePair (h : decodePair body = .ok (pair, rest)) : Fits pair := by
  obtain ⟨⟨keyLen, _⟩, h₁, h⟩ := Except.exists_of_bind_eq_ok h
  obtain ⟨⟨key, _⟩, h₂, h⟩ := Except.exists_of_bind_eq_ok h
  obtain ⟨⟨valLen, _⟩, h₃, h⟩ := Except.exists_of_bind_eq_ok h
  obtain ⟨⟨value, _⟩, h₄, h⟩ := Except.exists_of_bind_eq_ok h
  cases h
  have hk : key.length = Bytes.ofBe keyLen := (splitBytes_eq_ok_iff.mp h₂).1
  have hv : value.length = Bytes.ofBe valLen := (splitBytes_eq_ok_iff.mp h₄).1
  have hkl := ofBe_lt keyLen
  have hvl := ofBe_lt valLen
  rw [(splitBytes_eq_ok_iff.mp h₁).1] at hkl
  rw [(splitBytes_eq_ok_iff.mp h₃).1] at hvl
  exact ⟨hk ▸ hkl, hv ▸ hvl⟩

theorem decodePairs_flatMap {pairs : List KvPair} (h : ∀ pair ∈ pairs, Fits pair) :
    decodePairs pairs.length (pairs.flatMap encodePair) = .ok pairs := by
  induction pairs
  case nil => rfl
  case cons hi =>
    obtain ⟨h₁, h₂⟩ := List.forall_mem_cons.mp h
    simp only [List.length_cons, List.flatMap_cons, decodePairs, decodePair_encodePair h₁, hi h₂,
      bind, Except.bind, pure, Except.pure]

theorem decodePairs_spec (h : decodePairs count body = .ok pairs) :
    pairs.length = count ∧ ∀ pair ∈ pairs, Fits pair := by
  induction count generalizing body pairs
  case zero =>
    cases h
    exact ⟨rfl, fun _ h => by cases h⟩
  case succ hi =>
    obtain ⟨_, h₁, h⟩ := Except.exists_of_bind_eq_ok h
    obtain ⟨_, h₂, h⟩ := Except.exists_of_bind_eq_ok h
    cases h
    obtain ⟨hl, hf⟩ := hi h₂
    exact ⟨congrArg Nat.succ hl, List.forall_mem_cons.mpr ⟨fits_of_decodePair h₁, hf⟩⟩

-- The header of a response.
theorem splitBytes_header (a b : ℕ) (body : Bytes) :
    splitBytes 16 e (Bytes.toBe 8 a ++ Bytes.toBe 8 b ++ body) =
      .ok (Bytes.toBe 8 a ++ Bytes.toBe 8 b, body) :=
  splitBytes_append (by simp)

theorem drop_header (a b : ℕ) :
    Bytes.ofBe ((Bytes.toBe 8 a ++ Bytes.toBe 8 b).drop 8) = b % 2 ^ 64 := by
  rw [List.drop_left' (Bytes.length_toBe ..)]
  exact Bytes.ofBe_toBe 8 b

theorem take_header (a b : ℕ) :
    Bytes.ofBe ((Bytes.toBe 8 a ++ Bytes.toBe 8 b).take 8) = a % 2 ^ 64 := by
  rw [List.take_left' (Bytes.length_toBe ..)]
  exact Bytes.ofBe_toBe 8 a

theorem decodeScanResponse_encodeScanResponse (scannedKeys : ℕ) (pairs : List KvPair) :
    decodeScanResponse (encodeScanResponse scannedKeys pairs) =
      (decodePairs (pairs.length % 2 ^ 64) (pairs.flatMap encodePair)).map
        fun pairs => (scannedKeys % 2 ^ 64, pairs) := by
  have he : encodeScanResponse scannedKeys pairs =
    Bytes.toBe 8 scannedKeys ++ Bytes.toBe 8 pairs.length ++ pairs.flatMap encodePair := rfl
  rw [he, decodeScanResponse, splitBytes_header]
  simp only [bind, Except.bind, drop_header, take_header]
  cases decodePairs (pairs.length % 2 ^ 64) (pairs.flatMap encodePair) <;> rfl

theorem decodeScanResponse_eq (scannedKeys : ℕ) (pairs : List KvPair) :
    (decodeScanResponse (encodeScanResponse scannedKeys pairs)).map Prod.snd =
      decodePairs (pairs.length % 2 ^ 64) (pairs.flatMap encodePair) := by
  rw [decodeScanResponse_encodeScanResponse]
  cases decodePairs (pairs.length % 2 ^ 64) (pairs.flatMap encodePair) <;> rfl

theorem decodeScanResponse_eq_iff (scannedKeys : UInt64) (pairs : List KvPair) :
    decodeScanResponse (encodeScanResponse scannedKeys.toNat pairs) =
        .ok (scannedKeys.toNat, pairs) ↔
      pairs.length < 2 ^ 64 ∧ ∀ pair ∈ pairs, Fits pair := by
  rw [decodeScanResponse_encodeScanResponse, Nat.mod_eq_of_lt scannedKeys.toNat_lt]
  constructor
  case mp =>
    cases hd : decodePairs (pairs.length % 2 ^ 64) (pairs.flatMap encodePair)
    case error =>
      intro h
      cases h
    case ok pairs' =>
      intro h
      obtain rfl : pairs' = pairs := (Prod.mk.inj (Except.ok.inj h)).2
      obtain ⟨hl, hf⟩ := decodePairs_spec hd
      exact ⟨hl ▸ Nat.mod_lt _ (by simp), hf⟩
  case mpr =>
    rintro ⟨hl, hf⟩
    rw [Nat.mod_eq_of_lt hl, decodePairs_flatMap hf]
    rfl

-- What is sent arrives if all lengths fit into their fields and the filter of a request is not
-- empty.
theorem roundTrip_iff (req : CoprocessorRequest) (scannedKeys : UInt64) (pairs : List KvPair) :
    (decodeRequest (encodeRequest req) = .ok req ↔
      req.keyPrefix.length < 2 ^ 16 ∧ req.bloomFilter ≠ some []) ∧
    (decodeScanResponse (encodeScanResponse scannedKeys.toNat pairs) =
        .ok (scannedKeys.toNat, pairs) ↔
      pairs.length < 2 ^ 64 ∧
        ∀ pair ∈ pairs, pair.1.length < 2 ^ 16 ∧ pair.2.length < 2 ^ 32) := by
  refine ⟨decodeRequest_eq_iff req, ?_⟩
  rw [decodeScanResponse_eq_iff]
  exact and_congr_right fun _ => forall₂_congr fun _ _ =>
    ⟨fun h => ⟨h.key, h.value⟩, fun h => ⟨h.1, h.2⟩⟩

-- A request with an empty filter arrives without one, a key of 65536 bytes does not arrive at all.
theorem not_roundTrip :
    decodeRequest (encodeRequest ⟨.indexScan, 2, [], some []⟩) =
      .ok ⟨.indexScan, 2, [], none⟩ ∧
    decodeScanResponse (encodeScanResponse 1 [(List.replicate 65536 0, [])]) ≠
      .ok (1, [(List.replicate 65536 0, [])]) := by
  refine ⟨by decide, fun h => ?_⟩
  have hf := (decodeScanResponse_eq_iff 1 [(List.replicate 65536 0, [])]).mp h
  have hk := (hf.2 _ (List.mem_singleton_self _)).key
  rw [List.length_replicate] at hk
  omega

end Coprocessor
