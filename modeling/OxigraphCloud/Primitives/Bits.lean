import OxigraphCloud.Primitives.Bytes

-- Sets of bit positions that are kept as byte strings, eight positions in a byte, and the hash
-- function SipHash-2-4. Nothing in here is specific to RDF storage.
namespace Bytes

def mask (position : ℕ) : UInt8 := 1 <<< UInt8.ofNat (position % 8)

def testBit (bytes : Bytes) (position : ℕ) : Bool :=
  (bytes[position / 8]?.getD 0) &&& mask position ≠ 0

def setBit (bytes : Bytes) (position : ℕ) : Bytes :=
  bytes.modify (position / 8) (· ||| mask position)

theorem toBitVec_mask : (mask position).toBitVec = BitVec.twoPow 8 (position % 8) := by
  have h : position % 8 < 8 := Nat.mod_lt _ (by decide)
  unfold mask
  generalize position % 8 = k at h
  interval_cases k <;> rfl

theorem and_mask_ne_zero_iff {b : UInt8} :
    b &&& mask position ≠ 0 ↔ b.toBitVec.getLsbD (position % 8) := by
  have h : position % 8 < 8 := Nat.mod_lt _ (by decide)
  have ht : BitVec.twoPow 8 (position % 8) ≠ 0 := by
    generalize position % 8 = k at h
    interval_cases k <;> decide
  rw [Ne, ← UInt8.toBitVec_inj, UInt8.toBitVec_and, toBitVec_mask, BitVec.and_twoPow]
  cases b.toBitVec.getLsbD (position % 8) <;> simp_all

theorem testBit_eq {bytes : Bytes} :
    bytes.testBit position = (bytes[position / 8]?.getD 0).toBitVec.getLsbD (position % 8) := by
  rw [Bool.eq_iff_iff, ← and_mask_ne_zero_iff, testBit, decide_eq_true_iff]

@[simp]
theorem testBit_nil : testBit [] position = false := by
  simp [testBit]

theorem testBit_of_length_le {bytes : Bytes} (h : 8 * bytes.length ≤ position) :
    bytes.testBit position = false := by
  have : bytes.length ≤ position / 8 := by omega
  simp [testBit, List.getElem?_eq_none this]

theorem testBit_append {bytes rest : Bytes} :
    (bytes ++ rest).testBit position =
      (bytes.testBit position ||
        decide (8 * bytes.length ≤ position) && rest.testBit (position - 8 * bytes.length)) := by
  rcases lt_or_ge position (8 * bytes.length)
  case inl h =>
    have : position / 8 < bytes.length := by omega
    simp [testBit, List.getElem?_append_left this, not_le.mpr h]
  case inr h =>
    have h₁ : bytes.length ≤ position / 8 := by omega
    have h₂ : (position - 8 * bytes.length) / 8 = position / 8 - bytes.length := by omega
    have h₃ : (position - 8 * bytes.length) % 8 = position % 8 := by omega
    rw [testBit_of_length_le h, testBit_eq, testBit_eq, List.getElem?_append_right h₁, h₂, h₃]
    simp [h]

@[simp]
theorem length_setBit {bytes : Bytes} : (bytes.setBit position).length = bytes.length := by
  simp [setBit]

theorem getLsbD_mask {k : ℕ} (h : k < 8) :
    (mask position).toBitVec.getLsbD k = decide (k = position % 8) := by
  rw [toBitVec_mask, BitVec.getLsbD_twoPow]
  simp [eq_comm]
  omega

theorem testBit_setBit {bytes : Bytes} (h : position < 8 * bytes.length) :
    (bytes.setBit position).testBit p = true ↔ p = position ∨ bytes.testBit p = true := by
  have hp : p % 8 < 8 := Nat.mod_lt _ (by decide)
  simp only [testBit_eq, setBit, List.getElem?_modify]
  rcases eq_or_ne (position / 8) (p / 8)
  case inl he =>
    have hl : p / 8 < bytes.length := by omega
    have hi : p = position ↔ p % 8 = position % 8 := by omega
    simp [he, hl, getLsbD_mask hp, hi, or_comm]
  case inr he =>
    have hi : p ≠ position := fun h => he (h ▸ rfl)
    simp [he, hi]

theorem testBit_foldl_setBit {positions : List ℕ} {bytes : Bytes}
    (h : ∀ p ∈ positions, p < 8 * bytes.length) :
    (positions.foldl setBit bytes).testBit p = true ↔ p ∈ positions ∨ bytes.testBit p = true := by
  induction positions generalizing bytes
  case nil => simp
  case cons position positions hi =>
    have ⟨h₁, h₂⟩ := List.forall_mem_cons.mp h
    rw [List.foldl_cons, hi (by simpa using h₂), testBit_setBit h₁, List.mem_cons]
    tauto

@[simp]
theorem length_foldl_setBit {positions : List ℕ} {bytes : Bytes} :
    (positions.foldl setBit bytes).length = bytes.length := by
  induction positions generalizing bytes <;> simp_all

end Bytes

namespace SipHash

structure State where
  v0 : BitVec 64
  v1 : BitVec 64
  v2 : BitVec 64
  v3 : BitVec 64

namespace State

def init (k0 k1 : BitVec 64) : State where
  v0 := k0 ^^^ 0x736f6d6570736575
  v1 := k1 ^^^ 0x646f72616e646f6d
  v2 := k0 ^^^ 0x6c7967656e657261
  v3 := k1 ^^^ 0x7465646279746573

def round (s : State) : State :=
  let v0 := s.v0 + s.v1
  let v1 := s.v1.rotateLeft 13 ^^^ v0
  let v0 := v0.rotateLeft 32
  let v2 := s.v2 + s.v3
  let v3 := s.v3.rotateLeft 16 ^^^ v2
  let v0 := v0 + v3
  let v3 := v3.rotateLeft 21 ^^^ v0
  let v2 := v2 + v1
  let v1 := v1.rotateLeft 17 ^^^ v2
  let v2 := v2.rotateLeft 32
  ⟨v0, v1, v2, v3⟩

def absorb (s : State) (m : BitVec 64) : State :=
  let s := round (round { s with v3 := s.v3 ^^^ m })
  { s with v0 := s.v0 ^^^ m }

def finish (s : State) : BitVec 64 :=
  let s := round (round (round (round { s with v2 := s.v2 ^^^ 0xff })))
  s.v0 ^^^ s.v1 ^^^ s.v2 ^^^ s.v3

end State

def leWord (bytes : Bytes) : BitVec 64 :=
  .ofNat 64 (bytes.foldr (fun b n => 256 * n + b.toNat) 0)

-- The last word is made of the remaining bytes and of the length of the whole message.
def absorbAll (length : ℕ) (s : State) : Bytes → State
  | a :: b :: c :: d :: e :: f :: g :: h :: rest =>
    absorbAll length (s.absorb <| leWord [a, b, c, d, e, f, g, h]) rest
  | rest => s.absorb (leWord rest ||| BitVec.ofNat 64 length <<< (56 : ℕ))

def hash (k0 k1 : BitVec 64) (message : Bytes) : BitVec 64 :=
  (absorbAll message.length (.init k0 k1) message).finish

-- The test vector of the function's specification.
example : hash 0x0706050403020100 0x0f0e0d0c0b0a0908
    [0, 1, 2, 3, 4, 5, 6, 7, 8, 9, 10, 11, 12, 13, 14] = 0xa129ca6149be45e5 := by
  decide +kernel

end SipHash
