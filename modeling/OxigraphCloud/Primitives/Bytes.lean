import Mathlib

-- Byte strings, their lexicographic order and big-endian numbers. Nothing in here is specific to
-- RDF storage.

instance instLinearOrderUInt8 : LinearOrder UInt8 where
  le_refl _            := Nat.le_refl _
  le_trans _ _ _       := Nat.le_trans
  lt_iff_le_not_ge a b := by simp only [UInt8.le_iff_toNat_le, UInt8.lt_iff_toNat_lt]; omega
  le_antisymm _ _      := UInt8.le_antisymm
  le_total             := UInt8.le_total
  toDecidableLE        := inferInstance
  toDecidableEq        := inferInstance
  toDecidableLT        := inferInstance
  compare_eq_compareOfLessAndEq _ _ := rfl

abbrev Bytes := List UInt8

instance instTransCmpBytes : Std.TransCmp (@compare Bytes LinearOrder.toOrd) := inferInstance

namespace Bytes

theorem not_lt_nil {k : Bytes} : ¬k < [] := nofun

theorem cons_le_cons_iff {b c : UInt8} {p k : Bytes} :
    b :: p ≤ c :: k ↔ b < c ∨ b = c ∧ p ≤ k := by
  rw [le_iff_lt_or_eq, le_iff_lt_or_eq, List.cons_lt_cons_iff, List.cons.injEq]
  tauto

-- The first byte string (in lexicographic order) behind all extensions of `p`. There is none iff
-- `p` consists of `0xFF` only.
def next? : Bytes → Option Bytes
  | [] => none
  | b :: p =>
    match next? p with
    | some u => some (b :: u)
    | none   => if b < 0xFF then some [b + 1] else none

theorem next?_append_singleton {b : UInt8} :
    (p : Bytes) → next? (p ++ [b]) = if b < 0xFF then some (p ++ [b + 1]) else next? p
  | [] => by simp [next?]
  | c :: p => by
    by_cases h : b < 0xFF <;> simp [next?, next?_append_singleton p, h]

theorem lt_add_one_iff {b c : UInt8} (h : b < 0xFF) : c < b + 1 ↔ c ≤ b := by
  have hb : (b + 1).toNat = b.toNat + 1 := by
    have := UInt8.lt_iff_toNat_lt.mp h
    simp only [UInt8.reduceToNat] at this
    simp only [UInt8.toNat_add, UInt8.reduceToNat]
    omega
  rw [UInt8.lt_iff_toNat_lt, UInt8.le_iff_toNat_le, hb, Nat.lt_add_one_iff]

-- The extensions of `p` form an interval.
theorem prefix_iff_mem_range {p k : Bytes} : p <+: k ↔ p ≤ k ∧ ∀ u ∈ next? p, k < u := by
  induction p generalizing k
  case nil => simp [next?, not_lt.mp not_lt_nil]
  case cons b p hi =>
    cases k
    case nil => simp
    case cons c k =>
      rw [List.cons_prefix_cons, hi, cons_le_cons_iff, next?]
      cases next? p
      case some u =>
        simp only [Option.mem_def, Option.some.injEq, forall_eq', List.cons_lt_cons_iff]
        constructor
        · intro ⟨h, h₁, h₂⟩
          exact ⟨.inr ⟨h, h₁⟩, .inr ⟨h.symm, h₂⟩⟩
        · intro ⟨h₁, h₂⟩
          obtain rfl : b = c := by grind
          exact ⟨rfl, by simpa using h₁, by simpa using h₂⟩
      case none =>
        by_cases hb : b < 0xFF
        · simp only [hb, if_true, Option.mem_def, Option.some.injEq, forall_eq',
            List.cons_lt_cons_iff, lt_add_one_iff hb]
          grind [not_lt_nil]
        · have hc : ¬b < c := fun h => hb <| lt_of_lt_of_le h <| Nat.le_of_lt_succ c.toNat_lt
          simp [hb, hc]

theorem IsPrefix_le {p k : Bytes} (h : p <+: k) : p ≤ k :=
  prefix_iff_mem_range.mp h |>.left

-- Appending the smallest byte gives the next byte string in lexicographic order.
theorem append_zero_le_iff {k l : Bytes} : k ++ [0] ≤ l ↔ k < l := by
  induction k generalizing l <;> cases l
  case nil.nil => decide
  case nil.cons c l =>
    have h : (0 : UInt8) < c ∨ 0 = c := lt_or_eq_of_le UInt8.zero_le
    simp [cons_le_cons_iff, not_lt.mp not_lt_nil, h]
  case cons.nil => simp
  case cons.cons hi c l => simp [cons_le_cons_iff, List.cons_lt_cons_iff, hi]

section BigEndian

-- The low `w` bytes of a number, most significant byte first.
def toBe : ℕ → ℕ → Bytes
  | 0, _     => []
  | w + 1, n => toBe w (n / 256) ++ [UInt8.ofNat n]

def ofBe (bs : Bytes) : ℕ :=
  bs.foldl (fun n b => 256 * n + b.toNat) 0

@[simp]
theorem length_toBe : (w n : ℕ) → (toBe w n).length = w
  | 0, _     => rfl
  | w + 1, n => by simp [toBe, length_toBe w]

@[simp]
theorem ofBe_nil : ofBe [] = 0 := rfl

@[simp]
theorem ofBe_append_singleton : ofBe (bs ++ [b]) = 256 * ofBe bs + b.toNat := by
  simp [ofBe]

theorem ofBe_toBe : (w n : ℕ) → ofBe (toBe w n) = n % 256 ^ w
  | 0, n     => by simp [toBe, Nat.mod_one]
  | w + 1, n => by
    rw [toBe, ofBe_append_singleton, ofBe_toBe w, UInt8.toNat_ofNat', pow_succ' 256 w, Nat.mod_mul]
    omega

theorem toBe_ofBe (bs : Bytes) : toBe bs.length (ofBe bs) = bs := by
  induction bs using List.reverseRecOn
  case nil => rfl
  case append_singleton bs b hi =>
    have hd : (256 * ofBe bs + b.toNat) / 256 = ofBe bs := by have := b.toNat_lt; omega
    have hm : UInt8.ofNat (256 * ofBe bs + b.toNat) = b := by
      apply UInt8.toNat_inj.mp
      have := b.toNat_lt
      rw [UInt8.toNat_ofNat']
      omega
    rw [List.length_append, List.length_singleton, toBe, ofBe_append_singleton, hd, hm, hi]

def ofBitVec (w : ℕ) (x : BitVec (8 * w)) : Bytes :=
  toBe w x.toNat

def toBitVec (w : ℕ) (bs : Bytes) : BitVec (8 * w) :=
  .ofNat _ (ofBe bs)

@[simp]
theorem length_ofBitVec : (ofBitVec w x).length = w :=
  length_toBe ..

theorem toBitVec_ofBitVec (x : BitVec (8 * w)) : toBitVec w (ofBitVec w x) = x := by
  have h : (256 : ℕ) ^ w = 2 ^ (8 * w) := by rw [Nat.pow_mul]
  apply BitVec.eq_of_toNat_eq
  rw [toBitVec, ofBitVec, ofBe_toBe, h, BitVec.toNat_ofNat, Nat.mod_mod,
    Nat.mod_eq_of_lt x.isLt]

end BigEndian

end Bytes
