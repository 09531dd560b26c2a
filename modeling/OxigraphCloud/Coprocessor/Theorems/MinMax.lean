import OxigraphCloud.Coprocessor.Theorems.Aggregate
import OxigraphCloud.Objects.Theorems.BinaryEncoder

-- The order of index keys on integer objects.
namespace Bytes

theorem append_lt_append {a b : Bytes} (h : a < b) (hl : a.length = b.length) (x y : Bytes) :
    a ++ x < b ++ y := by
  induction a generalizing b
  case nil =>
    obtain rfl : b = [] := List.length_eq_zero_iff.mp hl.symm
    exact absurd h (lt_irrefl _)
  case cons c a hi =>
    rcases b with _ | ⟨d, b⟩
    case nil => exact absurd h not_lt_nil
    case cons =>
      rw [List.cons_append, List.cons_append, List.cons_lt_cons_iff]
      rw [List.cons_lt_cons_iff] at h
      exact h.imp_right fun ⟨hc, h⟩ => ⟨hc, hi h (by simpa using hl)⟩

theorem append_lt_append_left {a b : Bytes} (h : a < b) (p : Bytes) : p ++ a < p ++ b := by
  induction p
  case nil => exact h
  case cons hi => exact List.cons_lt_cons_iff.mpr <| .inr ⟨rfl, hi⟩

-- Big-endian numbers of one width are ordered by their values.
theorem toBe_lt_toBe (hn : n < m) (hm : m < 256 ^ w) : toBe w n < toBe w m := by
  induction w generalizing n m
  case zero => omega
  case succ w hi =>
    rw [pow_succ] at hm
    rw [toBe, toBe]
    rcases (by omega : n / 256 < m / 256 ∨ n / 256 = m / 256) with h | h
    case inl => exact append_lt_append (hi h (by omega)) (by simp) _ _
    case inr =>
      rw [h]
      apply append_lt_append_left
      rw [List.cons_lt_cons_iff, UInt8.lt_iff_toNat_lt, UInt8.toNat_ofNat', UInt8.toNat_ofNat']
      omega

end Bytes

namespace Coprocessor

-- The object of the quad whose key has been returned.
def objectIn (e : QuadEncoding) (key : Bytes) : Option EncodedTerm :=
  (e.decode (key.drop 1)).toOption.map (·.object)

-- The objects as numbers.
def integers (quads : List EncodedQuad) : Set ℤ :=
  {x | ∃ q ∈ quads, ∃ v, q.object = .integerLiteral v ∧ v.toInt = x}

-- The keys that are returned hold the minimum and the maximum of the objects.
def HoldsMinMax (e : QuadEncoding) (quads : List EncodedQuad) (result : MinMaxResult) : Prop :=
  ∃ minKey maxKey lo hi, result.minKey = some minKey ∧ result.maxKey = some maxKey ∧
    objectIn e minKey = some (.integerLiteral lo) ∧ objectIn e maxKey = some (.integerLiteral hi) ∧
    IsLeast (integers quads) lo.toInt ∧ IsGreatest (integers quads) hi.toInt

-- The keys in an index are ordered by the integers without their sign.
theorem writer_lt_writer {e : QuadEncoding} {q q' : EncodedQuad} (he : e = .posg ∨ e = .dpos)
    (hp : q.predicate = q'.predicate) (hv : q.object = .integerLiteral v)
    (hv' : q'.object = .integerLiteral v') (h : v.toNat < v'.toNat) : e.writer q < e.writer q' := by
  have hlt : writeTerm (.integerLiteral v) < writeTerm (.integerLiteral v') :=
    List.cons_lt_cons_iff.mpr <| .inr ⟨rfl, Bytes.toBe_lt_toBe h v'.isLt⟩
  have hlen : (writeTerm (.integerLiteral v)).length = (writeTerm (.integerLiteral v')).length := by
    simp [writeTerm]
  rcases he with rfl | rfl
  all_goals
    rw [QuadEncoding.writer_eq]
    simp only [writeQuad, QuadEncoding.positions, List.flatMap_cons, EncodedQuad.term, hp, hv, hv']
    exact Bytes.append_lt_append_left (Bytes.append_lt_append hlt hlen _ _) _

section

variable {quads : List EncodedQuad} {pairs : List KvPair} {t : UInt8} {p : EncodedTerm}
  {e : QuadEncoding}

-- A region that holds the quads of a predicate, all with integers as objects, among other keys.
structure IntegerRegion (e : QuadEncoding) (t : UInt8) (p : EncodedTerm) (quads : List EncodedQuad)
    (pairs : List KvPair) : Prop where
  indexes   : ∀ q ∈ quads, e.Indexes q
  predicate : ∀ q ∈ quads, q.predicate = p
  object    : ∀ q ∈ quads, ∃ v, q.object = .integerLiteral v
  keys      : ∀ key, (∃ value, (key, value) ∈ matching t (writeTerm p) pairs) ↔
    ∃ q ∈ quads, key = t :: e.writer q

theorem IntegerRegion.objectIn (h : IntegerRegion e t p quads pairs) (hq : q ∈ quads)
    (hv : q.object = .integerLiteral v) :
    objectIn e (t :: e.writer q) = some (.integerLiteral v) := by
  rw [Coprocessor.objectIn, List.drop_one, List.tail_cons, (h.indexes q hq).decode_writer]
  simp [Except.toOption, EncodedQuad.canonical, hv, EncodedTerm.canonical]

-- A key that is not after another one does not hold a larger number, read without a sign.
theorem IntegerRegion.toNat_le (h : IntegerRegion e t p quads pairs) (he : e = .posg ∨ e = .dpos)
    (hq : q ∈ quads) (hq' : q' ∈ quads) (hv : q.object = .integerLiteral v)
    (hv' : q'.object = .integerLiteral v') (hk : t :: e.writer q ≤ t :: e.writer q') :
    v.toNat ≤ v'.toNat := by
  by_contra hlt
  have hp : q'.predicate = q.predicate := (h.predicate q' hq').trans (h.predicate q hq).symm
  have hw := writer_lt_writer he hp hv' hv (not_le.mp hlt)
  exact absurd hk <| not_le.mpr <| List.cons_lt_cons_iff.mpr <| .inr ⟨rfl, hw⟩

-- The keys that are found are those of the least and the greatest number, read without a sign.
theorem IntegerRegion.minMax (h : IntegerRegion e t p quads pairs) (he : e = .posg ∨ e = .dpos)
    (hne : quads ≠ []) :
    ∃ q₁ ∈ quads, ∃ q₂ ∈ quads, ∃ lo hi,
      q₁.object = .integerLiteral lo ∧ q₂.object = .integerLiteral hi ∧
      (executeMinMax t (writeTerm p) pairs).minKey = some (t :: e.writer q₁) ∧
      (executeMinMax t (writeTerm p) pairs).maxKey = some (t :: e.writer q₂) ∧
      ∀ q ∈ quads, ∀ v, q.object = .integerLiteral v →
        lo.toNat ≤ v.toNat ∧ v.toNat ≤ hi.toNat := by
  have ⟨q₀, hq₀⟩ := List.exists_mem_of_ne_nil _ hne
  have ⟨hmin, hmax⟩ : (executeMinMax t (writeTerm p) pairs).Spans _ := executeMinMax_spans
  rcases hl : (executeMinMax t (writeTerm p) pairs).minKey with _ | k₁
  all_goals rw [hl] at hmin
  case none =>
    have hm : t :: e.writer q₀ ∈ (∅ : Set Bytes) := hmin ▸ (h.keys _).mpr ⟨q₀, hq₀, rfl⟩
    exact absurd hm <| Set.notMem_empty _
  rcases hg : (executeMinMax t (writeTerm p) pairs).maxKey with _ | k₂
  all_goals rw [hg] at hmax
  case none =>
    have hm : t :: e.writer q₀ ∈ (∅ : Set Bytes) := hmax ▸ (h.keys _).mpr ⟨q₀, hq₀, rfl⟩
    exact absurd hm <| Set.notMem_empty _
  obtain ⟨q₁, hq₁, rfl⟩ := (h.keys _).mp hmin.1
  obtain ⟨q₂, hq₂, rfl⟩ := (h.keys _).mp hmax.1
  have ⟨lo, hlo⟩ := h.object q₁ hq₁
  have ⟨hi, hhi⟩ := h.object q₂ hq₂
  refine ⟨q₁, hq₁, q₂, hq₂, lo, hi, hlo, hhi, rfl, rfl, fun q hq v hv => ⟨?_, ?_⟩⟩
  · exact h.toNat_le he hq₁ hq hlo hv <| hmin.2 _ <| (h.keys _).mpr ⟨q, hq, rfl⟩
  · exact h.toNat_le he hq hq₂ hv hhi <| hmax.2 _ <| (h.keys _).mpr ⟨q, hq, rfl⟩

theorem holdsMinMax_iff (h : IntegerRegion e t p quads pairs) (he : e = .posg ∨ e = .dpos)
    (hne : quads ≠ []) :
    HoldsMinMax e quads (executeMinMax t (writeTerm p) pairs) ↔
      (∀ x ∈ integers quads, 0 ≤ x) ∨ ∀ x ∈ integers quads, x < 0 := by
  have ⟨q₁, hq₁, q₂, hq₂, lo, hi, hlo, hhi, hmin, hmax, hb⟩ := h.minMax he hne
  constructor
  case mp =>
    intro ⟨k₁, k₂, lo', hi', hk₁, hk₂, ho₁, ho₂, hl, hg⟩
    rw [hmin, Option.some_inj] at hk₁
    subst hk₁
    rw [h.objectIn hq₁ hlo] at ho₁
    cases ho₁
    -- The least number has a sign if and only if there is one that has.
    by_contra hn
    simp only [not_or, not_forall, not_le, not_lt] at hn
    have ⟨⟨x, hx, hneg⟩, ⟨y, ⟨q, hq, v, hv, hy⟩, hpos⟩⟩ := hn
    have hle := hl.2 hx
    have hv := (hb q hq v hv).1
    have hl := BitVec.toInt_eq_toNat_cond lo
    have hv := BitVec.toInt_eq_toNat_cond v
    have := lo.isLt
    split at hl <;> split at hv <;> omega
  case mpr =>
    intro hs
    have hm₁ : lo.toInt ∈ integers quads := ⟨q₁, hq₁, lo, hlo, rfl⟩
    have hm₂ : hi.toInt ∈ integers quads := ⟨q₂, hq₂, hi, hhi, rfl⟩
    -- Numbers with the same sign are ordered in the same way with and without it.
    have hcmp {a b : BitVec 64} (ha : a.toInt ∈ integers quads) (hb : b.toInt ∈ integers quads)
        (hab : a.toNat ≤ b.toNat) : a.toInt ≤ b.toInt := by
      have h₁ := BitVec.toInt_eq_toNat_cond a
      have h₂ := BitVec.toInt_eq_toNat_cond b
      have := b.isLt
      rcases hs with hs | hs
      all_goals
        have := hs _ ha
        have := hs _ hb
        split at h₁ <;> split at h₂ <;> omega
    refine ⟨_, _, lo, hi, hmin, hmax, h.objectIn hq₁ hlo, h.objectIn hq₂ hhi, ⟨hm₁, ?_⟩, hm₂, ?_⟩
    · intro x ⟨q, hq, v, hv, hx⟩
      subst hx
      exact hcmp hm₁ ⟨q, hq, v, hv, rfl⟩ (hb q hq v hv).1
    · intro x ⟨q, hq, v, hv, hx⟩
      subst hx
      exact hcmp ⟨q, hq, v, hv, rfl⟩ hm₂ (hb q hq v hv).2

-- Regions that hold nothing else.
theorem IntegerRegion.of_writer (he : e = .posg ∨ e = .dpos) (hi : ∀ q ∈ quads, e.Indexes q)
    (hp : ∀ q ∈ quads, q.predicate = p) (ho : ∀ q ∈ quads, ∃ v, q.object = .integerLiteral v) :
    IntegerRegion e t p quads (quads.map fun q => (t :: e.writer q, [])) where
  indexes   := hi
  predicate := hp
  object    := ho
  keys key  := by
    simp only [mem_matching, List.mem_map, Prod.mk.injEq]
    constructor
    case mp =>
      rintro ⟨_, ⟨q, hq, hk, -⟩, -⟩
      exact ⟨q, hq, hk.symm⟩
    case mpr =>
      rintro ⟨q, hq, rfl⟩
      refine ⟨[], ⟨q, hq, rfl, rfl⟩, (List.cons_prefix_cons).mpr ⟨rfl, ?_⟩⟩
      have hp := hp q hq
      rcases he with rfl | rfl
      all_goals
        rw [QuadEncoding.writer_eq]
        simp only [writeQuad, QuadEncoding.positions, List.flatMap_cons, EncodedQuad.term, hp]
        exact List.prefix_append ..

end

-- A quad of the default graph whose object is an integer, and the index entries of several ones.
def score (v : BitVec 64) : EncodedQuad where
  subject   := .namedNode ⟨⟨.replicate 16 1, rfl⟩⟩
  predicate := .namedNode ⟨⟨.replicate 16 2, rfl⟩⟩
  object    := .integerLiteral v
  graphName := .defaultGraph

def scores (values : List (BitVec 64)) : List KvPair :=
  (values.map score).map fun q => (9 :: QuadEncoding.dpos.writer q, [])

theorem score_indexes (v : BitVec 64) : QuadEncoding.dpos.Indexes (score v) where
  isQuad := ⟨by simp [score, EncodedTerm.IsTerm], by simp [score, EncodedTerm.IsTerm],
    by simp [score, EncodedTerm.IsTerm], fun h => absurd rfl h⟩
  graph  := iff_of_true rfl rfl

theorem score_integerRegion (values : List (BitVec 64)) :
    IntegerRegion .dpos 9 (score 0).predicate (values.map score) (scores values) := by
  apply IntegerRegion.of_writer (.inr rfl)
  all_goals
    intro q hq
    have ⟨v, _, hv⟩ := List.mem_map.mp hq
    subst hv
  · exact score_indexes v
  · rfl
  · exact ⟨v, rfl⟩

theorem mem_integers_score {values : List (BitVec 64)} :
    x ∈ integers (values.map score) ↔ ∃ v ∈ values, v.toInt = x := by
  simp [integers, score]

theorem holdsMinMax_positive :
    HoldsMinMax .dpos ([1, 2].map score)
      (executeMinMax 9 (writeTerm (score 0).predicate) (scores [1, 2])) := by
  apply (holdsMinMax_iff (score_integerRegion [1, 2]) (.inr rfl) (by decide)).mpr
  left
  intro x hx
  have ⟨v, hv, hx⟩ := mem_integers_score.mp hx
  fin_cases hv <;> subst hx <;> decide

-- The least key is that of 1, since the encoding of -1 starts with a byte that is larger.
theorem not_holdsMinMax_signs :
    IntegerRegion .dpos 9 (score 0).predicate ([-1, 1].map score) (scores [-1, 1]) ∧
    ¬HoldsMinMax .dpos ([-1, 1].map score)
      (executeMinMax 9 (writeTerm (score 0).predicate) (scores [-1, 1])) := by
  refine ⟨score_integerRegion [-1, 1], ?_⟩
  intro ⟨k₁, k₂, lo, hi, hk₁, _, ho, _, hl, _⟩
  have hk : (executeMinMax 9 (writeTerm (score 0).predicate) (scores [-1, 1])).minKey =
      some (9 :: QuadEncoding.dpos.writer (score 1)) := by decide
  have hd : objectIn .dpos (9 :: QuadEncoding.dpos.writer (score 1)) =
      some (.integerLiteral 1) := by decide
  rw [hk, Option.some_inj] at hk₁
  subst hk₁
  rw [hd] at ho
  cases ho
  have h := hl.2 <| mem_integers_score.mpr ⟨-1, by decide, rfl⟩
  exact absurd h (by decide)

end Coprocessor
