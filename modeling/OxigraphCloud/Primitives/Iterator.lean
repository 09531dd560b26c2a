import Mathlib

-- Pull iterators: a state `σ` and a function `next` which either gives an item or the end, and
-- the state to go on from. The state may contain whatever else the iterator depends on.

namespace Iter

variable {σ α ε : Type}

-- Pulling from `s` gives the items `l`, then the end, and leaves the iterator in state `s'`.
inductive Yields (next : σ → Option α × σ) : σ → List α → σ → Prop
  | done : (next s = (none, s')) → Yields next s [] s'
  | item : (next s = (some a, s₁)) → (Yields next s₁ l s') → Yields next s (a :: l) s'

-- A description of the items that an iterator still has to give: each `next` takes the first of
-- them. `valid` are the states for which the description is right.
structure Remaining (next : σ → Option α × σ) where
  valid : σ → Prop
  items : σ → List α
  head  : ∀ {s}, valid s → (next s).1 = (items s).head?
  tail  : ∀ {s}, valid s → valid (next s).2 ∧ items (next s).2 = (items s).tail

theorem Remaining.yields {next : σ → Option α × σ} (r : Remaining next) (h : r.valid s) :
    ∃ last, r.valid last ∧ r.items last = [] ∧ Yields next s (r.items s) (next last).2 := by
  generalize hl : r.items s = l
  induction l generalizing s
  case nil =>
    exact ⟨s, h, hl, .done <| Prod.ext (by simp [r.head h, hl]) rfl⟩
  case cons a l hi =>
    have ⟨hv, ht⟩ := r.tail h
    have ⟨last, hv', hn, hy⟩ := hi hv (by simp [ht, hl])
    exact ⟨last, hv', hn, .item (Prod.ext (by simp [r.head h, hl]) rfl) hy⟩

-- `.take(n).collect::<Result<Vec<_>, _>>()`: pulls at most `n` items and stops at the first error.
def takeCollect (next : σ → Option (Except ε α) × σ) : ℕ → σ → Except ε (List α) × σ
  | 0, s => (.ok [], s)
  | n + 1, s =>
    match next s with
    | (none, s')           => (.ok [], s')
    | (some (.error e), s') => (.error e, s')
    | (some (.ok a), s') =>
      match takeCollect next n s' with
      | (.ok l, s'')    => (.ok (a :: l), s'')
      | (.error e, s'') => (.error e, s'')

theorem Remaining.takeCollect_eq {next : σ → Option (Except ε α) × σ} (r : Remaining next)
    {l : List α} (h : r.valid s) (hl : r.items s = l.map .ok) :
    (takeCollect next n s).1 = .ok (l.take n) := by
  induction n generalizing s l
  case zero => simp [takeCollect]
  case succ n hi =>
    have hh := r.head h
    have ⟨hv, ht⟩ := r.tail h
    rcases hn : next s with ⟨o, s'⟩
    cases l <;> simp only [hn, hl, List.map_nil, List.map_cons, List.head?_nil, List.head?_cons,
      List.tail_cons] at hh hv ht <;> subst hh
    case nil =>
      simp [takeCollect, hn]
    case cons a l =>
      have hc : takeCollect next n s' = (.ok (l.take n), _) := Prod.ext (hi hv ht) rfl
      simp only [takeCollect, hn]
      rw [hc]
      simp

theorem Remaining.takeCollect_valid {next : σ → Option (Except ε α) × σ} (r : Remaining next)
    (h : r.valid s) : r.valid (takeCollect next n s).2 := by
  induction n generalizing s
  case zero => exact h
  case succ n hi =>
    have hv := (r.tail h).left
    rw [takeCollect]
    split <;> simp_all only
    have := hi hv
    split <;> simp_all only

theorem mapM_ok {l : List α} : (l.map (.ok : α → Except ε α)).mapM id = .ok l := by
  induction l
  case nil => rfl
  case cons a l hi => simp [List.mapM_cons, hi, bind, Except.bind, pure, Except.pure]

-- The items are the elements of `S`, each of them exactly once and without errors.
def Lists (items : List (Except ε α)) (S : Set α) : Prop :=
  ∃ l : List α, items = l.map .ok ∧ l.Nodup ∧ ∀ a, a ∈ l ↔ a ∈ S

theorem Lists.congr {items : List (Except ε α)} {S T : Set α} (h : Lists items S)
    (he : ∀ a, a ∈ S ↔ a ∈ T) : Lists items T :=
  Set.ext he ▸ h

theorem ncard_eq_length {l : List α} {S : Set α} (hn : l.Nodup) (hm : ∀ a, a ∈ l ↔ a ∈ S) :
    S.ncard = l.length := by
  classical
  have hs : S = l.toFinset := by ext a; simp [hm]
  rw [hs, Set.ncard_coe_finset, List.toFinset_card_of_nodup hn]

theorem Lists.ncard {items : List (Except ε α)} {S : Set α} (h : Lists items S) :
    S.ncard = items.length := by
  have ⟨l, he, hn, hm⟩ := h
  rw [ncard_eq_length hn hm, he, List.length_map]

theorem Lists.finite {items : List (Except ε α)} {S : Set α} (h : Lists items S) : S.Finite := by
  have ⟨l, _, _, hm⟩ := h
  exact l.finite_toSet.subset fun a ha => (hm a).mpr ha

theorem Lists.eq_nil_iff {items : List (Except ε α)} {S : Set α} (h : Lists items S) :
    items = [] ↔ S = ∅ := by
  have ⟨l, he, _, hm⟩ := h
  rw [he, List.map_eq_nil_iff, List.eq_nil_iff_forall_not_mem, Set.eq_empty_iff_forall_notMem]
  exact forall_congr' fun a => not_congr (hm a)

theorem Lists.append {items₁ items₂ : List (Except ε α)} {S₁ S₂ : Set α} (h₁ : Lists items₁ S₁)
    (h₂ : Lists items₂ S₂) (hd : Disjoint S₁ S₂) : Lists (items₁ ++ items₂) (S₁ ∪ S₂) := by
  have ⟨l₁, he₁, hn₁, hm₁⟩ := h₁
  have ⟨l₂, he₂, hn₂, hm₂⟩ := h₂
  refine ⟨l₁ ++ l₂, by simp [he₁, he₂], List.nodup_append.mpr ⟨hn₁, hn₂, ?_⟩, by simp [hm₁, hm₂]⟩
  intro a ha b hb he
  exact Set.disjoint_left.mp hd ((hm₁ a).mp ha) (he ▸ (hm₂ b).mp hb)

-- Decoding each key of a duplicate free list gives the elements that the keys stand for.
theorem Lists.map {keys : List κ} {decode : κ → Except ε α} {S : Set α} (encode : α → κ)
    (hn : keys.Nodup) (hk : ∀ k, k ∈ keys ↔ ∃ a ∈ S, encode a = k)
    (hd : ∀ a ∈ S, decode (encode a) = .ok a) : Lists (keys.map decode) S := by
  have ⟨l, hl, hs⟩ : ∃ l : List α, l.map encode = keys ∧ ∀ a ∈ l, a ∈ S := by
    replace hk k := hk k |>.mp
    clear hn
    induction keys
    case nil => exact ⟨[], by simp⟩
    case cons k keys hi =>
      have ⟨l, hl, hs⟩ := hi fun k h => hk k (by simp [h])
      have ⟨a, ha, he⟩ := hk k (by simp)
      exact ⟨a :: l, by simp [hl, he], by simpa using ⟨ha, hs⟩⟩
  refine ⟨l, ?_, .of_map encode (hl ▸ hn), fun a => ⟨hs a, fun ha => ?_⟩⟩
  · rw [← hl, List.map_map]
    exact List.map_congr_left fun a ha => hd a (hs a ha)
  · have ⟨b, hb, he⟩ := List.mem_map.mp <| hl ▸ (hk _).mpr ⟨a, ha, rfl⟩
    have hab := (hd b (hs b hb)).symm.trans (he ▸ hd a ha)
    exact Except.ok.inj hab ▸ hb

end Iter
