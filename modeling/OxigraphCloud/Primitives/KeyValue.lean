import Mathlib

-- Ordered key-value states, the mutations that transactions and write batches consist of, and
-- range scans with a limit.

abbrev Kv (K V : Type) [LinearOrder K] := Std.ExtTreeMap K V compare

inductive Mutation (K V : Type)
  | put (key : K) (value : V)
  | delete (key : K)
  | deleteRange (first last : K)
  deriving DecidableEq

-- All keys from `start` (included) up to `upper` (excluded), if there is an upper bound.
structure BoundRange (K : Type) where
  start : K
  upper : Option K
  deriving DecidableEq

variable {K V : Type} [LinearOrder K]

instance : Membership K (BoundRange K) where
  mem r k := r.start ≤ k ∧ ∀ u ∈ r.upper, k < u

instance (r : BoundRange K) : DecidablePred (· ∈ r) := fun k =>
  inferInstanceAs <| Decidable (r.start ≤ k ∧ ∀ u ∈ r.upper, k < u)

theorem Kv.ext_getElem? {kv kv' : Kv K V} (h : ∀ k : K, kv[k]? = kv'[k]?) : kv = kv' :=
  Std.ExtTreeMap.ext_getElem? fun {k} => h k

theorem BoundRange.mem_iff {r : BoundRange K} {k : K} :
    k ∈ r ↔ r.start ≤ k ∧ ∀ u ∈ r.upper, k < u :=
  .rfl

namespace Mutation

def apply (kv : Kv K V) : Mutation K V → Kv K V
  | put key value          => kv.insert key value
  | delete key             => kv.erase key
  | deleteRange first last => kv.filter fun k _ => ¬(first ≤ k ∧ k < last)

-- What a mutation leaves under a key: `none` if it does not touch the key.
def effect (k : K) : Mutation K V → Option (Option V)
  | put key value          => if key = k then some (some value) else none
  | delete key             => if key = k then some none else none
  | deleteRange first last => if first ≤ k ∧ k < last then some none else none

theorem getElem?_apply {kv : Kv K V} {m : Mutation K V} {k : K} :
    (m.apply kv)[k]? = (m.effect k).getD kv[k]? := by
  cases m <;> simp only [apply, effect]
  case put key value =>
    rw [Std.ExtTreeMap.getElem?_insert]
    by_cases h : key = k <;> simp [h]
  case delete key =>
    rw [Std.ExtTreeMap.getElem?_erase]
    by_cases h : key = k <;> simp [h]
  case deleteRange first last =>
    simp only [Std.ExtTreeMap.getElem?_filter, Std.ExtTreeMap.getKey_eq, Option.pfilter_eq_filter]
    by_cases h : first ≤ k ∧ k < last <;> cases kv[k]? <;> simp [h]

-- The effect of a sequence of mutations is that of the last one that touches the key.
def effects (k : K) (ms : List (Mutation K V)) : Option (Option V) :=
  ms.foldl (fun e m => m.effect k <|> e) none

def applyAll (kv : Kv K V) (ms : List (Mutation K V)) : Kv K V :=
  ms.foldl apply kv

@[simp]
theorem effects_nil {k : K} : effects k ([] : List (Mutation K V)) = none := rfl

theorem effects_concat {k : K} {ms : List (Mutation K V)} {m : Mutation K V} :
    effects k (ms ++ [m]) = (m.effect k <|> effects k ms) := by
  simp [effects]

theorem effects_append {k : K} {ms ms' : List (Mutation K V)} :
    effects k (ms ++ ms') = (effects k ms' <|> effects k ms) := by
  induction ms' using List.reverseRecOn
  case nil => simp
  case append_singleton ms' m hi =>
    rw [← List.append_assoc, effects_concat, effects_concat, hi]
    cases m.effect k <;> simp

@[simp]
theorem applyAll_nil {kv : Kv K V} : applyAll kv [] = kv := rfl

theorem applyAll_append {kv : Kv K V} {ms ms' : List (Mutation K V)} :
    applyAll kv (ms ++ ms') = applyAll (applyAll kv ms) ms' := by
  simp [applyAll]

theorem getElem?_applyAll {kv : Kv K V} {ms : List (Mutation K V)} {k : K} :
    (applyAll kv ms)[k]? = (effects k ms).getD kv[k]? := by
  induction ms using List.reverseRecOn
  case nil => simp
  case append_singleton ms m hi =>
    rw [applyAll_append, effects_concat, applyAll, List.foldl_cons, List.foldl_nil,
      getElem?_apply, hi]
    cases m.effect k <;> simp

theorem mem_applyAll {kv : Kv K V} {ms : List (Mutation K V)} {k : K} :
    k ∈ applyAll kv ms ↔ ((effects k ms).getD kv[k]?).isSome := by
  rw [Std.ExtTreeMap.mem_iff_isSome_getElem?, getElem?_applyAll]

theorem size_apply_le (kv : Kv K V) (m : Mutation K V) : (m.apply kv).size ≤ kv.size + 1 := by
  cases m
  case put => exact Std.ExtTreeMap.size_insert_le
  case delete => exact Std.ExtTreeMap.size_erase_le.trans (Nat.le_succ _)
  case deleteRange => exact Std.ExtTreeMap.size_filter_le_size.trans (Nat.le_succ _)

theorem size_applyAll_le (kv : Kv K V) (ms : List (Mutation K V)) :
    (applyAll kv ms).size ≤ kv.size + ms.length := by
  induction ms generalizing kv
  case nil => exact le_rfl
  case cons m ms hi =>
    have := size_apply_le kv m
    have := hi (m.apply kv)
    grind [applyAll]

-- Whether puts leave a value under a key does not depend on the values.
theorem effects_puts {k : K} {entries : List α} {key : α → K} {value : α → V} :
    (effects k (entries.map fun e => put (key e) (value e))).map Option.isSome = some b ↔
      b = true ∧ ∃ e ∈ entries, key e = k := by
  induction entries using List.reverseRecOn
  case nil => simp
  case append_singleton entries e hi =>
    simp only [List.map_append, List.map_cons, List.map_nil, effects_concat, effect]
    by_cases h : key e = k
    case pos => simp [h, or_and_right, exists_or, eq_comm]
    case neg => simp [h, or_and_right, exists_or, hi]

theorem effects_deletes {k : K} {keys : List K} :
    effects k (keys.map fun key => (delete key : Mutation K V)) =
      if k ∈ keys then some none else none := by
  induction keys using List.reverseRecOn
  case nil => simp
  case append_singleton keys key hi =>
    simp only [List.map_append, List.map_cons, List.map_nil, effects_concat, hi, effect]
    by_cases h : key = k
    case pos => simp [h]
    case neg => simp [h, Ne.symm h]

-- Whether there is a key that both mutations touch.
def overlaps : Mutation K V → Mutation K V → Bool
  | put key _, m | delete key, m                   => (m.effect key).isSome
  | m, put key _ | m, delete key                   => (m.effect key).isSome
  | deleteRange first last, deleteRange first' last' => max first first' < min last last'

theorem overlaps_of_effect {m m' : Mutation K V} (h : m.effect k ≠ none) (h' : m'.effect k ≠ none) :
    m.overlaps m' := by
  cases m <;> cases m' <;> simp_all [effect, overlaps]
  case deleteRange.deleteRange =>
    exact ⟨⟨h.1.trans_lt h.2, h'.1.trans_lt h.2⟩, h.1.trans_lt h'.2, h'.1.trans_lt h'.2⟩

theorem exists_effect {ms : List (Mutation K V)} (h : effects k ms ≠ none) :
    ∃ m ∈ ms, m.effect k ≠ none := by
  induction ms using List.reverseRecOn
  case nil => exact absurd rfl h
  case append_singleton ms m hi =>
    rw [effects_concat] at h
    cases hm : m.effect k
    case none =>
      obtain ⟨m', hm', he⟩ := hi <| by simpa [hm] using h
      exact ⟨m', List.mem_append_left _ hm', he⟩
    case some => exact ⟨m, by simp, by simp [hm]⟩

end Mutation

namespace Kv

variable {kv : Kv K V} {r : BoundRange K}

def entriesIn (kv : Kv K V) (r : BoundRange K) : List (K × V) :=
  kv.toList.filter (·.1 ∈ r)

def keysIn (kv : Kv K V) (r : BoundRange K) : List K :=
  (kv.entriesIn r).map Prod.fst

def scan (kv : Kv K V) (r : BoundRange K) (limit : ℕ) : List (K × V) :=
  (kv.entriesIn r).take limit

theorem mem_keysIn {k : K} : k ∈ kv.keysIn r ↔ k ∈ kv ∧ k ∈ r := by
  simp only [keysIn, entriesIn, List.mem_map, List.mem_filter, decide_eq_true_eq, Prod.exists,
    Std.ExtTreeMap.mem_toList_iff_getElem?_eq_some, exists_and_right, exists_eq_right,
    Std.ExtTreeMap.mem_iff_isSome_getElem?, Option.isSome_iff_exists]

theorem entriesIn_sorted : (kv.entriesIn r).Pairwise (·.1 < ·.1) :=
  (Std.ExtTreeMap.ordered_keys_toList.imp compare_lt_iff_lt.mp).filter _

theorem keysIn_sorted : (kv.keysIn r).Pairwise (· < ·) :=
  List.pairwise_map.mpr entriesIn_sorted

theorem keysIn_nodup : (kv.keysIn r).Nodup :=
  keysIn_sorted.imp ne_of_lt

theorem mem_of_getLast?_scan (h : (kv.scan r n).getLast? = some last) : last.1 ∈ r := by
  have : last ∈ kv.entriesIn r := List.mem_of_mem_take <| List.mem_of_getLast? h
  simpa [entriesIn] using (List.mem_filter.mp this).right

-- Scanning on from the place behind the last entry of a page gives the rest of the range.
theorem entriesIn_after {n : ℕ} {next : K} {e : K × V}
    (he : ((kv.entriesIn r).take n).getLast? = some e) (hn : ∀ k, next ≤ k ↔ e.1 < k) :
    kv.entriesIn { r with start := next } = (kv.entriesIn r).drop n := by
  obtain ⟨page, hp⟩ := List.getLast?_eq_some_iff.mp he
  have hs : (kv.entriesIn r).Pairwise (·.1 < ·.1) := entriesIn_sorted
  have hr : e.1 ∈ r := mem_of_getLast?_scan he
  calc
    kv.entriesIn { r with start := next }
      = (kv.entriesIn r).filter (e.1 < ·.1) := by
        rw [entriesIn, entriesIn, List.filter_filter]
        refine List.filter_congr fun x _ => ?_
        rw [← Bool.decide_and, decide_eq_decide, BoundRange.mem_iff, BoundRange.mem_iff, hn]
        exact ⟨fun h => ⟨h.1, hr.1.trans h.1.le, h.2⟩, fun h => ⟨h.1, h.2.2⟩⟩
    _ = (page ++ [e] ++ (kv.entriesIn r).drop n).filter (e.1 < ·.1) := by
        rw [← hp, List.take_append_drop]
    _ = (kv.entriesIn r).drop n := by
        rw [← List.take_append_drop n (kv.entriesIn r), hp] at hs
        obtain ⟨h₁, _, h₂⟩ := List.pairwise_append.mp hs
        rw [List.filter_append, List.filter_eq_nil_iff.mpr, List.nil_append,
          List.filter_eq_self.mpr]
        · exact fun x hx => by simpa using h₂ e (by simp) x hx
        · intro x hx
          have : x.1 ≤ e.1 := by
            cases List.mem_append.mp hx
            case inl h => exact (List.pairwise_append.mp h₁ |>.2.2 x h e (by simp)).le
            case inr h => simp_all
          simpa using this

-- The part of a range that lies behind a page of it. `succ` gives the key that follows a key.
def resume (succ : K → K) (r : BoundRange K) (page : List (K × V)) : BoundRange K where
  start :=
    match page.getLast? with
    | some (last, _) => succ last
    | none           => r.start
  upper := r.upper

-- A range is its first page followed by the range behind that page. A short page is the last one.
theorem keysIn_eq_page_append (kv : Kv K V) (r : BoundRange K) (n : ℕ) {succ : K → K}
    (hs : ∀ k l, succ k ≤ l ↔ k < l) :
    (kv.scan r n).map Prod.fst ++
      (if (kv.scan r n).length < n then [] else kv.keysIn (resume succ r (kv.scan r n))) =
    kv.keysIn r := by
  split
  case isTrue h =>
    have : (kv.entriesIn r).length ≤ n := by
      simp only [scan, List.length_take] at h
      omega
    simp [scan, keysIn, List.take_of_length_le this]
  case isFalse h =>
    cases hl : (kv.scan r n).getLast?
    case none =>
      simp_all [resume]
    case some last =>
      simp only [keysIn, resume, hl, entriesIn_after hl (hs last.1)]
      rw [scan, ← List.map_append, List.take_append_drop]

-- The first page has the keys up to its last one.
theorem mem_page_iff (hl : (kv.scan r n).getLast? = some last) :
    k ∈ (kv.scan r n).map Prod.fst ↔ k ∈ kv.keysIn r ∧ k ≤ last.1 := by
  have hs : (kv.keysIn r).Pairwise (· < ·) := keysIn_sorted
  have ⟨page, hp⟩ := List.getLast?_eq_some_iff.mp hl
  have hk :
      kv.keysIn r = page.map Prod.fst ++ [last.1] ++ ((kv.entriesIn r).drop n).map Prod.fst := by
    have := congrArg (List.map Prod.fst) <| List.take_append_drop n (kv.entriesIn r)
    rw [keysIn, ← this, ← scan, hp]
    simp
  have hm : (kv.scan r n).map Prod.fst = page.map Prod.fst ++ [last.1] := by simp [hp]
  rw [hk] at hs
  have ⟨h₁, _, h₂⟩ := List.pairwise_append.mp hs
  rw [hk, hm]
  constructor
  · intro h
    refine ⟨List.mem_append_left _ h, ?_⟩
    cases List.mem_append.mp h
    case inl h => exact (List.pairwise_append.mp h₁ |>.2.2 k h last.1 (by simp)).le
    case inr h => exact (List.mem_singleton.mp h).le
  · intro ⟨h, hle⟩
    cases List.mem_append.mp h
    case inl h => exact h
    case inr h => exact absurd (h₂ last.1 (by simp) k h) hle.not_gt

-- If the rest of a range is read from a later state than its first page, then each key is looked up
-- in one of the two states.
theorem page_append_later (kv kv' : Kv K V) (r : BoundRange K) (n : ℕ) {succ : K → K}
    (hs : ∀ k l, succ k ≤ l ↔ k < l) :
    let page := kv.scan r n
    let rest := if page.length < n then [] else kv'.keysIn (resume succ r page)
    (page.map Prod.fst ++ rest).Nodup ∧
    ∃ later : K → Prop, (page.length < n → ∀ k, ¬later k) ∧
      ∀ k, k ∈ page.map Prod.fst ++ rest ↔
        later k ∧ k ∈ kv'.keysIn r ∨ ¬later k ∧ k ∈ kv.keysIn r := by
  intro page rest
  by_cases hn : page.length < n
  case pos =>
    have hp := keysIn_eq_page_append kv r n hs
    simp only [page] at hn
    rw [if_pos hn] at hp
    simp only [rest, page, if_pos hn, hp]
    exact ⟨keysIn_nodup, fun _ => False, by simp⟩
  case neg =>
    simp only [rest, if_neg hn]
    cases hl : page.getLast?
    case none =>
      simp only [List.getLast?_eq_none_iff.mp hl, resume]
      exact ⟨keysIn_nodup, fun _ => True, by simp_all⟩
    case some last =>
      have hm {k} : k ∈ page.map Prod.fst ↔ k ∈ kv.keysIn r ∧ k ≤ last.1 := mem_page_iff hl
      have hr {k} : k ∈ kv'.keysIn (resume succ r page) ↔ k ∈ kv'.keysIn r ∧ last.1 < k := by
        have := mem_of_getLast?_scan hl
        simp only [mem_keysIn, BoundRange.mem_iff, resume, hl, hs] at *
        exact ⟨fun h => ⟨⟨h.1, this.1.trans h.2.1.le, h.2.2⟩, h.2.1⟩,
          fun h => ⟨h.1.1, h.2, h.1.2.2⟩⟩
      refine ⟨List.nodup_append.mpr ⟨?_, keysIn_nodup, ?_⟩, (last.1 < ·), by simp [hn], ?_⟩
      · simp only [page, scan, List.map_take]
        exact keysIn_nodup.sublist <| List.take_sublist ..
      · intro k hk l hl he
        exact absurd (hr.mp hl).2 (he ▸ hm.mp hk).2.not_gt
      · intro k
        rw [List.mem_append, hm, hr, not_lt]
        tauto

end Kv
