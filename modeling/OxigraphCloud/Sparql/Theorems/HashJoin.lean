import OxigraphCloud.Primitives.Join
import OxigraphCloud.Sparql.HashJoin

-- The hash joins give the solutions that the definitions of the query language ask for.

open Iter

namespace Spareval

variable {T ε : Type} {t u : InternalTuple T}

namespace InternalTuple

-- The values that a tuple stands for. It does not matter how many free places come last.
def solution (tuple : InternalTuple T) : PartialMap ℕ T :=
  PartialMap.setAll ∅ <| (List.range tuple.inner.length).zip tuple.inner

theorem lookup_solution (tuple : InternalTuple T) (index : ℕ) :
    tuple.solution.lookup index = tuple.get index := by
  rw [solution, PartialMap.lookup_setAll_zip _ List.nodup_range, get]
  by_cases h : index < tuple.inner.length
  case pos =>
    have hi : (List.range tuple.inner.length).idxOf index = index := by
      have := List.nodup_range.idxOf_getElem index (by simpa : index < (List.range _).length)
      simpa using this
    simp [h, hi]
  case neg => simp [h]

variable [DecidableEq T]

-- All cases in which both tuples have a place come to one.
theorem fill_cons (a b : Option T) (shorter longer : List (Option T)) :
    fill (a :: shorter) (b :: longer) =
      if ∀ x ∈ a, ∀ y ∈ b, x = y then (a.or b :: ·) <$> fill shorter longer else none := by
  cases a <;> cases b <;> simp [fill]
  case some.some a b => split <;> simp_all

theorem get_fill {shorter longer result : List (Option T)}
    (h : fill shorter longer = some result) (i : ℕ) :
    result[i]?.getD none = (shorter[i]?.getD none).or (longer[i]?.getD none) := by
  induction shorter generalizing longer result i
  case nil => cases h; simp
  case cons a shorter hi =>
    cases longer
    case nil => cases h
    case cons b longer =>
      rw [fill_cons] at h
      split at h
      case isFalse => cases h
      case isTrue =>
        have ⟨rest, hr, he⟩ := Option.map_eq_some_iff.mp h
        subst he
        cases i
        case zero => simp
        case succ i => simpa using hi hr i

theorem fill_isSome_iff {shorter longer : List (Option T)}
    (hl : shorter.length ≤ longer.length) : (fill shorter longer).isSome ↔
      ∀ i : ℕ, ∀ x ∈ shorter[i]?.getD none, ∀ y ∈ longer[i]?.getD none, x = y := by
  induction shorter generalizing longer
  case nil => simp [fill]
  case cons a shorter hi =>
    cases longer
    case nil => simp at hl
    case cons b longer =>
      rw [fill_cons, ← Nat.and_forall_add_one]
      split
      case isTrue h =>
        refine (Option.isSome_map.symm ▸ hi (by simpa using hl)).trans ?_
        exact (and_iff_right h).symm
      case isFalse h => exact iff_of_false nofun fun h' => h h'.1

theorem solution_fill {shorter longer : List (Option T)}
    (hl : shorter.length ≤ longer.length) : (fill shorter longer).map (solution ∘ mk) =
      (solution ⟨shorter⟩).combineWith (solution ⟨longer⟩) := by
  have hc : (fill shorter longer).isSome ↔
      PartialMap.Compatible (solution ⟨shorter⟩) (solution ⟨longer⟩) := by
    rw [fill_isSome_iff hl, PartialMap.compatible_iff]
    simp only [lookup_solution]
    exact ⟨fun h i x y hx hy => h i x hx y hy, fun h i x hx y hy => h i x y hx hy⟩
  rw [PartialMap.combineWith]
  cases h : fill shorter longer
  case none =>
    rw [h] at hc
    rw [if_neg (hc.not.mp (by simp)), Option.map_none]
  case some result =>
    rw [h] at hc
    rw [if_pos (hc.mp rfl), Option.map_some]
    refine congrArg some <| Finmap.ext_lookup fun i => ?_
    rw [PartialMap.lookup_union, lookup_solution, lookup_solution]
    exact (lookup_solution ⟨result⟩ i).trans (get_fill h i)

theorem solution_combineWith (t u : InternalTuple T) :
    (t.combineWith u).map solution = t.solution.combineWith u.solution := by
  rw [combineWith]
  split
  case isTrue h => simpa using solution_fill h.le
  case isFalse h =>
    rw [PartialMap.combineWith_comm]
    simpa using solution_fill (not_lt.mp h)

end InternalTuple

open InternalTuple

theorem mem_zip_iff {x y : T} : (some x, some y) ∈ t.inner.zip u.inner ↔
    ∃ i, t.solution.lookup i = some x ∧ u.solution.lookup i = some y := by
  simp only [lookup_solution, InternalTuple.get, List.mem_iff_getElem?, List.getElem?_zip_eq_some,
    Option.getD_eq_iff]
  simp

namespace InternalTupleSet

variable (hasher : Hasher T)

theorem get_insert (set : InternalTupleSet T) (t tuple : InternalTuple T) :
    (set.insert hasher t).get hasher tuple = set.get hasher tuple ++
      if tupleKey hasher set.key t = tupleKey hasher set.key tuple then [t] else [] := by
  by_cases h : tupleKey hasher set.key t = tupleKey hasher set.key tuple
  case pos =>
    rw [if_pos h, insert, get, get, ← h]
    simp only [AList.lookup_insert, Option.getD_some]
  case neg => simp [insert, get, h, AList.lookup_insert_ne (Ne.symm h)]

theorem get_extend (set : InternalTupleSet T) (tuples : List (InternalTuple T))
    (tuple : InternalTuple T) : (set.extend hasher tuples).get hasher tuple =
      set.get hasher tuple ++
        tuples.filter (tupleKey hasher set.key · = tupleKey hasher set.key tuple) := by
  induction tuples generalizing set
  case nil => simp [extend]
  case cons t tuples hi =>
    have hk : (set.insert hasher t).key = set.key := rfl
    refine (hi _).trans ?_
    rw [get_insert, hk, List.append_assoc, List.filter_cons]
    split <;> simp_all

-- A bucket has the tuples of one hash in the order in which they came.
theorem get_extend_new (key : List ℕ) (tuples : List (InternalTuple T)) (tuple : InternalTuple T) :
    ((new key).extend hasher tuples).get hasher tuple =
      tuples.filter (tupleKey hasher key · = tupleKey hasher key tuple) := by
  rw [get_extend]
  rfl

theorem isEmpty_extend_new (key : List ℕ) (tuples : List (InternalTuple T)) :
    ((new key).extend hasher tuples).isEmpty = tuples.isEmpty := by
  have h (set : InternalTupleSet T) :
      (set.extend hasher tuples).len = set.len + tuples.length := by
    induction tuples generalizing set
    case nil => rfl
    case cons t tuples hi =>
      refine (hi _).trans ?_
      simp [insert, Nat.add_assoc, Nat.add_comm]
  cases tuples <;> simp [isEmpty, h, new]

end InternalTupleSet

def solutions (tuples : List (InternalTuple T)) : Multiset (PartialMap ℕ T) :=
  tuples.map solution

theorem solutions_nil : solutions ([] : List (InternalTuple T)) = 0 :=
  rfl

-- The iterator gives the solutions in some order, and no errors.
def Gives (it : Boxed (Except ε (InternalTuple T))) (s : Multiset (PartialMap ℕ T)) : Prop :=
  ∃ l, it.Yields (l.map .ok) ∧ solutions l = s

theorem gives_ofList (l : List (InternalTuple T)) :
    Gives (.ofList (l.map (.ok : _ → Except ε _))) (solutions l) :=
  ⟨l, Boxed.yields_ofList _, rfl⟩

theorem oks_map_ok (l : List α) : oks (l.map (.ok : α → Except ε α)) = l := by
  simp [oks, List.filterMap_map, Function.comp_def, Except.toOption]

theorem errors_map_ok (l : List α) : errors (l.map (.ok : α → Except ε α)) = [] := by
  simp [errors, Except.isOk, Except.toBool]

theorem isSome_get (h : t.contains v) : (t.get v).isSome := by
  rw [contains] at h
  rw [InternalTuple.get]
  cases hv : t.inner[v]? <;> simp_all

theorem solutions_flatMap (tuples : List (InternalTuple T))
    (results : InternalTuple T → List (InternalTuple T))
    {f : PartialMap ℕ T → Multiset (PartialMap ℕ T)}
    (h : ∀ t ∈ tuples, solutions (results t) = f t.solution) :
    solutions (tuples.flatMap results) = (solutions tuples).bind f := by
  induction tuples
  case nil => rfl
  case cons t tuples hi =>
    have hi := hi fun t ht => h t (.tail _ ht)
    have ht := h t (.head _)
    simp only [solutions, List.flatMap_cons, List.map_append, List.map_cons] at hi ht ⊢
    rw [← Multiset.coe_add, ← Multiset.cons_coe, Multiset.cons_bind, hi, ht]

theorem solutions_filter (p : PartialMap ℕ T → Prop) [DecidablePred p]
    (tuples : List (InternalTuple T)) :
    solutions (tuples.filter fun t => p t.solution) = (solutions tuples).filter p := by
  rw [solutions, solutions, Multiset.filter_coe, List.filter_map]
  rfl

theorem solutions_reverse (tuples : List (InternalTuple T)) :
    solutions tuples.reverse = solutions tuples :=
  Multiset.coe_eq_coe.mpr <| (List.reverse_perm tuples).map solution

theorem bufferedItems_joinStep (results : InternalTuple T → List (InternalTuple T))
    (probe : List (InternalTuple T)) :
    bufferedItems (joinStep results) (probe.map (.ok : _ → Except ε _)) [] =
      (probe.flatMap fun t => (results t).reverse).map .ok := by
  simp [bufferedItems, expanded, joinStep, List.flatMap_map, List.map_flatMap]

variable [DecidableEq T]

theorem bufferedItems_leftJoinStep (hasher : Hasher T) (expression : InternalTuple T → Option Bool)
    (set : InternalTupleSet T) (left : List (InternalTuple T)) :
    bufferedItems (HashLeftJoinIterator.step hasher expression set)
        (left.map (.ok : _ → Except ε _)) [] =
      (left.flatMap fun t =>
        let results := HashLeftJoinIterator.results hasher expression set t
        if results.isEmpty then [t] else results.reverse).map .ok := by
  simp only [bufferedItems, List.reverse_nil, List.nil_append, List.flatMap_map, List.map_flatMap]
  refine List.flatMap_congr fun t _ => ?_
  rw [expanded, HashLeftJoinIterator.step]
  split <;> simp

theorem CartesianProductJoinIterator.yields (it : CartesianProductJoinIterator ε T) :
    Boxed.Yields ⟨it, next⟩ (bufferedItems (step it.built) it.probeIter it.bufferedResults) :=
  let r : Remaining next :=
    .ofBuffered (step ·.built) probeIter bufferedResults (fun _ => rfl) fun _ => rfl
  Boxed.yields_of_remaining r trivial

theorem HashJoinIterator.yields (hasher : Hasher T) (it : HashJoinIterator ε T) :
    Boxed.Yields ⟨it, next hasher⟩
      (bufferedItems (step hasher it.built) it.probeIter it.bufferedResults) :=
  let r : Remaining (next hasher) :=
    .ofBuffered (step hasher ·.built) probeIter bufferedResults (fun _ => rfl) fun _ => rfl
  Boxed.yields_of_remaining r trivial

theorem HashLeftJoinIterator.yields (hasher : Hasher T)
    (expression : InternalTuple T → Option Bool) (it : HashLeftJoinIterator ε T) :
    Boxed.Yields ⟨it, next hasher expression⟩
      (bufferedItems (step hasher expression it.right) it.leftIter it.bufferedResults) :=
  let r : Remaining (next hasher expression) :=
    .ofBuffered (step hasher expression ·.right) leftIter bufferedResults (fun _ => rfl)
      fun _ => rfl
  Boxed.yields_of_remaining r trivial

theorem areCompatibleAndNotDisjointed_go (pairs : List (Option T × Option T)) (found : Bool) :
    areCompatibleAndNotDisjointed.go pairs found ↔
      (∀ x y, (some x, some y) ∈ pairs → x = y) ∧
        (found ∨ ∃ x y, (some x, some y) ∈ pairs) := by
  induction pairs generalizing found
  case nil => simp [areCompatibleAndNotDisjointed.go]
  case cons pair pairs hi =>
    obtain ⟨_ | a, _ | b⟩ := pair
    case some.some =>
      rw [areCompatibleAndNotDisjointed.go]
      split
      case isTrue h => exact iff_of_false nofun fun h' => h <| h'.1 a b (.head _)
      case isFalse h =>
        have h := not_not.mp h
        rw [hi]
        refine and_congr ?_ <| iff_of_true (.inl rfl) (.inr ⟨a, b, .head _⟩)
        refine ⟨fun h' x y hm => ?_, fun h' x y hm => h' x y (.tail _ hm)⟩
        cases hm
        case head => exact h
        case tail hm => exact h' x y hm
    all_goals simp [areCompatibleAndNotDisjointed.go, hi]

theorem areCompatibleAndNotDisjointed_iff (t u : InternalTuple T) :
    areCompatibleAndNotDisjointed t u ↔
      ¬(PartialMap.Compatible t.solution u.solution →
        t.solution.keys ∩ u.solution.keys = ∅) := by
  rw [areCompatibleAndNotDisjointed, areCompatibleAndNotDisjointed_go, Classical.not_imp,
    PartialMap.compatible_iff]
  simp only [mem_zip_iff, ← Finset.nonempty_iff_ne_empty, Finset.Nonempty, Finset.mem_inter,
    Finmap.mem_keys, ← Finmap.lookup_isSome, Option.isSome_iff_exists]
  constructor
  case mp =>
    rintro ⟨h, hf | ⟨x, y, i, hx, hy⟩⟩
    case inl => cases hf
    exact ⟨fun i x y hx hy => h x y ⟨i, hx, hy⟩, i, ⟨x, hx⟩, y, hy⟩
  case mpr =>
    rintro ⟨h, i, ⟨x, hx⟩, y, hy⟩
    exact ⟨fun x y ⟨i, hx, hy⟩ => h i x y hx hy, .inr ⟨x, y, i, hx, hy⟩⟩

-- Every tuple has a value for each of the keys.
def Bound (keys : List ℕ) (tuples : List (InternalTuple T)) : Prop :=
  ∀ t ∈ tuples, ∀ v ∈ keys, t.contains v

instance (keys : List ℕ) (tuples : List (InternalTuple T)) : Decidable (Bound keys tuples) :=
  inferInstanceAs (Decidable (∀ _ ∈ _, _))

variable {keys : List ℕ} {left right : List (InternalTuple T)} (hasher : Hasher T)

theorem tupleKey_eq_of_combineWith (ht : ∀ v ∈ keys, t.contains v)
    (hu : ∀ v ∈ keys, u.contains v) (h : t.combineWith u ≠ none) :
    InternalTupleSet.tupleKey hasher keys u = InternalTupleSet.tupleKey hasher keys t := by
  have hc : PartialMap.Compatible t.solution u.solution := by
    rw [← PartialMap.combineWith_isSome_iff, ← solution_combineWith, Option.isSome_map]
    exact Option.isSome_iff_ne_none.mpr h
  have hg v (hv : v ∈ keys) : u.get v = t.get v := by
    have ⟨x, hx⟩ := Option.isSome_iff_exists.mp (isSome_get (ht v hv))
    have ⟨y, hy⟩ := Option.isSome_iff_exists.mp (isSome_get (hu v hv))
    rw [hx, hy]
    rw [← lookup_solution] at hx hy
    rw [PartialMap.compatible_iff.mp hc v x y hx hy]
  rw [InternalTupleSet.tupleKey, InternalTupleSet.tupleKey]
  exact congrArg _ <| List.foldl_ext _ _ _ fun state v hv => by rw [hg v hv]

-- Tuples that go together are in the same bucket.
theorem filterMap_get (hr : Bound keys right) (ht : ∀ v ∈ keys, t.contains v) :
    (((InternalTupleSet.new keys).extend hasher right).get hasher t).filterMap t.combineWith =
      right.filterMap t.combineWith := by
  rw [InternalTupleSet.get_extend_new, List.filterMap_filter]
  refine List.filterMap_congr fun u hu => ?_
  split
  case isTrue => rfl
  case isFalse h =>
    by_contra hn
    exact h <| decide_eq_true <| tupleKey_eq_of_combineWith hasher ht (hr u hu) (Ne.symm hn)

theorem solutions_filterMap (t : InternalTuple T) (tuples : List (InternalTuple T)) :
    solutions (tuples.filterMap t.combineWith) =
      (solutions tuples).filterMap t.solution.combineWith := by
  have h : t.solution.combineWith ∘ solution = fun u => (t.combineWith u).map solution :=
    funext fun u => (solution_combineWith t u).symm
  simp only [solutions, Multiset.filterMap_coe, List.filterMap_map, List.map_filterMap, h]

theorem gives_join (f : InternalTuple T → List (InternalTuple T))
    {it : Boxed (Except ε (InternalTuple T))} (hy : it.Yields
      (bufferedItems (joinStep f) (right.map .ok) []))
    (hf : ∀ t ∈ right, f t = left.filterMap t.combineWith) :
    Gives it (PartialMap.join (solutions left) (solutions right)) := by
  refine ⟨right.flatMap fun t => (f t).reverse, bufferedItems_joinStep f right ▸ hy, ?_⟩
  rw [PartialMap.join_comm]
  refine solutions_flatMap _ _ fun t ht => ?_
  rw [solutions_reverse, hf t ht, solutions_filterMap]

theorem gives_evalJoin (hl : Bound keys left) (hr : Bound keys right) :
    Gives (evalJoin hasher keys (left.map (.ok : _ → Except ε _)) (right.map .ok))
      (PartialMap.join (solutions left) (solutions right)) := by
  have hs {it : Boxed (Except ε (InternalTuple T))} {e : Bool} (he : e = left.isEmpty)
      (h : Gives it (PartialMap.join (solutions left) (solutions right))) :
      Gives (if e && true then .ofList []
        else if (right.map (.ok : _ → Except ε _)).isEmpty then .ofList [] else it)
        (PartialMap.join (solutions left) (solutions right)) := by
    cases left
    case nil => simpa [he, solutions_nil] using gives_ofList []
    case cons =>
      cases right
      case nil => simpa [he, solutions_nil] using gives_ofList []
      case cons => simpa [he] using h
  unfold evalJoin
  rw [oks_map_ok, errors_map_ok]
  split
  case isTrue =>
    exact hs rfl <| gives_join _ (CartesianProductJoinIterator.yields _) fun t _ => rfl
  case isFalse =>
    refine hs (InternalTupleSet.isEmpty_extend_new hasher keys left) ?_
    refine gives_join _ (HashJoinIterator.yields hasher _) fun t ht => ?_
    exact filterMap_get hasher hl (hr t ht)

theorem gives_evalLeftJoin (expression : PartialMap ℕ T → Option Bool) (hl : Bound keys left)
    (hr : Bound keys right) :
    Gives (evalLeftJoin hasher keys (fun t => expression t.solution)
      (left.map (.ok : _ → Except ε _)) (right.map .ok))
      (PartialMap.leftJoin (fun m => (expression m).getD false) (solutions left)
        (solutions right)) := by
  rw [PartialMap.leftJoin_eq_bind]
  unfold evalLeftJoin
  rw [oks_map_ok, errors_map_ok]
  dsimp only
  split
  case isTrue h =>
    have h : right = [] := by simpa [InternalTupleSet.isEmpty_extend_new] using h
    subst h
    have hb : (solutions left).bind ({·}) = solutions left := by
      rw [Multiset.bind_singleton, Multiset.map_id']
    simpa [solutions_nil, hb] using gives_ofList left
  case isFalse =>
    have hy := HashLeftJoinIterator.yields hasher (fun t => expression t.solution)
      ⟨left.map (.ok : _ → Except ε _), (InternalTupleSet.new keys).extend hasher right, []⟩
    rw [bufferedItems_leftJoinStep] at hy
    refine ⟨_, hy, solutions_flatMap _ _ fun t ht => ?_⟩
    have hf : solutions (HashLeftJoinIterator.results hasher (fun t => expression t.solution)
        ((InternalTupleSet.new keys).extend hasher right) t) =
        ((solutions right).filterMap t.solution.combineWith).filter
          fun m => (expression m).getD false := by
      rw [HashLeftJoinIterator.results, filterMap_get hasher hr (hl t ht), ← solutions_filterMap,
        ← solutions_filter]
      simp only [Bool.decide_eq_true]
    rw [← hf]
    cases HashLeftJoinIterator.results hasher (fun t => expression t.solution)
      ((InternalTupleSet.new keys).extend hasher right) t
    case nil => simp [solutions]
    case cons r rs => simpa [solutions] using solutions_reverse (r :: rs)

theorem isKept_iff {candidates : InternalTuple T → List (InternalTuple T)}
    (h : ∀ u, u ∈ candidates t → u ∈ right)
    (h' : ∀ u ∈ right, t.combineWith u ≠ none → u ∈ candidates t) :
    isKept (ε := ε) candidates (.ok t) ↔ ∀ m ∈ solutions right,
      PartialMap.Compatible t.solution m → t.solution.keys ∩ m.keys = ∅ := by
  simp only [isKept, Bool.not_eq_true', List.any_eq_false, areCompatibleAndNotDisjointed_iff,
    not_not, solutions, Multiset.mem_coe, List.mem_map]
  constructor
  case mp =>
    rintro hk _ ⟨u, hu, rfl⟩ hc
    refine hk u (h' u hu fun hn => ?_) hc
    rw [← PartialMap.combineWith_isSome_iff, ← solution_combineWith, hn] at hc
    cases hc
  case mpr => exact fun hk u hu => hk _ ⟨u, h u hu, rfl⟩

theorem gives_evalMinus (hl : Bound keys left) (hr : Bound keys right) :
    Gives (evalMinus hasher keys (left.map (.ok : _ → Except ε _)) (right.map .ok))
      (PartialMap.minus (solutions left) (solutions right)) := by
  have hs {e : Bool} (he : e = right.isEmpty)
      (candidates : InternalTuple T → List (InternalTuple T))
      (hc : ∀ t ∈ left, isKept (ε := ε) candidates (.ok t) ↔ ∀ m ∈ solutions right,
        PartialMap.Compatible t.solution m → t.solution.keys ∩ m.keys = ∅) :
      Gives (if e then .ofList (left.map (.ok : _ → Except ε _))
        else .ofList <| (left.map (.ok : _ → Except ε _)).filter (isKept candidates))
        (PartialMap.minus (solutions left) (solutions right)) := by
    rw [PartialMap.minus, he]
    split
    case isTrue h =>
      have h := List.isEmpty_iff.mp h
      simpa [h, solutions_nil] using gives_ofList left
    case isFalse =>
      refine ⟨left.filter (isKept (ε := ε) candidates <| .ok ·), ?_, ?_⟩
      case refine_1 =>
        have := Boxed.yields_ofList ((left.map (.ok : _ → Except ε _)).filter (isKept candidates))
        rwa [List.filter_map] at this ⊢
      case refine_2 =>
        rw [← solutions_filter, List.filter_congr fun t ht => Bool.eq_iff_iff.mpr <|
          (hc t ht).trans decide_eq_true_iff.symm]
  unfold evalMinus
  rw [oks_map_ok]
  dsimp only
  split
  case isTrue =>
    exact hs rfl (fun _ => right) fun t ht => isKept_iff (fun _ => id) fun _ hu _ => hu
  case isFalse =>
    refine hs (InternalTupleSet.isEmpty_extend_new hasher keys right) _ fun t ht =>
      isKept_iff (fun u hu => ?_) fun u hu hn => ?_
    all_goals rw [InternalTupleSet.get_extend_new] at *
    case refine_1 => exact List.mem_of_mem_filter hu
    case refine_2 =>
      exact List.mem_filter.mpr ⟨hu, decide_eq_true <|
        tupleKey_eq_of_combineWith hasher (hl t ht) (hr u hu) hn⟩

-- Whatever the hashes are, the buckets do not lose or mix up anything.
theorem gives_evaluators (expression : PartialMap ℕ T → Option Bool) (hl : Bound keys left)
    (hr : Bound keys right) :
    Gives (evalJoin hasher keys (left.map (.ok : _ → Except ε _)) (right.map .ok))
        (PartialMap.join (solutions left) (solutions right)) ∧
      Gives (evalLeftJoin hasher keys (fun t => expression t.solution)
          (left.map (.ok : _ → Except ε _)) (right.map .ok))
        (PartialMap.leftJoin (fun m => (expression m).getD false) (solutions left)
          (solutions right)) ∧
      Gives (evalMinus hasher keys (left.map (.ok : _ → Except ε _)) (right.map .ok))
        (PartialMap.minus (solutions left) (solutions right)) :=
  ⟨gives_evalJoin hasher hl hr, gives_evalLeftJoin hasher expression hl hr,
    gives_evalMinus hasher hl hr⟩

-- All tuples have the same hash, and the optional part is rejected for one of them.
theorem gives_evaluators_collision :
    let hasher : Hasher ℕ := ⟨(), fun _ _ => (), fun _ => 0⟩
    let left : List (InternalTuple ℕ) := [⟨[some 1]⟩, ⟨[some 2, none, some 5]⟩]
    let right : List (InternalTuple ℕ) := [⟨[some 2, some 3]⟩, ⟨[some 1, some 4]⟩]
    Gives (evalJoin hasher [0] (left.map (.ok : _ → Except Empty _)) (right.map .ok))
        (PartialMap.join (solutions left) (solutions right)) ∧
      Gives (evalLeftJoin hasher [0] (fun t => some (decide (t.solution.lookup 1 = some 3)))
          (left.map (.ok : _ → Except Empty _)) (right.map .ok))
        (PartialMap.leftJoin (fun m => (some (decide (m.lookup 1 = some 3))).getD false)
          (solutions left) (solutions right)) ∧
      Gives (evalMinus hasher [0] (left.map (.ok : _ → Except Empty _)) (right.map .ok))
        (PartialMap.minus (solutions left) (solutions right)) :=
  have hl : Bound [0] [⟨[some 1]⟩, (⟨[some 2, none, some 5]⟩ : InternalTuple ℕ)] := by
    decide
  have hr : Bound [0] [⟨[some 2, some 3]⟩, (⟨[some 1, some 4]⟩ : InternalTuple ℕ)] := by
    decide
  gives_evaluators _ (fun m => some (decide (m.lookup 1 = some 3))) hl hr

end Spareval
