import OxigraphCloud.Coprocessor.Theorems.Aggregate
import OxigraphCloud.Coprocessor.Theorems.SemiJoin

-- Requests to many regions against requests to the whole key space.
namespace Coprocessor

theorem decodeCountResponse_eq (scannedKeys count : ℕ) :
    (decodeCountResponse (encodeCountResponse scannedKeys count)).map Prod.snd =
      .ok (count % 2 ^ 64) := by
  have he : encodeCountResponse scannedKeys count =
    Bytes.toBe 8 scannedKeys ++ Bytes.toBe 8 count ++ [] := by simp [encodeCountResponse]
  rw [he, decodeCountResponse, splitBytes_header]
  simp only [bind, Except.bind, drop_header]
  rfl

section MinMax

theorem decodeMinMaxResponse_none (scannedKeys : ℕ) :
    (decodeMinMaxResponse (encodeMinMaxResponse scannedKeys none none)).map Prod.snd =
      .ok none := by
  have he : encodeMinMaxResponse scannedKeys none none =
    Bytes.toBe 8 scannedKeys ++ Bytes.toBe 8 0 ++ [0, 0, 0, 0] := rfl
  rw [he, decodeMinMaxResponse, splitBytes_header]
  rfl

theorem encodeMinMaxResponse_some (scannedKeys : ℕ) (minKey maxKey : Bytes) :
    encodeMinMaxResponse scannedKeys (some minKey) (some maxKey) =
      Bytes.toBe 8 scannedKeys ++ Bytes.toBe 8 1 ++ (Bytes.toBe 2 minKey.length ++
        (minKey ++ (Bytes.toBe 2 maxKey.length ++ (maxKey ++ [])))) := by
  simp [encodeMinMaxResponse]

theorem decodeMinMaxResponse_some (scannedKeys : ℕ) (hmin : minKey.length < 2 ^ 16)
    (hmax : maxKey.length < 2 ^ 16) :
    (decodeMinMaxResponse (encodeMinMaxResponse scannedKeys (some minKey) (some maxKey))).map
      Prod.snd = .ok (some (minKey, maxKey)) := by
  have h₁ : Bytes.ofBe (Bytes.toBe 2 minKey.length) = minKey.length :=
    (Bytes.ofBe_toBe ..).trans <| Nat.mod_eq_of_lt hmin
  have h₂ : Bytes.ofBe (Bytes.toBe 2 maxKey.length) = maxKey.length :=
    (Bytes.ofBe_toBe ..).trans <| Nat.mod_eq_of_lt hmax
  rw [encodeMinMaxResponse_some, decodeMinMaxResponse, splitBytes_header]
  simp only [bind, Except.bind, splitBytes_append, Bytes.length_toBe, h₁, h₂, drop_header]
  rfl

-- With a length that is cut, there are bytes behind the keys.
theorem lt_of_decodeMinMaxResponse {minKey maxKey : Bytes}
    (h : decodeMinMaxResponse (encodeMinMaxResponse n (some minKey) (some maxKey)) = .ok r) :
    minKey.length < 2 ^ 16 ∧ maxKey.length < 2 ^ 16 := by
  rw [encodeMinMaxResponse_some, decodeMinMaxResponse, splitBytes_header] at h
  have ⟨_, rfl, h⟩ := Except.exists_of_bind_eq_ok h
  have ⟨⟨minLen, b₁⟩, h₁, h⟩ := Except.exists_of_bind_eq_ok h
  have ⟨⟨minKey', b₂⟩, h₂, h⟩ := Except.exists_of_bind_eq_ok h
  have ⟨⟨maxLen, b₃⟩, h₃, h⟩ := Except.exists_of_bind_eq_ok h
  have ⟨⟨maxKey', b₄⟩, h₄, h⟩ := Except.exists_of_bind_eq_ok h
  have ⟨hl₁, he₁⟩ := splitBytes_eq_ok_iff.mp h₁
  have ⟨hl₂, he₂⟩ := splitBytes_eq_ok_iff.mp h₂
  have ⟨hl₃, he₃⟩ := splitBytes_eq_ok_iff.mp h₃
  have ⟨hl₄, he₄⟩ := splitBytes_eq_ok_iff.mp h₄
  have ⟨hml, hb₁⟩ := List.append_inj he₁ <| (Bytes.length_toBe ..).trans hl₁.symm
  have hb₄ : b₄ = [] := by
    by_contra hb
    have hb : b₄.isEmpty = false := by simpa using hb
    simp only [hb, Bool.not_false, ↓reduceIte] at h
    cases h
  have hmin : minKey'.length = minKey.length % 2 ^ 16 := by
    rw [hl₂, ← hml]
    exact Bytes.ofBe_toBe ..
  have hmax := ofBe_lt maxLen
  rw [hl₃, ← hl₄] at hmax
  have hlen := congrArg List.length <| hb₁.trans he₂
  rw [he₃, he₄, hb₄] at hlen
  simp only [List.length_append, Bytes.length_toBe, List.length_nil, hl₃] at hlen
  omega

end MinMax

section Answers

variable {req : CoprocessorRequest} {pairs : List KvPair}

-- Without positions of join terms, every key is tested with the same empty key.
def CoprocessorRequest.Keeps (req : CoprocessorRequest) : Bool :=
  req.bloomFilter.all (bloomCheck · [])

abbrev CoprocessorRequest.matching (req : CoprocessorRequest) (pairs : List KvPair) :
    List KvPair :=
  Coprocessor.matching req.tablePrefix req.keyPrefix pairs

def CoprocessorRequest.matchingKeys (req : CoprocessorRequest) (pairs : List KvPair) :
    Set Bytes :=
  {key | ∃ value, (key, value) ∈ req.matching pairs}

def CoprocessorRequest.kept (req : CoprocessorRequest) (pairs : List KvPair) : List KvPair :=
  if req.Keeps then req.matching pairs else []

theorem scanRequest_pairs (req : CoprocessorRequest) (pairs : List KvPair) :
    ∃ result, scanRequest req pairs = some result ∧ result.pairs = req.kept pairs := by
  let params : IndexScanParams := ⟨req.tablePrefix, req.keyPrefix, 0, req.bloomFilter, []⟩
  have hp : ∀ pair ∈ pairs, params.fullPrefix <+: (id pair).1 →
      params.prunes (id pair).1 = some (!req.Keeps) := by
    intro pair _ _
    rcases hf : req.bloomFilter with _ | f
    case none => simp [params, IndexScanParams.prunes, CoprocessorRequest.Keeps, hf]
    case some =>
      simp only [params, IndexScanParams.prunes, CoprocessorRequest.Keeps, hf, Option.all_some]
      rfl
  obtain ⟨result, hr, hpairs⟩ := IndexScanParams.executeIndexScan_spec hp
  rw [List.map_id] at hr hpairs
  refine ⟨result, hr, hpairs.trans ?_⟩
  have hl (l : List KvPair) : limited params.limit l = l := rfl
  rw [hl, CoprocessorRequest.kept]
  cases req.Keeps
  case false => simp
  case true => simp [matching, params, IndexScanParams.fullPrefix]

-- An answer that is read from the response to a request.
def Decoded (req : CoprocessorRequest) (pairs : List KvPair) (answer : Answer) : Prop :=
  ∃ data, respond req pairs = some data ∧ Answer.decode req.opType data = .ok answer

theorem ofPairs_scan (ho : req.opType = .indexScan ∨ req.opType = .filterScan) :
    Answer.ofPairs req pairs = some (.pairs (req.kept pairs)) := by
  have ⟨result, hr, hp⟩ := scanRequest_pairs req pairs
  rcases ho with ho | ho <;> simp [Answer.ofPairs, ho, hr, hp]

theorem decoded_scan_iff (ho : req.opType = .indexScan ∨ req.opType = .filterScan) :
    Decoded req pairs answer ↔ ∃ l : List KvPair, answer = .pairs l ∧
      decodePairs ((req.kept pairs).length % 2 ^ 64) ((req.kept pairs).flatMap encodePair) =
        .ok l := by
  obtain ⟨result, hr, hp⟩ := scanRequest_pairs req pairs
  have hd : respond req pairs = some (encodeScanResponse result.scannedKeys result.pairs) := by
    rcases ho with ho | ho <;> simp [respond, ho, hr]
  have hd' (data : Bytes) : Answer.decode req.opType data =
      (decodeScanResponse data).map fun r => .pairs r.2 := by
    rcases ho with ho | ho
    all_goals
      simp only [Answer.decode, ho]
      cases decodeScanResponse data <;> rfl
  simp only [Decoded, hd, hd', Option.some_inj, exists_eq_left']
  rw [← hp, ← decodeScanResponse_eq result.scannedKeys]
  cases decodeScanResponse (encodeScanResponse result.scannedKeys result.pairs)
  case error => simp [Except.map]
  case ok r =>
    simp only [Except.map, Except.ok.injEq]
    constructor
    case mp => exact fun h => ⟨r.2, h.symm, rfl⟩
    case mpr =>
      rintro ⟨l, h, hl⟩
      rw [h, hl]

theorem decoded_count_iff (ho : req.opType = .countScan) :
    Decoded req pairs answer ↔ answer = .count ((req.matching pairs).length % 2 ^ 64) := by
  let result := executeCount req.tablePrefix req.keyPrefix pairs
  have hd : respond req pairs = some (encodeCountResponse result.scannedKeys result.count) := by
    simp [respond, ho, result]
  have hd' (data : Bytes) : Answer.decode req.opType data =
      ((decodeCountResponse data).map Prod.snd).map Answer.count := by
    simp only [Answer.decode, ho]
    cases decodeCountResponse data <;> rfl
  simp only [Decoded, hd, hd', Option.some_inj, exists_eq_left', decodeCountResponse_eq]
  simp only [Except.map, Except.ok.injEq, result, executeCount_count]
  exact eq_comm

-- There are no keys or a smallest and a largest one.
theorem executeMinMax_keys (tablePrefix : UInt8) (keyPrefix : Bytes) (pairs : List KvPair) :
    (executeMinMax tablePrefix keyPrefix pairs).minKey.isSome =
      (executeMinMax tablePrefix keyPrefix pairs).maxKey.isSome := by
  have ⟨hmin, hmax⟩ : (executeMinMax tablePrefix keyPrefix pairs).Spans _ := executeMinMax_spans
  exact Bool.eq_iff_iff.mpr <| hmin.isSome.trans hmax.isSome.symm

theorem decoded_minMax_iff (ho : req.opType = .minMaxScan)
    (hr : executeMinMax req.tablePrefix req.keyPrefix pairs = result) :
    Decoded req pairs answer ↔ answer = .minMax result.minKey result.maxKey ∧
      (∀ key ∈ result.minKey, key.length < 2 ^ 16) ∧
      ∀ key ∈ result.maxKey, key.length < 2 ^ 16 := by
  have hd : respond req pairs =
      some (encodeMinMaxResponse result.scannedKeys result.minKey result.maxKey) := by
    simp [respond, ho, hr]
  have hd' (data : Bytes) : Answer.decode req.opType data =
      ((decodeMinMaxResponse data).map Prod.snd).map
        fun keys => .minMax (keys.map Prod.fst) (keys.map Prod.snd) := by
    simp only [Answer.decode, ho]
    cases decodeMinMaxResponse data <;> rfl
  simp only [Decoded, hd, hd', Option.some_inj, exists_eq_left']
  have hk := executeMinMax_keys req.tablePrefix req.keyPrefix pairs
  rw [hr] at hk
  rcases result with ⟨_ | minKey, _ | maxKey, n⟩
  case none.some | some.none => cases hk
  case none.none =>
    rw [decodeMinMaxResponse_none]
    simp [Except.map, eq_comm]
  case some.some =>
    constructor
    case mp =>
      intro h
      cases hm : decodeMinMaxResponse (encodeMinMaxResponse n (some minKey) (some maxKey))
      case error =>
        rw [hm] at h
        cases h
      case ok =>
        obtain ⟨h₁, h₂⟩ := lt_of_decodeMinMaxResponse hm
        rw [decodeMinMaxResponse_some n h₁ h₂] at h
        cases h
        exact ⟨rfl, fun _ h => Option.some_inj.mp h ▸ h₁, fun _ h => Option.some_inj.mp h ▸ h₂⟩
    case mpr =>
      rintro ⟨rfl, h₁, h₂⟩
      rw [decodeMinMaxResponse_some n (h₁ _ rfl) (h₂ _ rfl)]
      rfl

end Answers

namespace Split

variable (split : Split)

def part (i : Fin split.count) (pairs : List KvPair) : List KvPair :=
  pairs.filter fun pair => split.regionOf pair.1 = i

variable {split} {pairs : List KvPair} {i : Fin split.count} {req : CoprocessorRequest}

-- Every region answers for its part of the pairs.
theorem respond_eq (h : decodeRequest request = .ok req) :
    (split.respond kv ranges request i).run =
      (Coprocessor.respond req (split.part i (requestedPairs kv ranges))).map .ok := by
  have hs : ranges.mapM (localStorage kv fun key => split.regionOf key = i).scan =
      .ok (ranges.map fun range => kv.filter fun pair =>
        split.regionOf pair.1 = i && range.1 ≤ pair.1 && pair.1 < range.2) := by
    induction ranges
    case nil => rfl
    case cons hi =>
      rw [List.mapM_cons, hi]
      rfl
  have hp : (ranges.map fun range => kv.filter fun pair =>
      split.regionOf pair.1 = i && range.1 ≤ pair.1 && pair.1 < range.2).flatten =
        split.part i (requestedPairs kv ranges) := by
    rw [part, requestedPairs, List.filter_flatMap, ← List.flatMap_def]
    simp only [List.filter_filter, Bool.and_assoc]
  have hl (ls : List (List KvPair)) :
      ((ExceptT.mk (some (.ok ls)) >>= fun allPairs =>
        ExceptT.lift (Coprocessor.respond req allPairs.flatten) :
          Checked PluginError Bytes)).run = (Coprocessor.respond req ls.flatten).map .ok := by
    change (ExceptT.lift (Coprocessor.respond req ls.flatten)).run = _
    cases Coprocessor.respond req ls.flatten <;> rfl
  rw [Split.respond, onRawCoprocessorRequest, h, ← hp, ← hl, ← hs]

theorem matching_part (req : CoprocessorRequest) :
    req.matching (split.part i pairs) = split.part i (req.matching pairs) := by
  simp only [matching, part, List.filter_filter]
  exact List.filter_congr fun _ _ => Bool.and_comm ..

theorem kept_part (req : CoprocessorRequest) :
    req.kept (split.part i pairs) = split.part i (req.kept pairs) := by
  unfold CoprocessorRequest.kept
  split
  · exact matching_part req
  · rfl

-- The parts are disjoint and there is nothing besides them.
theorem sum_part : ∑ i, (split.part i pairs : Multiset KvPair) = pairs := by
  induction pairs
  case nil => simp [part]
  case cons pair pairs hi =>
    have hc (i : Fin split.count) : (split.part i (pair :: pairs) : Multiset KvPair) =
        (if split.regionOf pair.1 = i then {pair} else 0) + split.part i pairs := by
      by_cases h : split.regionOf pair.1 = i <;> simp [part, h]
    simp only [hc, Finset.sum_add_distrib, hi]
    simp

theorem sum_length_part : ∑ i, (split.part i pairs).length = pairs.length := by
  have h : ∑ i, (split.part i pairs : Multiset KvPair) = pairs := sum_part
  simpa using congrArg Multiset.card h

-- Nothing that a region sends back is cut.
def Fits (split : Split) (req : CoprocessorRequest) (pairs : List KvPair) : Prop :=
  match req.opType with
  | .indexScan | .filterScan =>
    (∀ pair ∈ req.kept pairs, Coprocessor.Fits pair) ∧
      ∀ i, (req.kept (split.part i pairs)).length < 2 ^ 64
  | .countScan  => ∀ i, (req.matching (split.part i pairs)).length < 2 ^ 64
  | .minMaxScan =>
    ∀ i key, IsLeast (req.matchingKeys (split.part i pairs)) key ∨
      IsGreatest (req.matchingKeys (split.part i pairs)) key → key.length < 2 ^ 16

-- The merged answers of the regions are the answer of the whole key space.
def Agrees (split : Split) (req : CoprocessorRequest) (pairs : List KvPair) : Prop :=
  ∃ answers : Fin split.count → Answer, (∀ i, Decoded req (split.part i pairs) (answers i)) ∧
    Answer.ofPairs req pairs = some (.merge req.opType (List.ofFn answers))

-- A sum of remainders is the sum of the numbers if and only if they are remainders themselves.
theorem sum_mod_eq_iff {f : Fin n → ℕ} (m : ℕ) (hm : 0 < m) :
    ∑ i, f i % m = ∑ i, f i ↔ ∀ i, f i < m := by
  constructor
  case mp =>
    intro h i
    have hi := (Finset.sum_eq_sum_iff_of_le fun i _ => Nat.mod_le (f i) m).mp h i
    exact hi (Finset.mem_univ _) ▸ Nat.mod_lt _ hm
  case mpr => exact fun h => Finset.sum_congr rfl fun i _ => Nat.mod_eq_of_lt (h i)

theorem agrees_scan_iff (ho : req.opType = .indexScan ∨ req.opType = .filterScan) :
    split.Agrees req pairs ↔ split.Fits req pairs := by
  have hm (answers : Fin split.count → List KvPair) :
      Answer.merge req.opType (List.ofFn fun i => .pairs (answers i)) =
        .pairs (∑ i, (answers i : Multiset KvPair)) := by
    rcases ho with ho | ho <;> simp [Answer.merge, ho, List.map_ofFn, List.sum_ofFn]
  have hf : split.Fits req pairs ↔ (∀ pair ∈ req.kept pairs, Coprocessor.Fits pair) ∧
      ∀ i, (req.kept (split.part i pairs)).length < 2 ^ 64 := by
    rcases ho with ho | ho <;> simp [Fits, ho]
  simp only [Agrees, ofPairs_scan ho, decoded_scan_iff ho, hf]
  constructor
  case mp =>
    rintro ⟨answers, hd, he⟩
    choose l hl hd using hd
    obtain rfl : answers = fun i => .pairs (l i) := funext hl
    rw [hm, Option.some_inj, Answer.pairs.injEq] at he
    constructor
    · intro pair hp
      have hp : pair ∈ ∑ i, (l i : Multiset KvPair) := he ▸ hp
      have ⟨i, _, hp⟩ := Multiset.mem_sum.mp hp
      exact (decodePairs_spec (hd i)).2 pair hp
    · -- Every region sends the remainder of its number of pairs.
      have hs : ∑ i, (split.part i (req.kept pairs)).length = _ := sum_length_part
      have hc := congrArg Multiset.card he
      rw [Multiset.coe_card, Multiset.card_sum, ← hs] at hc
      simp only [Multiset.coe_card, (decodePairs_spec (hd _)).1, kept_part] at hc
      simp only [kept_part]
      exact (sum_mod_eq_iff _ (by positivity)).mp hc.symm
  case mpr =>
    intro ⟨hp, hn⟩
    refine ⟨fun i => .pairs (req.kept (split.part i pairs)), fun i => ⟨_, rfl, ?_⟩, ?_⟩
    · rw [Nat.mod_eq_of_lt (hn i)]
      apply decodePairs_flatMap
      intro pair hm
      rw [kept_part] at hm
      exact hp pair (List.mem_of_mem_filter hm)
    · rw [hm]
      simp only [kept_part, sum_part]

theorem agrees_count_iff (ho : req.opType = .countScan) :
    split.Agrees req pairs ↔ split.Fits req pairs := by
  have hm (counts : Fin split.count → ℕ) :
      Answer.merge req.opType (List.ofFn fun i => .count (counts i)) = .count (∑ i, counts i) := by
    simp [Answer.merge, ho, List.map_ofFn, List.sum_ofFn]
  have hp : Answer.ofPairs req pairs = some (.count (req.matching pairs).length) := by
    simp [Answer.ofPairs, ho, executeCount_count]
  have hf : split.Fits req pairs ↔ ∀ i, (split.part i (req.matching pairs)).length < 2 ^ 64 := by
    simp [Fits, ho, matching_part]
  have hs : ∑ i, (split.part i (req.matching pairs)).length = _ := sum_length_part
  rw [hf, ← sum_mod_eq_iff _ (by positivity), hs]
  simp only [Agrees, hp, decoded_count_iff ho, matching_part]
  constructor
  case mp =>
    rintro ⟨answers, ha, he⟩
    obtain rfl := funext ha
    rw [hm, Option.some_inj, Answer.count.injEq] at he
    exact he.symm
  case mpr =>
    intro h
    exact ⟨_, fun i => rfl, by rw [hm, h]⟩

-- The best key of all regions is the best one of the best keys of each region.
theorem best_part {r : Bytes → Bytes → Prop} [Std.Antisymm r] [Std.Total r] [IsTrans Bytes r]
    {better : Bytes → Bytes → Bool} (hb : ∀ a b, better a b ↔ ¬r b a)
    (best : List KvPair → Option Bytes)
    (h : ∀ pairs, IsBest r (best pairs) (req.matchingKeys pairs))
    (split : Split) (pairs : List KvPair) :
    best pairs =
      ((List.ofFn fun i => best (split.part i pairs)).filterMap id).foldl (·.pick better) none := by
  let parts := (List.finRange split.count).map fun i =>
    (best (split.part i pairs), req.matchingKeys (split.part i pairs))
  have hp : ∀ p ∈ parts, IsBest r p.1 p.2 := by
    intro p hp
    have ⟨i, _, hp⟩ := List.mem_map.mp hp
    exact hp ▸ h _
  have hs : req.matchingKeys pairs = {key | ∃ p ∈ parts, key ∈ p.2} := by
    ext key
    simp only [parts, CoprocessorRequest.matchingKeys, matching_part]
    simp [part]
  have hf := IsBest.flatten hb parts hp
  rw [← hs] at hf
  have ho : parts.filterMap Prod.fst =
      (List.ofFn fun i => best (split.part i pairs)).filterMap id := by
    simp [parts, List.ofFn_eq_map, List.filterMap_map]
  exact (h pairs).unique (ho ▸ hf)

theorem merge_minMax (ho : req.opType = .minMaxScan) (split : Split) (pairs : List KvPair) :
    Answer.ofPairs req pairs = some (.merge req.opType (List.ofFn fun i =>
      let result := executeMinMax req.tablePrefix req.keyPrefix (split.part i pairs)
      .minMax result.minKey result.maxKey)) := by
  have hmin := best_part MinMaxResult.less_iff
    (fun pairs => (executeMinMax req.tablePrefix req.keyPrefix pairs).minKey)
    (fun _ => executeMinMax_spans.minKey) split pairs
  have hmax := best_part MinMaxResult.greater_iff
    (fun pairs => (executeMinMax req.tablePrefix req.keyPrefix pairs).maxKey)
    (fun _ => executeMinMax_spans.maxKey) split pairs
  simp only [Answer.ofPairs, Answer.merge, ho]
  rw [hmin, hmax]
  simp only [List.ofFn_eq_map, List.filterMap_map]
  rfl

theorem agrees_minMax_iff (ho : req.opType = .minMaxScan) :
    split.Agrees req pairs ↔ split.Fits req pairs := by
  have hf : split.Fits req pairs ↔ ∀ i,
      let result := executeMinMax req.tablePrefix req.keyPrefix (split.part i pairs)
      (∀ key ∈ result.minKey, key.length < 2 ^ 16) ∧
        ∀ key ∈ result.maxKey, key.length < 2 ^ 16 := by
    simp only [Fits, ho]
    apply forall_congr'
    intro i
    have ⟨hmin, hmax⟩ : (executeMinMax req.tablePrefix req.keyPrefix (split.part i pairs)).Spans
      (req.matchingKeys (split.part i pairs)) := executeMinMax_spans
    simp only [hmin.mem_iff, hmax.mem_iff, ← forall_and, or_imp]
    rfl
  simp only [hf, Agrees, decoded_minMax_iff ho rfl]
  constructor
  case mp => exact fun ⟨_, ha, _⟩ i => (ha i).2
  case mpr => exact fun h => ⟨_, fun i => ⟨rfl, h i⟩, merge_minMax ho split pairs⟩

theorem agrees_iff : split.Agrees req pairs ↔ split.Fits req pairs := by
  rcases ho : req.opType
  case indexScan => exact agrees_scan_iff <| .inl ho
  case filterScan => exact agrees_scan_iff <| .inr ho
  case countScan => exact agrees_count_iff ho
  case minMaxScan => exact agrees_minMax_iff ho

end Split

-- A count is the number of pairs of a scan.
theorem count_eq_scan_iff (req : CoprocessorRequest) (pairs : List KvPair) :
    (scanRequest req pairs).map (·.pairs.length) =
        some (executeCount req.tablePrefix req.keyPrefix pairs).count ↔
      req.Keeps ∨ req.matching pairs = [] := by
  have ⟨result, hr, hp⟩ := scanRequest_pairs req pairs
  rw [hr, Option.map_some, hp, executeCount_count, Option.some_inj, CoprocessorRequest.kept]
  split
  case isTrue h => simp [h]
  case isFalse h => simp [h, eq_comm]

-- The regions together answer like the whole key space, and counts agree with scans.
structure RegionsAgree (split : Split) (kv : List KvPair) (ranges : List (Bytes × Bytes))
    (request : Bytes) (req : CoprocessorRequest) : Prop where
  merged  : ∃ answers : Fin split.count → Answer,
    (∀ i, ∃ data, (split.respond kv ranges request i).run = some (.ok data) ∧
      Answer.decode req.opType data = .ok (answers i)) ∧
    Answer.ofPairs req (requestedPairs kv ranges) =
      some (.merge req.opType (List.ofFn answers))
  counted : (scanRequest req (requestedPairs kv ranges)).map (·.pairs.length) =
    some (executeCount req.tablePrefix req.keyPrefix (requestedPairs kv ranges)).count

theorem regionsAgree_iff (split : Split) (kv : List KvPair) (ranges : List (Bytes × Bytes))
    (h : decodeRequest request = .ok req) :
    RegionsAgree split kv ranges request req ↔
      split.Fits req (requestedPairs kv ranges) ∧
        (req.Keeps ∨ req.matching (requestedPairs kv ranges) = []) := by
  have hm : (∃ answers : Fin split.count → Answer,
      (∀ i, ∃ data, (split.respond kv ranges request i).run = some (.ok data) ∧
        Answer.decode req.opType data = .ok (answers i)) ∧
      Answer.ofPairs req (requestedPairs kv ranges) =
        some (.merge req.opType (List.ofFn answers))) ↔
      split.Agrees req (requestedPairs kv ranges) := by
    simp only [Split.respond_eq h, Split.Agrees, Decoded, Option.map_eq_some_iff, Except.ok.injEq,
      exists_eq_right]
  rw [← count_eq_scan_iff, ← Split.agrees_iff, ← hm]
  exact ⟨fun h => ⟨h.merged, h.counted⟩, fun h => ⟨h.1, h.2⟩⟩

-- Two regions with one key each, and a request for the smallest and the largest one.
theorem regionsAgree_minMax :
    RegionsAgree ⟨2, fun key => if key < [5, 2] then 0 else 1⟩ [([5, 1], []), ([5, 3], [])]
      [([5], [6])] [3, 5, 0, 0] ⟨.minMaxScan, 5, [], none⟩ := by
  apply (regionsAgree_iff _ _ _ rfl).mpr
  refine ⟨fun i key hk => ?_, .inl rfl⟩
  have ⟨_, hm⟩ := hk.elim And.left And.left
  have hm := List.mem_of_mem_filter (mem_matching.mp hm).1
  simp only [requestedPairs, List.mem_flatMap, List.mem_filter, List.mem_cons, Prod.mk.injEq] at hm
  obtain ⟨_, _, (⟨rfl, _⟩ | ⟨rfl, _⟩ | h), _⟩ := hm
  · decide
  · decide
  · cases h

-- A scan drops the only key that a count counts, since the filter has no bit for the empty key.
theorem not_regionsAgree_bloomFilter :
    decodeRequest [0, 5, 0, 0, 0] = .ok ⟨.indexScan, 5, [], some [0]⟩ ∧
    ¬RegionsAgree ⟨1, fun _ => 0⟩ [([5, 1], [])] [([5], [6])] [0, 5, 0, 0, 0]
      ⟨.indexScan, 5, [], some [0]⟩ := by
  refine ⟨rfl, fun h => ?_⟩
  have hc := h.counted
  exact absurd hc (by decide +kernel)

end Coprocessor
