import OxigraphCloud.Primitives.Iterator
import OxigraphCloud.Primitives.Toggles
import OxigraphCloud.Storage.Memory.Transaction

namespace Memory

namespace VersionRange

variable {range : VersionRange} {version transactionId : ℕ}

-- The versions at which something has been added and removed, in turns.
def toggles : VersionRange → List ℕ
  | empty             => []
  | start s           => [s]
  | startEnd s finish => [s, finish]
  | bigger vec        => vec

theorem chunksContain_iff {vec : List ℕ} (h : vec.Pairwise (· < ·)) :
    chunksContain version vec ↔ Toggles.Has version vec := by
  fun_induction chunksContain version vec
  case case1 s finish vec hi =>
    simp only [List.pairwise_cons, List.mem_cons, forall_eq_or_imp] at h
    have ⟨⟨hs, _⟩, hf, hv⟩ := h
    have hi := hi hv
    -- The version is before the first change, between both changes, or behind them.
    rcases lt_or_ge version s with h₁ | h₁ <;> rcases lt_or_ge version finish with h₂ | h₂
    · simp [Toggles.Has, h₁.not_ge, h₂.not_ge, hi]
    · omega
    · have hc : vec.countP (· ≤ version) = 0 := List.countP_eq_zero.mpr fun v hv => by
        simpa using h₂.trans (hf v hv)
      simp [Toggles.Has, h₁, h₂, h₂.not_ge, hc]
    · simp [Toggles.Has, h₁, h₂, h₂.not_gt, hi, Nat.odd_add_one]
  case case2 s => by_cases h : s ≤ version <;> simp [Toggles.Has, h]
  case case3 => simp [Toggles.Has]

theorem contains_iff (h : range.toggles.Pairwise (· < ·)) :
    range.contains version ↔ Toggles.Has version range.toggles := by
  rw [← chunksContain_iff h]
  cases range <;> simp [contains, chunksContain, toggles]

theorem toggles_pop {vec : List ℕ} : (pop vec).toggles = vec.dropLast := by
  unfold pop
  split <;> rfl

-- The function changes ranges to contain the version, or to not contain it, and tells whether they
-- did not do so before.
structure Sets (b : Bool) (version : ℕ) (f : VersionRange → Bool × VersionRange) : Prop where
  changed : ∀ range, (f range).1 = true ↔ ¬(Odd range.toggles.length ↔ b)
  toggles : ∀ range, (f range).2.toggles =
    if (f range).1 then Toggles.flip version range.toggles else range.toggles

theorem sets_add : Sets true version (add version) := by
  constructor <;> intro range <;> cases range
  case changed.bigger vec => grind [add, VersionRange.toggles]
  case toggles.bigger vec => grind [add, VersionRange.toggles, Toggles.flip]
  case toggles.startEnd s finish =>
    by_cases h : version = finish <;> simp [add, VersionRange.toggles, Toggles.flip, h, eq_comm]
  all_goals simp [add, VersionRange.toggles, Toggles.flip, Nat.odd_iff]

theorem sets_remove : Sets false version (remove version) := by
  constructor <;> intro range <;> cases range
  case changed.bigger vec => grind [remove, VersionRange.toggles]
  case toggles.bigger vec =>
    simp only [remove, VersionRange.toggles, Toggles.flip]
    grind [VersionRange.toggles, toggles_pop]
  case toggles.start s => grind [remove, VersionRange.toggles, Toggles.flip]
  all_goals simp [remove, VersionRange.toggles, Nat.odd_iff]

theorem toggles_upgradeTransaction : (range.upgradeTransaction transactionId version).toggles =
    Toggles.upgrade transactionId version range.toggles := by
  cases range
  case bigger vec =>
    cases Toggles.cases_getLast transactionId vec
    case inl h =>
      have ⟨vec', h⟩ := h
      simp [h, upgradeTransaction, toggles, Toggles.upgrade]
    case inr h => simp [h, upgradeTransaction, toggles, Toggles.upgrade]
  all_goals grind [upgradeTransaction, toggles, Toggles.upgrade]

theorem toggles_rollbackTransaction : (range.rollbackTransaction transactionId).toggles =
    Toggles.rollback transactionId range.toggles := by
  cases range
  case bigger vec => grind [rollbackTransaction, toggles, Toggles.rollback, toggles_pop]
  all_goals grind [rollbackTransaction, toggles, Toggles.rollback]

end VersionRange

namespace Content

variable {content : Content} {entry : LogEntry}

-- The versions at which a quad or a named graph has been added and removed.
def history (content : Content) (entry : LogEntry) : List ℕ :=
  (content.range entry).elim [] VersionRange.toggles

theorem history_empty : empty.history entry = [] := by cases entry <;> rfl

theorem range_modify {f : VersionRange → VersionRange} (entry' : LogEntry) :
    (content.modify f entry).range entry' =
      if entry' = entry then (content.range entry).map f else content.range entry' := by
  cases entry <;> cases entry'
  case quadNode.quadNode =>
    simp only [range, node, modify, LogEntry.quadNode.injEq]
    rw [Keyed.get_modify (by simp)]
    split <;> simp [Function.comp_def]
  case graph.graph =>
    simp only [range, graph, modify, LogEntry.graph.injEq]
    rw [Keyed.get_modify (by simp)]
    split <;> simp [Function.comp_def]
  all_goals simp [range, node, graph, modify]

theorem history_modify {f : VersionRange → VersionRange} {g : List ℕ → List ℕ}
    (hg : ∀ range, (f range).toggles = g range.toggles)
    (he : content.range entry = none → g [] = []) :
    (content.modify f entry).history =
      Function.update content.history entry (g (content.history entry)) := by
  funext entry'
  by_cases h : entry' = entry
  · subst h
    cases hr : content.range entry'
    case none => simp [history, range_modify, hr, he hr]
    case some => simp [history, range_modify, hr, hg]
  · simp [history, range_modify, h]

theorem history_pushNode {quad : EncodedQuad} :
    (content.pushNode quad (.start version)).history =
      Function.update content.history (.quadNode quad) [version] := by
  funext entry'
  cases entry'
  case graph => simp [history, range, pushNode, graph]
  case quadNode quad' =>
    by_cases h : quad' = quad
    · simp [h, history, range, pushNode, node, Keyed.get, VersionRange.toggles]
    · simp [h, Ne.symm h, history, range, pushNode, node, Keyed.get]

theorem history_pushGraph {graphName : EncodedTerm} :
    (content.pushGraph graphName (.start version)).history =
      Function.update content.history (.graph graphName) [version] := by
  funext entry'
  cases entry'
  case quadNode => simp [history, range, pushGraph, node]
  case graph graphName' =>
    by_cases h : graphName' = graphName
    · simp [h, history, range, pushGraph, graph, Keyed.get, VersionRange.toggles]
    · simp [h, Ne.symm h, history, range, pushGraph, graph, Keyed.get]

-- New nodes are put in front of the others, which keep their places.
def Grows (content content' : Content) : Prop :=
  ∃ new f, (∀ a : QuadListNode, (f a).quad = a.quad) ∧
    (∀ a kind, (f a).previousIn kind = a.previousIn kind) ∧
    content'.quadSet = new ++ content.quadSet.map f

theorem Grows.of_eq {content' : Content} (h : content'.quadSet = content.quadSet) :
    content.Grows content' :=
  ⟨[], id, fun _ => rfl, fun _ _ => rfl, by simp [h]⟩

theorem Grows.trans {content' content'' : Content} (h : content.Grows content')
    (h' : content'.Grows content'') : content.Grows content'' := by
  obtain ⟨new, f, hq, hl, he⟩ := h
  obtain ⟨new', f', hq', hl', he'⟩ := h'
  exact ⟨new' ++ new.map f', f' ∘ f, fun a => (hq' _).trans (hq a),
    fun a k => (hl' _ k).trans (hl a k), by simp [he', he]⟩

theorem grows_modify {f : VersionRange → VersionRange} :
    content.Grows (content.modify f entry) := by
  cases entry
  case graph => exact .of_eq rfl
  case quadNode node =>
    refine ⟨[], _, fun a => ?_, fun a kind => ?_, rfl⟩
    · dsimp only
      split <;> rfl
    · dsimp only
      split <;> cases kind <;> rfl

theorem grows_pushNode {r : VersionRange} : content.Grows (content.pushNode quad r) :=
  ⟨[_], id, fun _ => rfl, fun _ _ => rfl, by simp [pushNode]; rfl⟩

-- The quads and the named graphs of a set of entries.
def dataset (entries : Set LogEntry) : Dataset where
  quads       := { quad | .quadNode quad ∈ entries }
  namedGraphs := { graphName | .graph graphName ∈ entries }

end Content

namespace MemoryStorageReader

variable {r : MemoryStorageReader} {content : Content}

-- What can be found by the reader.
def dataset (r : MemoryStorageReader) (content : Content) : Dataset where
  quads       := { quad | r.contains content quad }
  namedGraphs := { graphName | r.containsNamedGraph content graphName }

theorem isInRange_iff (hs : ∀ entry, (content.history entry).Pairwise (· < ·)) (entry : LogEntry) :
    (content.range entry).any r.isInRange ↔
      entry ∈ Toggles.seen content.history r.snapshotId := by
  have hs := hs entry
  simp only [Toggles.seen, Content.history, Set.mem_ofPred_eq] at hs ⊢
  cases hr : content.range entry
  case none => simp [Toggles.Has]
  case some range =>
    rw [hr] at hs
    exact VersionRange.contains_iff hs

theorem dataset_eq (hs : ∀ entry, (content.history entry).Pairwise (· < ·)) :
    r.dataset content = Content.dataset (Toggles.seen content.history r.snapshotId) := by
  refine Dataset.ext (Set.ext fun quad => ?_) (Set.ext fun graphName => ?_)
  · refine Iff.trans ?_ (isInRange_iff hs (.quadNode quad))
    simp only [dataset, contains, Content.range, Set.mem_ofPred_eq]
    cases content.node quad <;> simp [isNodeInRange]
  · exact isInRange_iff hs (.graph graphName)

end MemoryStorageReader

end Memory
