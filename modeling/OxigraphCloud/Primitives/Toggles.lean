import Mathlib

-- Sets with a history. For each element there is the list of the versions at which it has been
-- added and taken out, in turns. A single transaction changes the sets at a time. Its changes are
-- marked with a version that is higher than all others, which is replaced when the transaction is
-- committed.

namespace Toggles

variable {l : List ℕ} {limit txn version n : ℕ}

-- The change at `version` is either new or it takes back the last change.
def flip (version : ℕ) (l : List ℕ) : List ℕ :=
  if l.getLast? = some version then l.dropLast else l ++ [version]

def upgrade (txn version : ℕ) (l : List ℕ) : List ℕ :=
  if l.getLast? = some txn then l.dropLast ++ [version] else l

def rollback (txn : ℕ) (l : List ℕ) : List ℕ := if l.getLast? = some txn then l.dropLast else l

-- The element is there after an odd number of changes.
def Has (version : ℕ) (l : List ℕ) : Prop := Odd (l.countP (· ≤ version))

-- The list if the mark of the transaction is at its end, and otherwise.
theorem cases_getLast (txn : ℕ) (l : List ℕ) :
    (∃ l', l = l' ++ [txn]) ∨ l.getLast? ≠ some txn := by
  by_cases h : l.getLast? = some txn
  case pos => exact .inl <| List.getLast?_eq_some_iff.mp h
  case neg => exact .inr h

@[simp]
theorem flip_append : flip txn (l ++ [txn]) = l := by simp [flip]

theorem flip_of_ne (h : l.getLast? ≠ some txn) : flip txn l = l ++ [txn] := if_neg h

@[simp]
theorem upgrade_append : upgrade txn version (l ++ [txn]) = l ++ [version] := by simp [upgrade]

theorem upgrade_of_ne (h : l.getLast? ≠ some txn) : upgrade txn version l = l := if_neg h

@[simp]
theorem rollback_append : rollback txn (l ++ [txn]) = l := by simp [rollback]

theorem rollback_of_ne (h : l.getLast? ≠ some txn) : rollback txn l = l := if_neg h

theorem has_append (h : n < txn) : Has n (l ++ [txn]) ↔ Has n l := by
  simp [Has, h.not_ge]

theorem has_flip (h : n < txn) : Has n (flip txn l) ↔ Has n l := by
  rcases cases_getLast txn l with ⟨l, rfl⟩ | hl
  · rw [flip_append, has_append h]
  · rw [flip_of_ne hl, has_append h]

theorem has_upgrade (h : n < txn) (hv : n < version) : Has n (upgrade txn version l) ↔ Has n l := by
  rcases cases_getLast txn l with ⟨l, rfl⟩ | hl
  · rw [upgrade_append, has_append h, has_append hv]
  · rw [upgrade_of_ne hl]

theorem has_rollback (h : n < txn) : Has n (rollback txn l) ↔ Has n l := by
  rcases cases_getLast txn l with ⟨l, rfl⟩ | hl
  · rw [rollback_append, has_append h]
  · rw [rollback_of_ne hl]

-- All changes can be seen.
theorem has_iff_odd_length (h : ∀ v ∈ l, v ≤ n) : Has n l ↔ Odd l.length := by
  rw [Has, List.countP_eq_length.mpr fun v hv => decide_eq_true (h v hv)]

theorem odd_length_flip : Odd (flip txn l).length ↔ ¬Odd l.length := by
  rcases cases_getLast txn l with ⟨l, rfl⟩ | hl
  · simp [Nat.odd_add_one]
  · simp [flip_of_ne hl, Nat.odd_add_one]

theorem length_upgrade : (upgrade txn version l).length = l.length := by
  rcases cases_getLast txn l with ⟨l, rfl⟩ | hl
  · simp
  · rw [upgrade_of_ne hl]

-- What has been committed up to `limit`, while no transaction is running.
structure Settled (limit : ℕ) (l : List ℕ) : Prop where
  sorted : l.Pairwise (· < ·)
  bound  : ∀ v ∈ l, v ≤ limit

-- The last change may be from the transaction, all others are committed.
structure Ordered (limit txn : ℕ) (l : List ℕ) : Prop where
  sorted : l.Pairwise (· < ·)
  bound  : ∀ v ∈ l, v ≤ limit ∨ v = txn

theorem Settled.ordered (h : Settled limit l) : Ordered limit txn l where
  sorted     := h.sorted
  bound v hv := .inl (h.bound v hv)

theorem Settled.append (h : Settled limit l) (ht : limit < txn) :
    (l ++ [txn]).Pairwise (· < ·) := by
  refine List.pairwise_append.mpr ⟨h.sorted, List.pairwise_singleton .., fun v hv w hw => ?_⟩
  exact List.mem_singleton.mp hw ▸ (h.bound v hv).trans_lt ht

namespace Ordered

theorem settled (h : Ordered limit txn l) (ht : txn ∉ l) : Settled limit l where
  sorted     := h.sorted
  bound v hv := (h.bound v hv).resolve_right fun he => ht (he ▸ hv)

theorem settled_of_append (h : Ordered limit txn (l ++ [txn])) : Settled limit l := by
  obtain ⟨hl, -, hlt⟩ := List.pairwise_append.mp h.sorted
  refine settled ⟨hl, fun v hv => h.bound v (List.mem_append_left _ hv)⟩ fun ht => ?_
  exact lt_irrefl _ (hlt txn ht txn (List.mem_singleton_self _))

theorem settled_of_ne (h : Ordered limit txn l) (ht : limit < txn) (hl : l.getLast? ≠ some txn) :
    Settled limit l := by
  refine h.settled fun hm => ?_
  -- Behind the mark there can only be a higher version, and there is none.
  obtain ⟨l₁, l₂, rfl⟩ := List.append_of_mem hm
  cases l₂
  case nil => exact hl (by simp)
  case cons v l₂ =>
    have hv := (List.pairwise_cons.mp (List.pairwise_append.mp h.sorted).2.1).1 v (by simp)
    have := h.bound v (by simp)
    omega

theorem flip (h : Ordered limit txn l) (ht : limit < txn) : Ordered limit txn (flip txn l) := by
  rcases cases_getLast txn l with ⟨l, rfl⟩ | hl
  case inl =>
    rw [flip_append]
    exact h.settled_of_append.ordered
  case inr =>
    rw [flip_of_ne hl]
    refine ⟨(h.settled_of_ne ht hl).append ht, fun v hv => ?_⟩
    exact (List.mem_append.mp hv).elim (h.bound v) fun hv => .inr (List.mem_singleton.mp hv)

theorem rollback (h : Ordered limit txn l) (ht : limit < txn) :
    Settled limit (rollback txn l) := by
  rcases cases_getLast txn l with ⟨l, rfl⟩ | hl
  · rw [rollback_append]
    exact h.settled_of_append
  · rw [rollback_of_ne hl]
    exact h.settled_of_ne ht hl

theorem upgrade (h : Ordered limit txn l) (ht : limit < txn) :
    Settled (limit + 1) (upgrade txn (limit + 1) l) := by
  rcases cases_getLast txn l with ⟨l, rfl⟩ | hl
  case inl =>
    have hs := h.settled_of_append
    rw [upgrade_append]
    refine ⟨hs.append (Nat.lt_succ_self limit), fun v hv => ?_⟩
    rcases List.mem_append.mp hv with hv | hv
    · exact (hs.bound v hv).trans (Nat.le_succ limit)
    · exact (List.mem_singleton.mp hv).le
  case inr =>
    have hs := h.settled_of_ne ht hl
    rw [upgrade_of_ne hl]
    exact ⟨hs.sorted, fun v hv => (hs.bound v hv).trans (Nat.le_succ limit)⟩

end Ordered

variable {κ : Type} {H : κ → List ℕ} {k : κ} {log : List κ}

-- The elements that are there at a version.
def seen (H : κ → List ℕ) (n : ℕ) : Set κ := { k | Has n (H k) }

-- The elements that are there for the transaction.
def current (H : κ → List ℕ) : Set κ := { k | Odd (H k).length }

-- The elements that the transaction has changed are in its log.
structure Running (limit txn : ℕ) (log : List κ) (H : κ → List ℕ) : Prop where
  ordered : ∀ k, Ordered limit txn (H k)
  logged  : ∀ k, txn ∈ H k → k ∈ log

-- The changes of the elements that are not in the rest of the log have got their version.
structure Upgrading (limit txn : ℕ) (rest : List κ) (H : κ → List ℕ) : Prop where
  ordered : ∀ k, Ordered limit txn (H k) ∨ Settled (limit + 1) (H k)
  logged  : ∀ k, txn ∈ H k → k ∈ rest

theorem Running.upgrading (h : Running limit txn log H) : Upgrading limit txn log H where
  ordered k := .inl (h.ordered k)
  logged    := h.logged

theorem Running.settled (h : Running limit txn [] H) (k : κ) : Settled limit (H k) :=
  (h.ordered k).settled fun hk => List.not_mem_nil (h.logged k hk)

theorem Upgrading.settled (h : Upgrading limit txn [] H) (k : κ) : Settled (limit + 1) (H k) := by
  rcases h.ordered k with ho | hs
  case inr => exact hs
  case inl =>
    have hs := ho.settled fun hk => List.not_mem_nil (h.logged k hk)
    exact ⟨hs.sorted, fun v hv => (hs.bound v hv).trans (Nat.le_succ limit)⟩

theorem Running.current_eq (h : Running limit txn log H) (ht : limit < txn) :
    seen H txn = current H := by
  ext k
  refine has_iff_odd_length fun v hv => ?_
  have := (h.ordered k).bound v hv
  omega

theorem Upgrading.current_eq (h : Upgrading limit txn [] H) : seen H (limit + 1) = current H := by
  ext k
  exact has_iff_odd_length (h.settled k).bound

section

variable [DecidableEq κ]

theorem seen_update {f : List ℕ → List ℕ} (hf : ∀ l, Has n (f l) ↔ Has n l) :
    seen (Function.update H k (f (H k))) n = seen H n := by
  ext k'
  by_cases hk : k' = k
  · subst hk
    simp [seen, hf]
  · simp [seen, hk]

-- An element is done once its list does not have the mark any more.
theorem logged_update (h : ∀ k', txn ∈ H k' → k' ∈ k :: log) (hl : txn ∉ l) :
    ∀ k', txn ∈ Function.update H k l k' → k' ∈ log :=
  (Function.forall_update_iff H fun k' l => txn ∈ l → k' ∈ log).mpr
    ⟨fun ht => absurd ht hl, fun k' hk ht => (List.mem_cons.mp (h k' ht)).resolve_left hk⟩

theorem Running.rollback (h : Running limit txn (k :: log) H) (ht : limit < txn) :
    Running limit txn log (Function.update H k (Toggles.rollback txn (H k))) := by
  have hs := (h.ordered k).rollback ht
  refine ⟨?_, logged_update h.logged fun hm => (hs.bound txn hm).not_gt ht⟩
  exact (Function.forall_update_iff H fun _ => Ordered limit txn).mpr
    ⟨hs.ordered, fun k' _ => h.ordered k'⟩

theorem Upgrading.upgrade (h : Upgrading limit txn (k :: log) H) (ht : limit + 1 < txn) :
    Upgrading limit txn log (Function.update H k (Toggles.upgrade txn (limit + 1) (H k))) := by
  have hs : Settled (limit + 1) (Toggles.upgrade txn (limit + 1) (H k)) := by
    rcases h.ordered k with ho | hs
    case inl => exact ho.upgrade (by omega)
    case inr =>
      -- The element has been upgraded already.
      have hl : (H k).getLast? ≠ some txn := fun hl =>
        (hs.bound txn (List.mem_of_getLast? hl)).not_gt ht
      rwa [upgrade_of_ne hl]
  refine ⟨?_, logged_update h.logged fun hm => (hs.bound txn hm).not_gt ht⟩
  exact (Function.forall_update_iff H fun _ l => Ordered limit txn l ∨ Settled (limit + 1) l).mpr
    ⟨.inr hs, fun k' _ => h.ordered k'⟩

theorem current_upgrade :
    current (Function.update H k (upgrade txn version (H k))) = current H := by
  ext k'
  by_cases hk : k' = k
  · subst hk
    simp [current, length_upgrade]
  · simp [current, hk]

end

end Toggles
