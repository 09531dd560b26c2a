import Mathlib

-- Partial maps with finitely many keys, ordered by how much they say, and the joins of bags of
-- them. Two maps that agree have a least map above both of them.

abbrev PartialMap (α : Type u) (β : Type v) := Finmap fun _ : α => β

namespace PartialMap

variable {α : Type u} {β : Type v} [DecidableEq α]

theorem lookup_union (m₁ m₂ : PartialMap α β) (a : α) :
    (m₁ ∪ m₂).lookup a = (m₁.lookup a).or (m₂.lookup a) := by
  by_cases h : a ∈ m₁
  case pos =>
    rw [Finmap.lookup_union_left h]
    have ⟨_, hb⟩ := Option.isSome_iff_exists.mp <| Finmap.lookup_isSome.mpr h
    simp [hb]
  case neg => simp [Finmap.lookup_union_right h, Finmap.lookup_eq_none.mpr h]

theorem lookup_insert_eq (m : PartialMap α β) (a a' : α) (b : β) :
    (m.insert a b).lookup a' = if a' = a then some b else m.lookup a' := by
  split
  case isTrue h => exact h ▸ Finmap.lookup_insert _
  case isFalse h => exact Finmap.lookup_insert_of_ne _ h

instance : PartialOrder (PartialMap α β) where
  le m₁ m₂ := ∀ a b, m₁.lookup a = some b → m₂.lookup a = some b
  le_refl _ _ _ := id
  le_trans _ _ _ h₁ h₂ a b h := h₂ a b (h₁ a b h)
  le_antisymm _ _ h₁ h₂ := Finmap.ext_lookup fun _ => Option.ext fun _ => ⟨h₁ _ _, h₂ _ _⟩

instance : OrderBot (PartialMap α β) where
  bot := ∅
  bot_le _ _ _ h := by simp at h

theorem le_insert {m : PartialMap α β} (h : m.lookup a = none) (b : β) : m ≤ m.insert a b := by
  intro a' b' h'
  have hn : a' ≠ a := by rintro rfl; simp [h] at h'
  rw [lookup_insert_eq, if_neg hn, h']

def setAll (m : PartialMap α β) (entries : List (α × Option β)) : PartialMap α β :=
  entries.foldl (fun m (a, b) => b.elim m (m.insert a)) m

theorem setAll_eq_self (m : PartialMap α β) {entries : List (α × Option β)}
    (h : ∀ entry ∈ entries, entry.2 = none) : m.setAll entries = m := by
  induction entries
  case nil => rfl
  case cons entry entries ih =>
    obtain ⟨a, b⟩ := entry
    cases (h _ (.head _) : b = none)
    exact ih fun entry he => h entry (.tail _ he)

theorem lookup_setAll_of_notMem (m : PartialMap α β) {entries : List (α × Option β)}
    (h : a ∉ entries.map Prod.fst) : (m.setAll entries).lookup a = m.lookup a := by
  induction entries generalizing m
  case nil => rfl
  case cons entry entries ih =>
    obtain ⟨a', b⟩ := entry
    have ⟨hn, h⟩ : a ≠ a' ∧ a ∉ entries.map Prod.fst := by simpa using h
    refine (ih _ h).trans ?_
    cases b <;> simp [hn]

theorem lookup_setAll_zip (m : PartialMap α β) {keys : List α} (h : keys.Nodup)
    (row : List (Option β)) (a : α) : (m.setAll (keys.zip row)).lookup a =
      if a ∈ keys then (row[keys.idxOf a]?.join).or (m.lookup a) else m.lookup a := by
  induction keys generalizing m row
  case nil => simp [setAll]
  case cons k keys ih =>
    have ⟨hk, h⟩ := List.nodup_cons.mp h
    cases row
    case nil => simp [setAll]
    case cons b row =>
      refine (ih _ h row).trans ?_
      by_cases ha : a = k
      case pos =>
        subst ha
        cases b <;> simp [hk]
      case neg => cases b <;> simp [ha, List.idxOf_cons_ne, Ne.symm ha]

def restrict (m : PartialMap α β) (keys : List α) : PartialMap α β :=
  setAll ∅ <| keys.map fun a => (a, m.lookup a)

theorem setAll_zip_map (m : PartialMap α β) (keys : List α) :
    setAll ∅ (keys.zip (keys.map m.lookup)) = m.restrict keys := by
  rw [restrict]
  congr 1
  induction keys <;> simp_all

theorem lookup_restrict (m : PartialMap α β) (keys : List α) (a : α) :
    (m.restrict keys).lookup a = if a ∈ keys then m.lookup a else none := by
  suffices h : ∀ m' : PartialMap α β, (setAll m' <| keys.map fun a => (a, m.lookup a)).lookup a =
      if a ∈ keys then (m.lookup a).or (m'.lookup a) else m'.lookup a by
    simpa [restrict] using h ∅
  induction keys
  case nil => simp [setAll]
  case cons k keys ih =>
    intro m'
    refine (ih _).trans ?_
    by_cases ha : a = k
    case pos =>
      subst ha
      cases h : m.lookup a <;> by_cases hk : a ∈ keys <;> simp [h, hk]
    case neg => cases h : m.lookup k <;> simp [h, ha]

theorem restrict_eq_self {m : PartialMap α β} (h : ∀ a ∉ keys, m.lookup a = none) :
    m.restrict keys = m :=
  Finmap.ext_lookup fun a => by
    rw [lookup_restrict]
    split
    case isTrue => rfl
    case isFalse hn => exact (h a hn).symm

def Compatible (m₁ m₂ : PartialMap α β) : Prop :=
  ∀ a ∈ m₁.keys ∩ m₂.keys, m₁.lookup a = m₂.lookup a

instance [DecidableEq β] (m₁ m₂ : PartialMap α β) : Decidable (Compatible m₁ m₂) :=
  inferInstanceAs (Decidable (∀ _ ∈ _, _))

theorem compatible_iff {m₁ m₂ : PartialMap α β} :
    Compatible m₁ m₂ ↔ ∀ a b c, m₁.lookup a = some b → m₂.lookup a = some c → b = c where
  mp h a b c hb hc := by
    have hm : a ∈ m₁.keys ∩ m₂.keys := by
      simp [Finmap.mem_keys, ← Finmap.lookup_isSome, hb, hc]
    have := h a hm
    simp_all
  mpr h a hm := by
    simp only [Finset.mem_inter, Finmap.mem_keys, ← Finmap.lookup_isSome,
      Option.isSome_iff_exists] at hm
    have ⟨⟨b, hb⟩, c, hc⟩ := hm
    rw [hb, hc, h a b c hb hc]

variable [DecidableEq β]

def combineWith (m₁ m₂ : PartialMap α β) : Option (PartialMap α β) :=
  if Compatible m₁ m₂ then some (m₁ ∪ m₂) else none

variable {m₁ m₂ m₃ m : PartialMap α β}

theorem combineWith_eq_some_iff : combineWith m₁ m₂ = some m ↔ IsLUB {m₁, m₂} m := by
  have hl : m₁ ≤ m₁ ∪ m₂ := fun a b h => by simp [lookup_union, h]
  have hr (hc : Compatible m₁ m₂) : m₂ ≤ m₁ ∪ m₂ := by
    intro a b h
    rw [lookup_union]
    cases ha : m₁.lookup a
    case none => simpa
    case some c => simp [compatible_iff.mp hc a c b ha h]
  have hu (hc : Compatible m₁ m₂) : IsLUB {m₁, m₂} (m₁ ∪ m₂) := by
    refine ⟨?_, fun u hu a b h => ?_⟩
    case refine_1 => rintro _ (rfl | rfl); exacts [hl, hr hc]
    case refine_2 =>
      rw [lookup_union] at h
      cases ha : m₁.lookup a <;> simp only [ha, Option.none_or, Option.some_or] at h
      case none => exact hu (.inr rfl) a b h
      case some => exact hu (.inl rfl) a b (ha.trans h)
  rw [combineWith]
  split
  case isTrue hc =>
    exact ⟨fun h => Option.some.inj h ▸ hu hc, fun h => congrArg _ <| (hu hc).unique h⟩
  case isFalse hc =>
    refine ⟨nofun, fun h => absurd (compatible_iff.mpr fun a b c hb hc => ?_) hc⟩
    have hb' := h.1 (.inl rfl) a b hb
    have hc' := h.1 (.inr rfl) a c hc
    simp_all

theorem combineWith_comm (m₁ m₂ : PartialMap α β) : combineWith m₁ m₂ = combineWith m₂ m₁ := by
  ext m
  rw [combineWith_eq_some_iff, combineWith_eq_some_iff, Set.pair_comm]

theorem combineWith_of_le (h : m₁ ≤ m₂) : combineWith m₁ m₂ = some m₂ :=
  combineWith_eq_some_iff.mpr
    ⟨by rintro _ (rfl | rfl); exacts [h, le_rfl], fun _ h => h (.inr rfl)⟩

theorem le_left (h : combineWith m₁ m₂ = some m) : m₁ ≤ m :=
  (combineWith_eq_some_iff.mp h).1 (.inl rfl)

theorem le_right (h : combineWith m₁ m₂ = some m) : m₂ ≤ m :=
  (combineWith_eq_some_iff.mp h).1 (.inr rfl)

theorem lookup_combineWith (h : combineWith m₁ m₂ = some m) (a : α) :
    m.lookup a = (m₁.lookup a).or (m₂.lookup a) := by
  rw [combineWith] at h
  split at h
  case isTrue => rw [← Option.some.inj h, lookup_union]
  case isFalse => cases h

-- All maps that two bags make together, one for each two maps that agree.
def join (s t : Multiset (PartialMap α β)) : Multiset (PartialMap α β) :=
  s.bind fun m => t.filterMap (combineWith m)

variable {s t u : Multiset (PartialMap α β)}

theorem join_comm (s t : Multiset (PartialMap α β)) : join s t = join t s := by
  simp only [join, Multiset.filterMap_eq_bind]
  rw [Multiset.bind_bind]
  simp only [combineWith_comm]

@[simp]
theorem zero_join (t : Multiset (PartialMap α β)) : join 0 t = 0 :=
  rfl

@[simp]
theorem join_zero (s : Multiset (PartialMap α β)) : join s 0 = 0 := by
  rw [join_comm, zero_join]

end PartialMap
