import OxigraphCloud.Primitives.PartialMap

-- The other ways in which two bags of partial maps are put together, and that nothing is lost if
-- only those maps are looked at that have the same key.

namespace PartialMap

variable {α : Type u} {β : Type v} [DecidableEq α] [DecidableEq β]

-- The maps of `s` to which nothing in `t` is joined such that `p` holds.
def diff (p : PartialMap α β → Bool) (s t : Multiset (PartialMap α β)) :
    Multiset (PartialMap α β) :=
  s.filter fun m => ∀ m' ∈ t, ∀ r ∈ combineWith m m', p r = false

def leftJoin (p : PartialMap α β → Bool) (s t : Multiset (PartialMap α β)) :
    Multiset (PartialMap α β) :=
  (join s t).filter (p ·) + diff p s t

-- Maps without a common key do not count.
def minus (s t : Multiset (PartialMap α β)) : Multiset (PartialMap α β) :=
  s.filter fun m => ∀ m' ∈ t, Compatible m m' → m.keys ∩ m'.keys = ∅

variable {s t : Multiset (PartialMap α β)}

theorem combineWith_isSome_iff {m₁ m₂ : PartialMap α β} :
    (combineWith m₁ m₂).isSome ↔ Compatible m₁ m₂ := by
  simp [combineWith, Option.isSome_ite]

-- The map itself is there only if it is not joined to anything.
theorem leftJoin_eq_bind (p : PartialMap α β → Bool) (s t : Multiset (PartialMap α β)) :
    leftJoin p s t = s.bind fun m =>
      let joined := (t.filterMap (combineWith m)).filter (p ·)
      if joined = 0 then {m} else joined := by
  have hd (m : PartialMap α β) : (t.filterMap (combineWith m)).filter (p ·) = 0 ↔
      ∀ m' ∈ t, ∀ r ∈ combineWith m m', p r = false := by
    simp only [Multiset.filter_eq_nil, Multiset.mem_filterMap, Bool.not_eq_true]
    exact ⟨fun h m' hm r hr => h r ⟨m', hm, hr⟩, fun h r ⟨m', hm, hr⟩ => h m' hm r hr⟩
  rw [leftJoin, join, diff, Multiset.filter_bind, Multiset.filter_eq_bind, ← Multiset.bind_add]
  refine Multiset.bind_congr fun m _ => ?_
  by_cases h : (t.filterMap (combineWith m)).filter (p ·) = 0
  case pos => rw [h, if_pos ((hd m).mp h), if_pos rfl, zero_add]
  case neg => rw [if_neg ((hd m).not.mp h), if_neg h, add_zero]

end PartialMap
