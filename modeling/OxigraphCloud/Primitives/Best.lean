import Mathlib

-- First elements with respect to an order, if there are any. With `≤` these are minima, with `≥`
-- maxima. Nothing in here is specific to RDF storage.

-- The better one of the best element so far and another one.
def Option.pick (better : α → α → Bool) (o : Option α) (a : α) : Option α :=
  if o.all (better a) then some a else o

def IsBest (r : α → α → Prop) (o : Option α) (s : Set α) : Prop :=
  o.elim (s = ∅) fun a => a ∈ s ∧ ∀ b ∈ s, r a b

namespace IsBest

variable {r : α → α → Prop} {better : α → α → Bool} {s : Set α} {o o' : Option α}

theorem none_empty : IsBest r none ∅ := rfl

theorem unique [Std.Antisymm r] (h : IsBest r o s) (h' : IsBest r o' s) : o = o' := by
  rcases o with _ | a <;> rcases o' with _ | b
  case none.none => rfl
  case some.some => exact congrArg some <| antisymm (h.2 b h'.1) (h'.2 a h.1)
  case none.some => simp_all [IsBest]
  case some.none => simp_all [IsBest]

theorem mem_iff [Std.Antisymm r] (h : IsBest r o s) : a ∈ o ↔ a ∈ s ∧ ∀ b ∈ s, r a b := by
  constructor
  case mp =>
    rintro rfl
    exact h
  case mpr => exact fun ha => h.unique (show IsBest r (some a) s from ha)

theorem isSome (h : IsBest r o s) : o.isSome = true ↔ s.Nonempty := by
  rcases o with _ | a
  case none => simp [Set.not_nonempty_iff_eq_empty.mpr h]
  case some => exact iff_of_true rfl ⟨a, h.1⟩

section

variable [Std.Total r] [IsTrans α r] (hb : ∀ a b, better a b ↔ ¬r b a)

include hb

theorem pick (h : IsBest r o s) (a : α) : IsBest r (o.pick better a) (insert a s) := by
  have hr : r a a := (total_of r a a).elim id id
  rcases o with _ | b
  case none =>
    have hs : s = ∅ := h
    simp [Option.pick, IsBest, hs, hr]
  case some =>
    have ⟨hm, hl⟩ := h
    by_cases hab : better a b
    case pos =>
      have hra : r a b := (total_of r a b).resolve_right <| (hb a b).mp hab
      simp only [Option.pick, Option.all_some, hab, ↓reduceIte]
      exact ⟨.inl rfl, fun c hc => hc.elim (· ▸ hr) fun hc => IsTrans.trans _ _ _ hra (hl c hc)⟩
    case neg =>
      have hrb : r b a := by simpa [hb] using hab
      simp only [Option.pick, Option.all_some, hab, Bool.false_eq_true, ↓reduceIte]
      exact ⟨.inr hm, fun c hc => hc.elim (· ▸ hrb) (hl c)⟩

theorem foldl (h : IsBest r o s) (l : List α) :
    IsBest r (l.foldl (·.pick better) o) (s ∪ {a | a ∈ l}) := by
  induction l generalizing o s
  case nil => simpa using h
  case cons a l hi =>
    have hs : insert a s ∪ {a | a ∈ l} = s ∪ {b | b ∈ a :: l} := by
      ext b
      simp [or_comm, or_assoc, or_left_comm]
    exact hs ▸ hi (h.pick hb a)

-- The best one of the best elements of the parts.
theorem flatten (parts : List (Option α × Set α)) (h : ∀ p ∈ parts, IsBest r p.1 p.2) :
    IsBest r ((parts.filterMap Prod.fst).foldl (·.pick better) none)
      {a | ∃ p ∈ parts, a ∈ p.2} := by
  have hf := foldl hb (none_empty (r := r)) (parts.filterMap Prod.fst)
  rw [Set.empty_union] at hf
  generalize (parts.filterMap Prod.fst).foldl (·.pick better) none = best at hf
  rcases best with _ | a
  case none =>
    have he : ∀ p ∈ parts, p.1 = none := by
      intro p hp
      by_contra hn
      have ⟨a, ha⟩ := Option.ne_none_iff_exists'.mp hn
      exact (Set.eq_empty_iff_forall_notMem.mp hf) a <| List.mem_filterMap.mpr ⟨p, hp, ha⟩
    refine Set.eq_empty_iff_forall_notMem.mpr fun a ⟨p, hp, ha⟩ => ?_
    have hs := h p hp
    rw [he p hp] at hs
    exact (Set.eq_empty_iff_forall_notMem.mp hs) a ha
  case some =>
    have ⟨hm, hl⟩ := hf
    have ⟨p, hp, ha⟩ := List.mem_filterMap.mp hm
    have hs := h p hp
    rw [ha] at hs
    refine ⟨⟨p, hp, hs.1⟩, fun b ⟨p', hp', hb'⟩ => ?_⟩
    have hs' := h p' hp'
    rcases ho : p'.1 with _ | c
    case none =>
      rw [ho] at hs'
      exact absurd hb' <| Set.eq_empty_iff_forall_notMem.mp hs' b
    case some =>
      rw [ho] at hs'
      exact IsTrans.trans _ _ _ (hl c <| List.mem_filterMap.mpr ⟨p', hp', ho⟩) (hs'.2 b hb')

end

end IsBest
