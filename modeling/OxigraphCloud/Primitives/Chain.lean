import Mathlib

-- Lists of nodes that are found by their keys. Nodes are only ever added at the front, and a node
-- may have links to nodes behind it.

namespace Keyed

variable {α κ : Type} [DecidableEq κ] {key : α → κ} {f : α → α} {l s : List α}

def get (key : α → κ) (k : κ) (l : List α) : Option α := l.find? fun a => key a = k

def modify (key : α → κ) (k : κ) (f : α → α) (l : List α) : List α :=
  l.map fun a => if key a = k then f a else a

theorem get_isSome_iff : (get key k l).isSome ↔ ∃ a ∈ l, key a = k := by
  simp [get]

theorem mem_of_get (h : get key k l = some a) : a ∈ l ∧ key a = k :=
  ⟨List.mem_of_find?_eq_some h, by simpa using List.find?_some h⟩

theorem get_of_mem (hn : (l.map key).Nodup) (ha : a ∈ l) : get key (key a) l = some a := by
  induction l
  case nil => contradiction
  case cons b l hi =>
    have ⟨hb, hn⟩ := List.nodup_cons.mp hn
    cases ha
    case head => simp [get]
    case tail ha =>
      have hne : key b ≠ key a := fun he => hb <| he ▸ List.mem_map_of_mem ha
      simpa [get, hne] using hi hn ha

theorem map_modify {g : α → β} (hg : ∀ a, g (f a) = g a) : (modify key k f l).map g = l.map g := by
  simp only [modify, List.map_map]
  refine List.map_congr_left fun a _ => ?_
  simp only [Function.comp]
  split <;> simp [hg]

theorem get_modify (hf : ∀ a, key (f a) = key a) :
    get key k' (modify key k f l) = if k' = k then (get key k l).map f else get key k' l := by
  induction l
  case nil => simp [get, modify]
  case cons a l hi =>
    simp only [get, modify, List.map_cons, List.find?_cons] at hi ⊢
    by_cases ha : key a = k <;> by_cases hk : k' = k
    · simp [ha, hk, hf]
    · simp [ha, hk, hf, Ne.symm hk, hi]
    · simp [ha, hk] at hi ⊢
      exact hi
    · by_cases ha' : key a = k' <;> simp [ha, hk, ha', hi]

end Keyed

namespace Chain

variable {α κ : Type} {key : α → κ} {link : α → Option κ} {p : α → Bool} {same : α → α → Bool}
  {l s : List α}

-- The link of each node leads to the next node behind it of the same kind.
def Linked (key : α → κ) (link : α → Option κ) (same : α → α → Bool) : List α → Prop
  | []     => True
  | a :: l => link a = (l.find? (same a)).map key ∧ Linked key link same l

theorem Linked.suffix (h : Linked key link same l) (hs : s <:+ l) : Linked key link same s := by
  induction l
  case nil => simpa [List.suffix_nil.mp hs] using h
  case cons a l hi =>
    cases List.suffix_cons_iff.mp hs
    case inl hs => exact hs ▸ h
    case inr hs => exact hi h.right hs

theorem Linked.map {f : α → α} (hk : ∀ a, key (f a) = key a) (hl : ∀ a, link (f a) = link a)
    (hs : ∀ a b, same (f a) (f b) = same a b) (h : Linked key link same l) :
    Linked key link same (l.map f) := by
  induction l
  case nil => trivial
  case cons a l hi =>
    refine ⟨?_, hi h.right⟩
    rw [hl, h.left, List.find?_map, Option.map_map]
    simp only [Function.comp_def, hs, hk]

-- A place in a list from which the nodes that satisfy `p` can be visited along the links.
structure At (key : α → κ) (p : α → Bool) (l : List α) (k : Option κ) (s : List α) : Prop where
  suffix : s <:+ l
  start  : k = (s.find? p).map key

theorem At.front : At key p l ((l.find? p).map key) l := ⟨List.suffix_refl l, rfl⟩

theorem At.map {f : α → α} {k : Option κ} (hk : ∀ a, key (f a) = key a) (hp : ∀ a, p (f a) = p a)
    (h : At key p l k s) : At key p (l.map f) k (s.map f) where
  suffix := h.suffix.map f
  start  := by
    rw [h.start, List.find?_map, Option.map_map]
    simp only [Function.comp_def, hk, hp]

-- Following the link of the node at the place.
theorem At.step [DecidableEq κ] (hn : (l.map key).Nodup) (hl : Linked key link same l)
    (hp : ∀ {a}, p a → same a = p) (h : At key p l k s) :
    (k = none ∧ s.filter p = []) ∨
    ∃ k' a s', k = some k' ∧ Keyed.get key k' l = some a ∧ p a ∧ s.filter p = a :: s'.filter p ∧
      s'.length < s.length ∧ At key p l (link a) s' := by
  have ⟨hs, hk⟩ := h
  cases hf : s.find? p
  case none =>
    exact .inl ⟨by simp [hk, hf], by simpa using hf⟩
  case some a =>
    have ⟨ha, front, s', he, hfr⟩ := List.find?_eq_some_iff_append.mp hf
    have hs' : (a :: s') <:+ l := List.IsSuffix.trans ⟨front, he.symm⟩ hs
    have hm : a ∈ l := hs'.subset List.mem_cons_self
    have hlink := (hl.suffix hs').left
    rw [hp ha] at hlink
    refine .inr ⟨key a, a, s', by simp [hk, hf], Keyed.get_of_mem hn hm, ha, ?_, ?_,
      ⟨(List.suffix_cons a s').trans hs', hlink⟩⟩
    · have hfr : front.filter p = [] := by simpa using hfr
      simp [he, hfr, ha]
    · simp [he]
      omega

end Chain
