import Mathlib

-- A pending change of a set: which elements it adds (`some true`), which it takes out
-- (`some false`), and which it leaves alone.
abbrev Delta (α : Type) := α → Option Bool

namespace Delta

variable {α : Type} {s s' : Set α} {d d₁ d₂ : Delta α} {a : α}

def patch (d : Delta α) (s : Set α) : Set α :=
  { a | d a = some true ∨ d a = none ∧ a ∈ s }

theorem mem_patch : a ∈ d.patch s ↔ d a = some true ∨ d a = none ∧ a ∈ s := .rfl

-- First `d₁`, then `d₂`.
def comp (d₂ d₁ : Delta α) : Delta α := fun a => d₂ a <|> d₁ a

def single [DecidableEq α] (a : α) (b : Bool) : Delta α := fun a' =>
  if a' = a then some b else none

open Classical in
noncomputable def drop (p : Set α) : Delta α := fun a => if a ∈ p then some false else none

@[simp]
theorem comp_apply : comp d₂ d₁ a = (d₂ a <|> d₁ a) := rfl

@[simp]
theorem patch_none : patch (fun _ => none) s = s := by
  simp [patch]

theorem none_comp : comp (fun _ => none) d = d := rfl

theorem comp_assoc {d₃ : Delta α} : comp (comp d₃ d₂) d₁ = comp d₃ (comp d₂ d₁) := by
  funext a
  simp only [comp_apply]
  cases d₃ a <;> simp

theorem patch_comp : (comp d₂ d₁).patch s = d₂.patch (d₁.patch s) := by
  ext a
  simp only [mem_patch, comp_apply]
  cases d₂ a <;> simp

@[simp]
theorem patch_single_true [DecidableEq α] : (single a true).patch s = insert a s := by
  ext a'
  by_cases h : a' = a <;> simp [mem_patch, single, h]

@[simp]
theorem patch_single_false [DecidableEq α] : (single a false).patch s = s \ {a} := by
  ext a'
  by_cases h : a' = a <;> simp [mem_patch, single, h]

@[simp]
theorem patch_drop {p : Set α} : (drop p).patch s = s \ p := by
  ext a
  by_cases h : a ∈ p <;> simp [mem_patch, drop, h]

theorem drop_eq_some_iff {p : Set α} : drop p a = some b ↔ b = false ∧ a ∈ p := by
  by_cases h : a ∈ p <;> simp [drop, h, eq_comm]

theorem drop_empty : drop (∅ : Set α) = fun _ => none := by
  funext a
  simp [drop]

theorem drop_comp_drop {p q : Set α} : comp (drop q) (drop p) = drop (p ∪ q) := by
  funext a
  by_cases hp : a ∈ p <;> by_cases hq : a ∈ q <;> simp [drop, hp, hq]

theorem drop_singleton [DecidableEq α] : drop {a} = single a false := by
  funext a'
  simp [drop, single]

theorem comp_eq_some_iff : comp d₂ d₁ a = some b ↔ d₂ a = some b ∨ d₂ a = none ∧ d₁ a = some b := by
  simp only [comp_apply]
  cases d₂ a <;> simp

theorem comp_eq_none_iff : comp d₂ d₁ a = none ↔ d₂ a = none ∧ d₁ a = none := by
  simp only [comp_apply]
  cases d₂ a <;> simp

section Cases

variable {p : Set α}

theorem drop_comp_eq_none_iff : comp (drop p) d a = none ↔ a ∉ p ∧ d a = none := by
  by_cases h : a ∈ p <;> simp [drop, h]

theorem drop_comp_eq_true_iff : comp (drop p) d a = some true ↔ a ∉ p ∧ d a = some true := by
  by_cases h : a ∈ p <;> simp [drop, h]

theorem drop_comp_eq_false_iff : comp (drop p) d a = some false ↔ a ∈ p ∨ d a = some false := by
  by_cases h : a ∈ p <;> simp [drop, h]

theorem single_comp_eq_none_iff [DecidableEq α] :
    comp (single a' b) d a = none ↔ a ≠ a' ∧ d a = none := by
  by_cases h : a = a' <;> simp [single, h]

theorem single_comp_eq_true_iff [DecidableEq α] :
    comp (single a' true) d a = some true ↔ a = a' ∨ d a = some true := by
  by_cases h : a = a' <;> simp [single, h]

theorem single_comp_eq_false_iff [DecidableEq α] :
    comp (single a' true) d a = some false ↔ a ≠ a' ∧ d a = some false := by
  by_cases h : a = a' <;> simp [single, h]

end Cases

section OfList

variable [DecidableEq α] {l l₁ l₂ : List (α × Bool)}

-- The writes of a list, one after the other.
def ofList : List (α × Bool) → Delta α
  | []          => fun _ => none
  | (a, b) :: l => comp (ofList l) (single a b)

theorem ofList_append : ofList (l₁ ++ l₂) = comp (ofList l₂) (ofList l₁) := by
  induction l₁
  case nil =>
    funext a
    simp [ofList]
  case cons _ _ hi => rw [List.cons_append, ofList, hi, comp_assoc, ofList]

theorem ofList_eq_none_iff : ofList l a = none ↔ ∀ b, (a, b) ∉ l := by
  induction l
  case nil => simp [ofList]
  case cons w l hi =>
    obtain ⟨a', b⟩ := w
    rw [ofList, comp_eq_none_iff, hi]
    by_cases h : a = a' <;> cases b <;> simp [single, h]

theorem mem_of_ofList (h : ofList l a = some b) : (a, b) ∈ l := by
  induction l
  case nil => contradiction
  case cons w l hi =>
    rw [ofList, comp_eq_some_iff] at h
    cases h
    case inl h => exact .tail _ <| hi h
    case inr h =>
      have h := h.right
      by_cases ha : a = w.1 <;> simp only [single, ha, if_true, if_false, reduceCtorEq] at h
      cases h
      exact ha ▸ .head _

-- Writing one by one gives the set in which all deletions come first iff no element that is
-- inserted is deleted again.
theorem patch_ofList_eq_iff :
    (ofList l).patch s = s \ { a | (a, false) ∈ l } ∪ { a | (a, true) ∈ l } ↔
      ∀ a, (a, true) ∈ l → ofList l a = some true where
  mp h a ha := by
    have hm : a ∈ (ofList l).patch s := h ▸ .inr ha
    cases hm
    case inl h => exact h
    case inr h => exact absurd ha <| ofList_eq_none_iff.mp h.left true
  mpr h := by
    ext a
    rw [mem_patch]
    rcases ha : ofList l a with - | _ | _
    case none =>
      have hn := ofList_eq_none_iff.mp ha
      simp [hn]
    case some.false =>
      have hn : (a, true) ∉ l := fun hm => nomatch ha.symm.trans (h a hm)
      simp [mem_of_ofList ha, hn]
    case some.true => simp [mem_of_ofList ha]

-- Blocks of writes, each of which deletes first and inserts then.
def blocks {β : Type} (dels ins : β → List α) (bs : List β) : List (α × Bool) :=
  bs.flatMap fun b => (dels b).map (·, false) ++ (ins b).map (·, true)

variable {β : Type} {dels ins : β → List α} {bs : List β}

omit [DecidableEq α] in
theorem mem_blocks_true : (a, true) ∈ blocks dels ins bs ↔ ∃ b ∈ bs, a ∈ ins b := by
  simp [blocks]

omit [DecidableEq α] in
theorem mem_blocks_false : (a, false) ∈ blocks dels ins bs ↔ ∃ b ∈ bs, a ∈ dels b := by
  simp [blocks]

theorem ofList_block_eq_true_iff :
    ofList ((dels b).map (·, false) ++ (ins b).map (·, true)) a = some true ↔ a ∈ ins b := by
  rw [ofList_append, comp_eq_some_iff]
  constructor
  · intro h
    cases h
    case inl h => simpa using mem_of_ofList h
    case inr h => simpa using mem_of_ofList h.right
  · intro ha
    left
    rcases h : ofList ((ins b).map (·, true)) a with - | b'
    · exact absurd (by simpa using ha) <| ofList_eq_none_iff.mp h true
    · have hb := mem_of_ofList h
      simp only [List.mem_map, Prod.mk.injEq] at hb
      have ⟨_, _, _, hb⟩ := hb
      rw [← hb]

-- An element that is inserted by some block remains iff each block that deletes it is followed by
-- a block, if it is not one itself, which inserts it.
theorem ofList_blocks_eq_true_iff : ofList (blocks dels ins bs) a = some true ↔
    (∃ b ∈ bs, a ∈ ins b) ∧
      ∀ bs₁ b bs₂, bs = bs₁ ++ b :: bs₂ → a ∈ dels b → ∃ b' ∈ b :: bs₂, a ∈ ins b' := by
  induction bs
  case nil => simp [blocks, ofList]
  case cons b bs hi =>
    have hc : blocks dels ins (b :: bs) =
      ((dels b).map (·, false) ++ (ins b).map (·, true)) ++ blocks dels ins bs := rfl
    rw [hc, ofList_append, comp_eq_some_iff, ofList_block_eq_true_iff]
    constructor
    · intro h
      cases h
      case inl h =>
        have ⟨⟨b', hb, ha⟩, hl⟩ := hi.mp h
        refine ⟨⟨b', .tail _ hb, ha⟩, fun bs₁ b₁ bs₂ he hd => ?_⟩
        cases bs₁ <;> cases he
        case nil => exact ⟨b', .tail _ hb, ha⟩
        case cons => exact hl _ _ _ rfl hd
      case inr h =>
        have ⟨hn, ha⟩ := h
        refine ⟨⟨b, .head _, ha⟩, fun bs₁ b₁ bs₂ he hd => ?_⟩
        cases bs₁ <;> cases he
        case nil => exact ⟨b, .head _, ha⟩
        case cons =>
          refine absurd (mem_blocks_false.mpr ⟨b₁, ?_, hd⟩) <| ofList_eq_none_iff.mp hn false
          simp
    · intro ⟨⟨b', hb, ha⟩, hl⟩
      have hl' bs₁ b₁ bs₂ (he : bs = bs₁ ++ b₁ :: bs₂) (hd : a ∈ dels b₁) :=
        hl (b :: bs₁) b₁ bs₂ (by simp [he]) hd
      rcases h : ofList (blocks dels ins bs) a with - | _ | _
      case none =>
        refine .inr ⟨rfl, ?_⟩
        cases hb
        case head => exact ha
        case tail hb =>
          exact absurd (mem_blocks_true.mpr ⟨b', hb, ha⟩) <| ofList_eq_none_iff.mp h true
      case some.false =>
        -- The block which deleted the element last would have to be followed by an insertion.
        have ⟨b₁, hb₁, hd⟩ := mem_blocks_false.mp <| mem_of_ofList h
        obtain ⟨bs₁, bs₂, rfl⟩ := List.append_of_mem hb₁
        have ⟨b₂, hb₂, ha₂⟩ := hl' _ _ _ rfl hd
        have ht := hi.mpr ⟨⟨b₂, List.mem_append_right _ hb₂, ha₂⟩, hl'⟩
        exact nomatch h.symm.trans ht
      case some.true => exact .inl rfl

end OfList

-- A set `T` of keys stands for a set `S` of values: `key` gives the key of a value, which has a
-- normal form `norm`. A change of `T` that follows a change of `S` keeps it that way.
theorem mem_patch_keys {S : Set α} {T : Set β} {key : α → β} {IsValue : α → Prop} {norm : α → α}
    {dS : Delta α} {dT : Delta β} (hT : ∀ k, k ∈ T ↔ ∃ a ∈ S, IsValue a ∧ key a = k)
    (hd : ∀ {a}, IsValue a → dT (key a) = dS (norm a))
    (hf : ∀ {k}, (∀ a, IsValue a → key a ≠ k) → dT k ≠ some true)
    (hS : ∀ a ∈ dS.patch S ∪ S, norm a = a) (hv : ∀ {a}, IsValue a → IsValue (norm a))
    (hk : ∀ {a}, key (norm a) = key a) {k : β} :
    k ∈ dT.patch T ↔ ∃ a ∈ dS.patch S, IsValue a ∧ key a = k := by
  constructor
  · intro h
    cases h
    case inl h =>
      obtain ⟨a, ha, rfl⟩ : ∃ a, IsValue a ∧ key a = k := by
        by_contra hn
        exact hf (by simpa using hn) h
      exact ⟨norm a, .inl <| hd ha ▸ h, hv ha, hk⟩
    case inr h =>
      have ⟨a, ha, hi, he⟩ := hT k |>.mp h.right
      refine ⟨a, .inr ⟨?_, ha⟩, hi, he⟩
      rw [← hS a (.inr ha), ← hd hi, he, h.left]
  · intro ⟨a, ha, hi, he⟩
    have hn : dT k = dS a := by rw [← he, hd hi, hS a (.inl ha)]
    cases ha
    case inl ha => exact .inl <| hn.trans ha
    case inr ha => exact .inr ⟨hn.trans ha.left, hT k |>.mpr ⟨a, ha.right, hi, he⟩⟩

end Delta
