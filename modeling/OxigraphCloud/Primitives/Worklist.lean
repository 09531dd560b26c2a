import Mathlib

-- Computations with a bound on the rounds of their loops, and searches with a worklist. Nothing in
-- here is specific to RDF storage.
open Filter Relation

theorem List.nodup_eraseDups [DecidableEq α] (l : List α) : l.eraseDups.Nodup := by
  induction h : l.length using Nat.strong_induction_on generalizing l
  case h n ih =>
    rcases l with _ | ⟨a, l⟩
    case nil => simp
    case cons =>
      rw [List.eraseDups_cons, List.nodup_cons, List.mem_eraseDups]
      refine ⟨by simp, ih _ ?_ _ rfl⟩
      have := List.length_filter_le (fun b => !b == a) l
      simp only [List.length_cons] at h
      omega

open Classical in
-- One for a fact, and zero otherwise.
noncomputable def once (p : Prop) : ℕ :=
  if p then 1 else 0

theorem once_congr (h : p ↔ q) : once p = once q :=
  congrArg once <| propext h

@[simp] theorem once_pos_iff : 0 < once p ↔ p := by
  unfold once
  split <;> simp [*]

@[simp] theorem once_of (h : p) : once p = 1 :=
  if_pos h

@[simp] theorem once_of_not (h : ¬p) : once p = 0 :=
  if_neg h

theorem List.Nodup.count_eq_once [DecidableEq α] {l : List α} (h : l.Nodup) (a : α) :
    l.count a = once (a ∈ l) := by
  rw [h.count, once]
  congr

-- For the equality test of pairs too.
theorem List.count_pos_iff_mem [DecidableEq α] {l : List α} : 0 < l.count a ↔ a ∈ l :=
  List.count_pos_iff

theorem List.count_eraseDups [DecidableEq α] (l : List α) (a : α) :
    l.eraseDups.count a = once (0 < l.count a) := by
  rw [l.nodup_eraseDups.count_eq_once, List.mem_eraseDups, List.count_pos_iff]

theorem List.anyM_iff {f : α → Option Bool} {P : α → Prop} {l : List α}
    (h : ∀ a ∈ l, ∃ b, f a = some b ∧ (b = true ↔ P a)) :
    ∃ b, l.anyM f = some b ∧ (b = true ↔ ∃ a ∈ l, P a) := by
  induction l
  case nil => exact ⟨false, rfl, by simp⟩
  case cons a l ih =>
    have ⟨b, hb, hp⟩ := h a List.mem_cons_self
    have ⟨b', hb', hp'⟩ := ih (h · <| List.mem_cons_of_mem _ ·)
    rcases b
    case false => exact ⟨b', by simp [List.anyM, hb, hb'], by simp [hp', ← hp]⟩
    case true => exact ⟨true, by simp [List.anyM, hb], by simp [← hp]⟩

theorem List.count_flatMapM [DecidableEq β] {f : α → Option (List β)} {times : α → β → ℕ}
    {l : List α} (h : ∀ a ∈ l, ∃ r, f a = some r ∧ ∀ b, r.count b = times a b) :
    ∃ r, l.flatMapM f = some r ∧ ∀ b, r.count b = (l.map (times · b)).sum := by
  induction l
  case nil => exact ⟨[], rfl, fun _ => rfl⟩
  case cons a l ih =>
    have ⟨r, hr, hc⟩ := h a List.mem_cons_self
    have ⟨r', hr', hc'⟩ := ih (h · <| List.mem_cons_of_mem _ ·)
    refine ⟨r ++ r', by simp [hr, hr'], fun b => ?_⟩
    rw [List.count_append, hc, hc', List.map_cons, List.sum_cons]

-- The list that a computation yields from some round on has each element this number of times.
def Reports [DecidableEq α] (run : ℕ → Option (List α)) (times : α → ℕ) : Prop :=
  ∀ᶠ rounds in atTop, ∃ l, run rounds = some l ∧ ∀ a, l.count a = times a

-- The truth value that a computation yields from some round on.
def Decides (run : ℕ → Option Bool) (p : Prop) : Prop :=
  ∀ᶠ rounds in atTop, ∃ b, run rounds = some b ∧ (b = true ↔ p)

namespace Worklist

section

variable {R : α → α → Prop} {S : α → Prop}

-- The elements that are reached from the first ones.
def Reached (R : α → α → Prop) (S : α → Prop) (x : α) : Prop :=
  ∃ a, S a ∧ ReflTransGen R a x

-- Steps that keep a tag.
theorem Reached.tagged_iff (e : α ≃ γ × μ) (R' : γ → μ → μ → Prop) :
    Reached (fun a b => (e b).1 = (e a).1 ∧ R' (e a).1 (e a).2 (e b).2) S x ↔
      Reached (R' (e x).1) (fun m => S <| e.symm ((e x).1, m)) (e x).2 where
  mp := by
    rintro ⟨a, ha, h⟩
    suffices ht : (e x).1 = (e a).1 ∧ ReflTransGen (R' (e a).1) (e a).2 (e x).2 from
      ⟨(e a).2, by simpa [ht.left] using ha, ht.left ▸ ht.right⟩
    induction h
    case refl => exact ⟨rfl, .refl⟩
    case tail b c _ hbc ih => exact ⟨hbc.left.trans ih.left, ih.right.tail <| ih.left ▸ hbc.right⟩
  mpr := by
    rintro ⟨m, hm, h⟩
    refine ⟨_, hm, ?_⟩
    suffices ht : ∀ d, ReflTransGen (R' (e x).1) m d →
        ReflTransGen (fun a b => (e b).1 = (e a).1 ∧ R' (e a).1 (e a).2 (e b).2)
          (e.symm ((e x).1, m)) (e.symm ((e x).1, d)) by
      simpa using ht _ h
    intro d h
    induction h
    case refl => exact .refl
    case tail b c _ hbc ih => exact ih.tail <| by simpa using hbc

theorem Reached.step (h : Reached R S x) (hr : R x y) : Reached R S y :=
  have ⟨a, ha, hx⟩ := h
  ⟨a, ha, hx.tail hr⟩

-- Elements reached stay in a set with the first ones that is closed under steps.
theorem Reached.mem {U : Set α} (hs : ∀ a, S a → a ∈ U) (hr : ∀ a b, a ∈ U → R a b → b ∈ U)
    (h : Reached R S x) : x ∈ U := by
  have ⟨a, ha, hx⟩ := h
  induction hx
  case refl => exact hs a ha
  case tail b c hb hbc ih => exact hr b c (ih ⟨a, ha, hb⟩) hbc

end

variable [DecidableEq α] {next : α → Option (List α)} {stop : α → Bool} {R : α → α → Prop}
  {S : α → Prop}

-- Puts the elements that have not been seen yet on the stack.
def push : List α → List α → List α → List α × List α
  | [], todo, all => (todo, all)
  | e :: found, todo, all =>
    if e ∈ all then push found todo all else push found (e :: todo) (e :: all)

-- Takes elements from the stack until it is empty or an element that stops the search shows up.
def explore (next : α → Option (List α)) (stop : α → Bool) :
    ℕ → List α → List α → Option (Bool × List α)
  | _, [], all => some (false, all)
  | 0, _ :: _, _ => none
  | rounds + 1, e :: todo, all =>
    if stop e then
      some (true, all)
    else do
      let found ← next e
      let (todo, all) := push found todo all
      explore next stop rounds todo all

theorem mem_push_todo {found todo all : List α} :
    x ∈ (push found todo all).1 ↔ x ∈ todo ∨ x ∈ found ∧ x ∉ all := by
  induction found generalizing todo all
  case nil => simp [push]
  case cons e found ih =>
    unfold push
    split
    case isTrue h =>
      rw [ih, List.mem_cons]
      grind
    case isFalse h =>
      rw [ih, List.mem_cons, List.mem_cons, List.mem_cons]
      grind

theorem mem_push_all {found todo all : List α} :
    x ∈ (push found todo all).2 ↔ x ∈ all ∨ x ∈ found := by
  induction found generalizing todo all
  case nil => simp [push]
  case cons e found ih =>
    unfold push
    split
    case isTrue h =>
      rw [ih, List.mem_cons]
      grind
    case isFalse h =>
      rw [ih, List.mem_cons, List.mem_cons]
      tauto

theorem nodup_push {found todo all : List α} (h : all.Nodup) : (push found todo all).2.Nodup := by
  induction found generalizing todo all
  case nil => exact h
  case cons e found ih =>
    unfold push
    split
    case isTrue => exact ih h
    case isFalse he => exact ih <| List.nodup_cons.mpr ⟨he, h⟩

-- What is put on the stack is also new among the elements seen.
theorem length_push {found todo all : List α} :
    (push found todo all).1.length + all.length =
      todo.length + (push found todo all).2.length := by
  induction found generalizing todo all
  case nil => rfl
  case cons e found ih =>
    unfold push
    split
    case isTrue => exact ih
    case isFalse =>
      have := @ih (e :: todo) (e :: all)
      simp only [List.length_cons] at this
      omega

structure Invariant (R : α → α → Prop) (S : α → Prop) (stop : α → Bool) (todo all : List α) :
    Prop where
  nodup : all.Nodup
  pending : ∀ x ∈ todo, x ∈ all
  reached : ∀ x ∈ all, Reached R S x
  first : ∀ x, S x → x ∈ all
  done : ∀ x ∈ all, x ∉ todo → stop x = false ∧ ∀ y, R x y → y ∈ all

namespace Invariant

theorem initial {start : List α} (hs : ∀ x, x ∈ start ↔ S x) :
    Invariant R S stop start.reverse start.eraseDups where
  nodup := List.nodup_eraseDups _
  pending _ hx := List.mem_eraseDups.mpr <| List.mem_reverse.mp hx
  reached x hx := ⟨x, hs x |>.mp <| List.mem_eraseDups.mp hx, .refl⟩
  first x hx := List.mem_eraseDups.mpr <| hs x |>.mpr hx
  done _ hx ht := absurd (List.mem_reverse.mpr <| List.mem_eraseDups.mp hx) ht

theorem push {todo all found : List α} (hi : Invariant R S stop (e :: todo) all)
    (he : stop e = false) (hf : ∀ y, y ∈ found ↔ R e y) :
    Invariant R S stop (push found todo all).1 (push found todo all).2 where
  nodup := nodup_push hi.nodup
  pending x hx := by
    apply mem_push_all.mpr
    rcases mem_push_todo.mp hx with hx | ⟨hx, _⟩
    case inl => exact .inl <| hi.pending x <| List.mem_cons_of_mem _ hx
    case inr => exact .inr hx
  reached x hx := by
    rcases mem_push_all.mp hx with hx | hx
    case inl => exact hi.reached x hx
    case inr => exact hi.reached e (hi.pending e List.mem_cons_self) |>.step <| hf x |>.mp hx
  first x hx := mem_push_all.mpr <| .inl <| hi.first x hx
  done x hx ht := by
    have hn : x ∉ todo := fun h => ht <| mem_push_todo.mpr <| .inl h
    have ha : x ∈ all := by
      by_contra ha
      have hx := mem_push_all.mp hx |>.resolve_left ha
      exact ht <| mem_push_todo.mpr <| .inr ⟨hx, ha⟩
    by_cases hxe : x = e
    case pos => exact ⟨hxe ▸ he, fun y hy => mem_push_all.mpr <| .inr <| hf y |>.mpr <| hxe ▸ hy⟩
    case neg =>
      have ⟨hs, hr⟩ := hi.done x ha <| by simp [hxe, hn]
      exact ⟨hs, fun y hy => mem_push_all.mpr <| .inl <| hr y hy⟩

omit [DecidableEq α] in
-- With an empty stack everything has been seen.
theorem complete {all : List α} (hi : Invariant R S stop [] all) : x ∈ all ↔ Reached R S x where
  mp := hi.reached x
  mpr h := h.mem (U := Membership.mem all) hi.first
    fun a b ha => (hi.done a ha List.not_mem_nil).right b

end Invariant

-- The loop ends after as many rounds as there are elements to take from the stack.
theorem explore_spec {U : Finset α} {todo all : List α} (hu : ∀ x, Reached R S x → x ∈ U)
    (hn : ∀ x ∈ U, ∃ found, next x = some found ∧ ∀ y, y ∈ found ↔ R x y)
    (hi : Invariant R S stop todo all) (hr : todo.length + U.card ≤ rounds + all.length) :
    ∃ b seen, explore next stop rounds todo all = some (b, seen) ∧
      (b = true ↔ ∃ x, Reached R S x ∧ stop x = true) ∧
      (b = false → seen.Nodup ∧ ∀ x, x ∈ seen ↔ Reached R S x) := by
  induction rounds generalizing todo all <;> rcases todo with _ | ⟨e, todo⟩
  case zero.nil | succ.nil =>
    refine ⟨false, all, by simp [explore], ?_, fun _ => ⟨hi.nodup, fun x => hi.complete⟩⟩
    refine iff_of_false Bool.false_ne_true ?_
    rintro ⟨x, hx, hs⟩
    have := hi.done x (hi.complete.mpr hx) List.not_mem_nil |>.left
    simp [this] at hs
  case zero.cons =>
    have : all.length ≤ U.card :=
      List.toFinset_card_of_nodup hi.nodup ▸
        Finset.card_le_card fun x hx => hu x <| hi.reached x <| List.mem_toFinset.mp hx
    simp only [List.length_cons] at hr
    omega
  case succ.cons rounds ih =>
    have he := hi.reached e <| hi.pending e List.mem_cons_self
    unfold explore
    split
    case isTrue hs => exact ⟨true, all, rfl, iff_of_true rfl ⟨e, he, hs⟩, nofun⟩
    case isFalse hs =>
      have ⟨found, hf, hm⟩ := hn e (hu e he)
      rw [hf]
      apply ih (hi.push (by simpa using hs) hm)
      have := @length_push _ _ found todo all
      simp only [List.length_cons] at hr
      omega

end Worklist

namespace Reports

variable [DecidableEq α] [DecidableEq β] {run : ℕ → Option (List α)} {times : α → ℕ}

theorem const (l : List α) : Reports (fun _ => some l) l.count :=
  .of_forall fun _ => ⟨l, rfl, fun _ => rfl⟩

theorem congr (h : Reports run times) (ht : ∀ a, times a = times' a) : Reports run times' :=
  h.mono fun _ ⟨l, hl, hc⟩ => ⟨l, hl, fun a => (hc a).trans (ht a)⟩

theorem guard (h : Reports run times) (b : Bool) :
    Reports (fun n => if b then run n else some []) (fun a => if b then times a else 0) := by
  cases b
  case false => exact .of_forall fun _ => ⟨[], by simp, fun _ => by simp⟩
  case true => simpa using h

theorem mapEquiv (h : Reports run times) (e : α ≃ β) :
    Reports (fun n => (run n).map (List.map e)) (times <| e.symm ·) := by
  filter_upwards [h] with n ⟨l, hl, hc⟩
  refine ⟨l.map e, by simp [hl], fun b => ?_⟩
  have := List.count_map_of_injective l e e.injective (e.symm b)
  rwa [e.apply_symm_apply, hc] at this

theorem eraseDups_append {run' : ℕ → Option (List α)} (h : Reports run times)
    (h' : Reports run' times') :
    Reports (fun n => do some ((← run n) ++ (← run' n)).eraseDups)
      (fun a => once (0 < times a ∨ 0 < times' a)) := by
  filter_upwards [h, h'] with n ⟨l, hl, hc⟩ ⟨l', hl', hc'⟩
  refine ⟨(l ++ l').eraseDups, by simp [hl, hl'], fun a => ?_⟩
  rw [List.count_eraseDups, List.count_append, hc, hc', Nat.add_pos_iff_pos_or_pos]

theorem exists_finset (h : Reports run times) : ∃ s : Finset α, ∀ a, a ∈ s ↔ 0 < times a := by
  have ⟨_, l, _, hc⟩ := h.exists
  exact ⟨l.toFinset, fun a => by rw [List.mem_toFinset, ← List.count_pos_iff, hc]⟩

-- Elements that consist of a tag and a part that the computation is about.
theorem tag [DecidableEq γ] (e : β ≃ γ × α) (h : Reports run times) (c : γ) :
    Reports (fun n => (run n).map (List.map fun a => e.symm (c, a)))
      (fun b => if (e b).1 = c then times (e b).2 else 0) := by
  filter_upwards [h] with n ⟨l, hl, hc⟩
  refine ⟨l.map fun a => e.symm (c, a), by simp [hl], fun b => ?_⟩
  split
  case isTrue hb =>
    have hi : Function.Injective fun a => e.symm (c, a) :=
      fun _ _ h => (Prod.mk.inj <| e.symm.injective h).right
    have he : b = e.symm (c, (e b).2) := by rw [← hb, Prod.mk.eta, e.symm_apply_apply]
    rw [he, List.count_map_of_injective l _ hi, hc]
    simp
  case isFalse hb =>
    refine List.count_eq_zero_of_not_mem fun hm => hb ?_
    have ⟨a, _, ha⟩ := List.mem_map.mp hm
    simp [← ha]

section

variable [DecidableEq γ] [DecidableEq δ] (e : α ≃ γ × μ) (e' : β ≃ γ × δ)
  {go : ℕ → α → Option (List β)} {run' : γ → μ → ℕ → Option (List δ)} {ways : γ → μ → δ → ℕ}

omit [DecidableEq α] in
-- A computation goes on from an element with its tag.
theorem goOn (hr : ∀ c m, Reports (run' c m) (ways c m))
    (hg : ∀ n c m, go n (e.symm (c, m)) = (run' c m n).map (List.map fun d => e'.symm (c, d)))
    (a : α) : Reports (go · a) fun b =>
      if (e' b).1 = (e a).1 then ways (e a).1 (e a).2 (e' b).2 else 0 := by
  convert hr (e a).1 (e a).2 |>.tag e' (e a).1 using 2 with n
  rw [← hg, Prod.mk.eta, e.symm_apply_apply]

theorem flatMapM {U : Finset μ} (h : Reports run times) (hr : ∀ c m, Reports (run' c m) (ways c m))
    (hg : ∀ n c m, go n (e.symm (c, m)) = (run' c m n).map (List.map fun d => e'.symm (c, d)))
    (hu : ∀ c m, times (e.symm (c, m)) ≠ 0 → m ∈ U) :
    Reports (fun n => do (← run n).flatMapM (go n)) fun b =>
      ∑ m ∈ U, times (e.symm ((e' b).1, m)) * ways (e' b).1 m (e' b).2 := by
  have ⟨s, hs⟩ := h.exists_finset
  have hall : ∀ᶠ n in atTop, ∀ a ∈ s, ∃ l, go n a = some l ∧ ∀ b, l.count b =
      if (e' b).1 = (e a).1 then ways (e a).1 (e a).2 (e' b).2 else 0 :=
    (eventually_all_finset s).mpr fun a _ => Reports.goOn e e' hr hg a
  filter_upwards [h, hall] with n ⟨l, hl, hc⟩ hall
  have ⟨r, hr, hrc⟩ := List.count_flatMapM fun a ha =>
    hall a <| hs a |>.mpr <| hc a ▸ List.count_pos_iff.mpr ha
  refine ⟨r, by simp [hl, hr], fun b => ?_⟩
  rw [hrc, Finset.sum_list_map_count]
  -- Only elements with the tag of the result have a share in it.
  refine Finset.sum_bij_ne_zero (fun a _ _ => (e a).2) ?_ ?_ ?_ ?_
  case refine_1 =>
    intro a _ ha
    refine hu (e a).1 _ ?_
    rw [Prod.mk.eta, e.symm_apply_apply, ← hc]
    exact left_ne_zero_of_mul ha
  case refine_2 =>
    intro a _ ha a' _ ha' h
    have ht : (e' b).1 = (e a).1 := by_contra fun h => ha <| by simp [h]
    have ht' : (e' b).1 = (e a').1 := by_contra fun h => ha' <| by simp [h]
    exact e.injective <| Prod.ext (ht.symm.trans ht') h
  case refine_3 =>
    intro m _ hm
    have ht := left_ne_zero_of_mul hm
    refine ⟨e.symm ((e' b).1, m), ?_, ?_, by simp⟩
    case refine_1 => exact List.mem_toFinset.mpr <| List.count_pos_iff.mp <| by rw [hc]; omega
    case refine_2 => simpa [hc] using hm
  case refine_4 =>
    intro a _ ha
    have ht : (e' b).1 = (e a).1 := by_contra fun h => ha <| by simp [h]
    simp [ht, hc]

end

-- A search that starts with what one computation reports and goes on with another one.
theorem explore {next : ℕ → α → Option (List α)} {ways : α → α → ℕ} {U : Finset α}
    (stop : α → Bool) (h : Reports run times) (hn : ∀ a, Reports (next · a) (ways a))
    (hu : ∀ a, Worklist.Reached (0 < ways · ·) (0 < times ·) a → a ∈ U) :
    ∀ᶠ n in atTop, ∃ b seen,
      (do let start ← run n
          Worklist.explore (next n) stop n start.reverse start.eraseDups) = some (b, seen) ∧
      (b = true ↔ ∃ a, Worklist.Reached (0 < ways · ·) (0 < times ·) a ∧ stop a = true) ∧
      (b = false → seen.Nodup ∧
        ∀ a, a ∈ seen ↔ Worklist.Reached (0 < ways · ·) (0 < times ·) a) := by
  have hall : ∀ᶠ n in atTop, ∀ a ∈ U, ∃ l, next n a = some l ∧ ∀ b, l.count b = ways a b :=
    (eventually_all_finset U).mpr fun a _ => hn a
  -- As many rounds as there are elements, and one for each of those the search starts with.
  have ⟨_, first, _, hf⟩ := h.exists
  filter_upwards [h, hall, eventually_ge_atTop (first.length + U.card)] with n ⟨l, hl, hc⟩ hall hle
  have hp : l.Perm first := List.perm_iff_count.mpr fun a => (hc a).trans (hf a).symm
  simp only [hl, Option.bind_eq_bind, Option.bind_some]
  apply Worklist.explore_spec hu
  case hn =>
    intro a ha
    have ⟨l, hl, hc⟩ := hall a ha
    exact ⟨l, hl, fun b => by rw [← List.count_pos_iff, hc]⟩
  case hi => exact .initial fun a => by rw [← List.count_pos_iff, hc]
  case hr =>
    rw [List.length_reverse, hp.length_eq]
    omega

theorem closure [DecidableEq γ] [DecidableEq μ] (e : α ≃ γ × μ)
    {next : ℕ → α → Option (List α)} {run' : γ → μ → ℕ → Option (List μ)} {ways : γ → μ → μ → ℕ}
    {U : Finset μ} (h : Reports run times) (hr : ∀ c m, Reports (run' c m) (ways c m))
    (hg : ∀ n c m, next n (e.symm (c, m)) = (run' c m n).map (List.map fun d => e.symm (c, d)))
    (hu : ∀ c m d, 0 < ways c m d → d ∈ U) :
    Reports
      (fun n => do
        let start ← run n
        let (_, seen) ← Worklist.explore (next n) (fun _ => false) n start.reverse start.eraseDups
        some seen)
      fun a => once <| Worklist.Reached (0 < ways (e a).1 · ·)
        (fun m => 0 < times (e.symm ((e a).1, m))) (e a).2 := by
  have ⟨s, hs⟩ := h.exists_finset
  have hw : (fun a b => 0 < if (e b).1 = (e a).1 then ways (e a).1 (e a).2 (e b).2 else 0) =
      fun a b => (e b).1 = (e a).1 ∧ 0 < ways (e a).1 (e a).2 (e b).2 := by
    funext a b
    split <;> simp [*]
  have hu' (a : α) (ha : Worklist.Reached
      (fun a b => 0 < if (e b).1 = (e a).1 then ways (e a).1 (e a).2 (e b).2 else 0)
      (0 < times ·) a) : a ∈ s ∪ ((s.image (e · |>.1)) ×ˢ U).map e.symm.toEmbedding := by
    refine ha.mem (U := {a | a ∈ s ∪ ((s.image (e · |>.1)) ×ˢ U).map e.symm.toEmbedding}) ?_ ?_
    case refine_1 => exact fun a ha => Finset.mem_union_left _ <| hs a |>.mpr ha
    case refine_2 =>
      intro a b ha hab
      have ⟨ht, hab⟩ := (congrFun₂ hw a b).mp hab
      refine Finset.mem_union_right _ <| Finset.mem_map.mpr ⟨e b, ?_, by simp⟩
      refine Finset.mem_product.mpr ⟨ht ▸ ?_, hu _ _ _ hab⟩
      rcases Finset.mem_union.mp ha with ha | ha
      case inl => exact Finset.mem_image_of_mem _ ha
      case inr =>
        have ⟨p, hp, ha⟩ := Finset.mem_map.mp ha
        have := Finset.mem_product.mp hp |>.left
        simpa [← ha] using this
  filter_upwards [Reports.explore (fun _ => false) h (Reports.goOn e e hr hg) hu']
    with n ⟨b, seen, hx, hb, hseen⟩
  obtain rfl : b = false := by simpa using hb
  have ⟨hnodup, hmem⟩ := hseen rfl
  refine ⟨seen, ?_, fun a => ?_⟩
  case refine_1 =>
    have ⟨start, hrun, hx⟩ := Option.bind_eq_some_iff.mp hx
    simp [hrun, hx]
  case refine_2 =>
    rw [hnodup.count_eq_once, hmem, hw]
    exact once_congr <| Worklist.Reached.tagged_iff e (0 < ways · · ·)

end Reports

namespace Decides

variable {run run' : ℕ → Option Bool}

theorem const (b : Bool) : Decides (fun _ => some b) (b = true) :=
  .of_forall fun _ => ⟨b, rfl, .rfl⟩

theorem congr (h : Decides run p) (hp : p ↔ q) : Decides run q :=
  h.mono fun _ ⟨b, hb, hbp⟩ => ⟨b, hb, hbp.trans hp⟩

theorem or (h : Decides run p) (h' : Decides run' q) :
    Decides (fun n => do if ← run n then some true else run' n) (p ∨ q) := by
  filter_upwards [h, h'] with n ⟨b, hb, hp⟩ ⟨b', hb', hq⟩
  refine ⟨b || b', ?_, by simp [hp, hq]⟩
  cases b <;> simp [hb, hb']

theorem anyM [DecidableEq α] {run : ℕ → Option (List α)} {times : α → ℕ}
    {run' : ℕ → α → Option Bool} {P : α → Prop} (h : Reports run times)
    (h' : ∀ a, Decides (run' · a) (P a)) :
    Decides (fun n => do (← run n).anyM (run' n)) (∃ a, 0 < times a ∧ P a) := by
  have ⟨s, hs⟩ := h.exists_finset
  have hall : ∀ᶠ n in atTop, ∀ a ∈ s, ∃ b, run' n a = some b ∧ (b = true ↔ P a) :=
    (eventually_all_finset s).mpr fun a _ => h' a
  filter_upwards [h, hall] with n ⟨l, hl, hc⟩ hall
  have hm (a : α) : a ∈ l ↔ 0 < times a := by rw [← hc, List.count_pos_iff]
  have ⟨b, hb, hp⟩ := List.anyM_iff fun a ha => hall a <| hs a |>.mpr <| hm a |>.mp ha
  exact ⟨b, by simp [hl, hb], by simp [hp, hm]⟩

-- The answer as a list that is empty or not.
theorem reports (h : Decides run p) :
    Reports (fun n => (run n).map fun b => if b then [()] else []) (fun _ => once p) := by
  filter_upwards [h] with n ⟨b, hb, hp⟩
  refine ⟨if b then [()] else [], by simp [hb], fun _ => ?_⟩
  cases b <;> simp [← hp]

-- Whether a search comes across an element.
theorem search [DecidableEq α] {run : ℕ → Option (List α)} {times : α → ℕ}
    {next : ℕ → α → Option (List α)} {ways : α → α → ℕ} {U : Finset α} (h : Reports run times)
    (hn : ∀ a, Reports (next · a) (ways a)) (hu : ∀ a b, 0 < ways a b → b ∈ U) (target : α) :
    Decides
      (fun n => do
        let start ← run n
        let (found, _) ← Worklist.explore (next n) (· == target) n start.reverse start.eraseDups
        some found)
      (Worklist.Reached (0 < ways · ·) (0 < times ·) target) := by
  have ⟨s, hs⟩ := h.exists_finset
  have hu' (a : α) (ha : Worklist.Reached (0 < ways · ·) (0 < times ·) a) : a ∈ s ∪ U :=
    ha.mem (U := {a | a ∈ s ∪ U}) (fun a ha => Finset.mem_union_left _ <| hs a |>.mpr ha)
      fun a b _ hab => Finset.mem_union_right _ <| hu a b hab
  filter_upwards [Reports.explore (· == target) h hn hu'] with n ⟨b, seen, hx, hb, _⟩
  have ⟨start, hrun, hx⟩ := Option.bind_eq_some_iff.mp hx
  exact ⟨b, by simp [hrun, hx], hb.trans <| by simp⟩

end Decides
