import Mathlib

-- Imperative procedures: they work on a state, may stop early with an error, and may loop. The
-- number bounds how often each loop is entered. A result that is reached with some bound is
-- reached with every higher bound, too.
structure Proc (σ ε α : Type) where
  run  : ℕ → σ → Option (Except ε α × σ)
  mono : run n s = some x → run (n + 1) s = some x

namespace Proc

variable {σ ε α β : Type} {s s₁ s' : σ}

theorem mono_le {x : Proc σ ε α} (hn : n ≤ m) (h : x.run n s = some r) : x.run m s = some r := by
  induction hn
  case refl => exact h
  case step hi => exact x.mono hi

instance : Monad (Proc σ ε) where
  pure a := { run := fun _ s => some (.ok a, s), mono := id }
  bind x f := {
    run := fun n s =>
      match x.run n s with
      | none                => none
      | some (.error e, s') => some (.error e, s')
      | some (.ok a, s')    => (f a).run n s'
    mono := by
      intro n s y h
      split at h
      case h_1 => contradiction
      case h_2 h' => simpa [x.mono h'] using h
      case h_3 a s' h' => simpa [x.mono h'] using (f a).mono h
  }

def modify (f : σ → σ) : Proc σ ε Unit where
  run _ s := some (.ok (), f s)
  mono    := id

-- A call that returns a `Result` and cannot loop.
def call (f : σ → Except ε α × σ) : Proc σ ε α where
  run _ s := some (f s)
  mono    := id

-- `for a in l { body(a)?; }`
def forEach (body : α → Proc σ ε Unit) : List α → Proc σ ε Unit
  | []     => pure ()
  | a :: l => do body a; forEach body l

def loopN (body : Proc σ ε (Option β)) (n : ℕ) : ℕ → σ → Option (Except ε β × σ)
  | 0, _ => none
  | k + 1, s =>
    match body.run n s with
    | none                    => none
    | some (.error e, s')     => some (.error e, s')
    | some (.ok (some b), s') => some (.ok b, s')
    | some (.ok none, s')     => loopN body n k s'

theorem loopN_mono {body : Proc σ ε (Option β)} (hn : n ≤ n') (hk : k ≤ k')
    (h : loopN body n k s = some r) : loopN body n' k' s = some r := by
  induction k generalizing s k'
  case zero => contradiction
  case succ k hi =>
    obtain ⟨k', rfl⟩ := Nat.exists_eq_add_one.mpr <| Nat.zero_lt_of_lt hk
    rw [loopN] at h ⊢
    split at h
    case h_1 => contradiction
    case h_4 h' => simpa [mono_le hn h'] using hi (Nat.le_of_succ_le_succ hk) h
    all_goals simpa [mono_le hn ‹_›] using h

-- `loop { .. }` whose body returns `none` to go on and `some b` to return `b`.
def loop (body : Proc σ ε (Option β)) : Proc σ ε β where
  run n := loopN body n n
  mono  := loopN_mono (Nat.le_succ _) (Nat.le_succ _)

-- The procedure finishes with result `r` in state `s'`.
def Evaluates (x : Proc σ ε α) (s : σ) (r : Except ε α) (s' : σ) : Prop :=
  ∃ n, x.run n s = some (r, s')

def Terminates (x : Proc σ ε α) (s : σ) : Prop :=
  ∃ r s', x.Evaluates s r s'

theorem Evaluates.deterministic {x : Proc σ ε α} {r₁ r₂ : Except ε α} {s₂ : σ}
    (h₁ : x.Evaluates s r₁ s₁) (h₂ : x.Evaluates s r₂ s₂) : r₁ = r₂ ∧ s₁ = s₂ := by
  have ⟨n₁, h₁⟩ := h₁
  have ⟨n₂, h₂⟩ := h₂
  have h := (mono_le (le_max_left n₁ n₂) h₁).symm.trans <| mono_le (le_max_right n₁ n₂) h₂
  simpa using h

@[simp]
theorem evaluates_pure {a : α} {r : Except ε α} :
    (pure a : Proc σ ε α).Evaluates s r s' ↔ r = .ok a ∧ s' = s where
  mp  := fun ⟨_, h⟩ => by cases h; exact ⟨rfl, rfl⟩
  mpr := fun ⟨h₁, h₂⟩ => ⟨0, by subst h₁ h₂; rfl⟩

@[simp]
theorem evaluates_modify {f : σ → σ} {r : Except ε Unit} :
    (modify f).Evaluates s r s' ↔ r = .ok () ∧ s' = f s where
  mp  := fun ⟨_, h⟩ => by cases h; exact ⟨rfl, rfl⟩
  mpr := fun ⟨h₁, h₂⟩ => ⟨0, by subst h₁ h₂; rfl⟩

@[simp]
theorem evaluates_call {f : σ → Except ε α × σ} {r : Except ε α} :
    (call f).Evaluates s r s' ↔ f s = (r, s') where
  mp  := fun ⟨_, h⟩ => Option.some.inj h
  mpr := fun h => ⟨0, congrArg some h⟩

theorem evaluates_bind {x : Proc σ ε α} {f : α → Proc σ ε β} {r : Except ε β} :
    (x >>= f).Evaluates s r s' ↔
      (∃ e, r = .error e ∧ x.Evaluates s (.error e) s') ∨
      (∃ a s₁, x.Evaluates s (.ok a) s₁ ∧ (f a).Evaluates s₁ r s') where
  mp := fun ⟨n, h⟩ => by
    simp only [bind] at h
    split at h
    case h_1 => contradiction
    case h_2 e _ h' => cases h; exact .inl ⟨e, rfl, n, h'⟩
    case h_3 a s₁ h' => exact .inr ⟨a, s₁, ⟨n, h'⟩, n, h⟩
  mpr h := by
    cases h
    case inl h =>
      have ⟨_, hr, n, h⟩ := h
      exact ⟨n, by simp [bind, h, hr]⟩
    case inr h =>
      have ⟨_, _, ⟨n, h₁⟩, m, h₂⟩ := h
      refine ⟨max n m, ?_⟩
      simp [bind, mono_le (le_max_left n m) h₁, mono_le (le_max_right n m) h₂]

theorem Evaluates.bind {x : Proc σ ε α} {f : α → Proc σ ε β} {r : Except ε β}
    (h₁ : x.Evaluates s (.ok a) s₁) (h₂ : (f a).Evaluates s₁ r s') : (x >>= f).Evaluates s r s' :=
  evaluates_bind.mpr <| .inr ⟨a, s₁, h₁, h₂⟩

theorem Evaluates.bind_inv {x : Proc σ ε α} {f : α → Proc σ ε β} {r : Except ε β}
    (h : (x >>= f).Evaluates s r s') (hx : ∀ {r s₁}, x.Evaluates s r s₁ → ∃ a, r = .ok a) :
    ∃ a s₁, x.Evaluates s (.ok a) s₁ ∧ (f a).Evaluates s₁ r s' := by
  cases evaluates_bind.mp h
  case inl h =>
    have ⟨_, _, h⟩ := h
    exact nomatch hx h
  case inr h => exact h

-- Whether the second procedure terminates does not depend on how the first one ends.
theorem terminates_bind_iff {x : Proc σ ε α} {f : α → Proc σ ε β} {P : Prop}
    (h : ∀ {r s'}, x.Evaluates s r s' → ∃ a, r = .ok a ∧ ((f a).Terminates s' ↔ P)) :
    (x >>= f).Terminates s ↔ x.Terminates s ∧ P where
  mp := fun ⟨_, _, ht⟩ => by
    cases evaluates_bind.mp ht
    case inl ht =>
      have ⟨_, _, ht⟩ := ht
      have ⟨_, hr, _⟩ := h ht
      contradiction
    case inr ht =>
      have ⟨a, s₁, ht, ht'⟩ := ht
      have ⟨_, hr, hp⟩ := h ht
      cases hr
      exact ⟨⟨_, _, ht⟩, hp.mp ⟨_, _, ht'⟩⟩
  mpr := fun ⟨⟨_, _, ht⟩, hp⟩ => by
    have ⟨_, hr, hp'⟩ := h ht
    subst hr
    have ⟨_, _, ht'⟩ := hp'.mpr hp
    exact ⟨_, _, ht.bind ht'⟩

theorem evaluates_loop {body : Proc σ ε (Option β)} {r : Except ε β} :
    (loop body).Evaluates s r s' ↔
      (∃ e, r = .error e ∧ body.Evaluates s (.error e) s') ∨
      (∃ b, r = .ok b ∧ body.Evaluates s (.ok (some b)) s') ∨
      (∃ s₁, body.Evaluates s (.ok none) s₁ ∧ (loop body).Evaluates s₁ r s') where
  mp := fun ⟨n, h⟩ => by
    cases n
    case zero => contradiction
    case succ n =>
      simp only [loop, loopN] at h
      split at h
      case h_1 => contradiction
      case h_2 e _ h' => cases h; exact .inl ⟨e, rfl, _, h'⟩
      case h_3 b _ h' => cases h; exact .inr <| .inl ⟨b, rfl, _, h'⟩
      case h_4 s₁ h' =>
        exact .inr <| .inr ⟨s₁, ⟨_, h'⟩, n + 1, loopN_mono le_rfl (Nat.le_succ _) h⟩
  mpr h := by
    obtain ⟨e, rfl, n, h⟩ | ⟨b, rfl, n, h⟩ | ⟨s₁, ⟨n, h₁⟩, m, h₂⟩ := h
    · exact ⟨n + 1, by simp [loop, loopN, body.mono h]⟩
    · exact ⟨n + 1, by simp [loop, loopN, body.mono h]⟩
    · refine ⟨max n m + 1, ?_⟩
      have h₁ := mono_le (Nat.le_succ_of_le <| le_max_left n m) h₁
      have h₂ := loopN_mono (Nat.le_succ_of_le <| le_max_right n m) (le_max_right n m) h₂
      simp only [loop, loopN, h₁, h₂]

-- The result of a loop satisfies whatever its last round establishes.
theorem Evaluates.loop_ensures {body : Proc σ ε (Option β)} {r : Except ε β} {I : σ → Prop}
    {Q : Except ε β → σ → Prop} (h : (loop body).Evaluates s r s') (hs : I s)
    (step : ∀ {s s₁}, I s → body.Evaluates s (.ok none) s₁ → I s₁)
    (last : ∀ {s s₁ b}, I s → body.Evaluates s (.ok (some b)) s₁ → Q (.ok b) s₁)
    (fail : ∀ {s s₁ e}, I s → body.Evaluates s (.error e) s₁ → Q (.error e) s₁) : Q r s' := by
  have ⟨n, h⟩ := h
  suffices ∀ {k s}, I s → loopN body n k s = some (r, s') → Q r s' from this hs h
  intro k
  induction k <;> intro s hs h
  case zero => contradiction
  case succ k hi =>
    rw [loopN] at h
    split at h
    case h_1 => contradiction
    case h_2 h' => cases h; exact fail hs ⟨n, h'⟩
    case h_3 h' => cases h; exact last hs ⟨n, h'⟩
    case h_4 h' => exact hi (step hs ⟨n, h'⟩) h

-- A loop does not terminate if no round that starts from the invariant leaves the loop.
theorem not_terminates_loop {body : Proc σ ε (Option β)} {I : σ → Prop} (hs : I s)
    (step : ∀ {s r s₁}, I s → body.Evaluates s r s₁ → r = .ok none ∧ I s₁) :
    ¬(loop body).Terminates s := by
  intro ⟨_, _, h⟩
  refine h.loop_ensures (Q := fun _ _ => False) hs (fun hs h => (step hs h).right) ?_ ?_
  all_goals exact fun hs h => nomatch (step hs h).left

-- A loop terminates if the rounds that go on make a measure smaller.
theorem evaluates_loop_of_measure {body : Proc σ ε (Option β)} {I : ℕ → σ → Prop} (hs : I m s)
    (step : ∀ {m s}, I m s →
      (∃ m' < m, ∃ s₁, body.Evaluates s (.ok none) s₁ ∧ I m' s₁) ∨
      (∃ b s₁, body.Evaluates s (.ok (some b)) s₁)) :
    ∃ b s', (loop body).Evaluates s (.ok b) s' := by
  induction m using Nat.strong_induction_on generalizing s
  case h m hi =>
    cases step hs
    case inl h =>
      have ⟨m', hm, s₁, h₁, hs₁⟩ := h
      have ⟨b, s', h'⟩ := hi m' hm hs₁
      exact ⟨b, s', evaluates_loop.mpr <| .inr <| .inr ⟨s₁, h₁, h'⟩⟩
    case inr h =>
      have ⟨b, s₁, h⟩ := h
      exact ⟨b, s₁, evaluates_loop.mpr <| .inr <| .inl ⟨b, rfl, h⟩⟩

-- An iteration whose body does not fail. The invariant knows the elements that are left.
theorem Evaluates.forEach_ensures {body : α → Proc σ ε Unit} {I : List α → σ → Prop}
    {r : Except ε Unit} (h : (forEach body l).Evaluates s r s') (hs : I l s)
    (step : ∀ {a l s r s'}, I (a :: l) s → (body a).Evaluates s r s' → r = .ok () ∧ I l s') :
    r = .ok () ∧ I [] s' := by
  induction l generalizing s
  case nil =>
    have ⟨hr, hs'⟩ := evaluates_pure.mp h
    exact ⟨hr, hs' ▸ hs⟩
  case cons a l hi =>
    cases evaluates_bind.mp h
    case inl h =>
      have ⟨_, _, h⟩ := h
      exact nomatch (step hs h).left
    case inr h =>
      have ⟨_, _, h₁, h⟩ := h
      exact hi h (step hs h₁).right

theorem terminates_forEach {body : α → Proc σ ε Unit} {I : List α → σ → Prop} (hs : I l s)
    (step : ∀ {a l s r s'}, I (a :: l) s → (body a).Evaluates s r s' → r = .ok () ∧ I l s')
    (total : ∀ {a l s}, I (a :: l) s → (body a).Terminates s) : (forEach body l).Terminates s := by
  induction l generalizing s
  case nil => exact ⟨_, s, evaluates_pure.mpr ⟨rfl, rfl⟩⟩
  case cons a l hi =>
    have ⟨_, _, h₁⟩ := total hs
    have ⟨hr, hs₁⟩ := step hs h₁
    have ⟨_, s', h⟩ := hi hs₁
    exact ⟨_, s', (hr ▸ h₁).bind h⟩

end Proc
