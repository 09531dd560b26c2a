import OxigraphCloud.Primitives.Iterator

-- Iterators of any kind of state, and those that put into a buffer what an item of their source
-- comes to.

namespace Iter

-- `Box<dyn Iterator>`
structure Boxed (α : Type) where
  {σ : Type}
  state : σ
  next : σ → Option α × σ

namespace Boxed

def Yields (it : Boxed α) (l : List α) : Prop :=
  ∃ last, Iter.Yields it.next it.state l last

theorem yields_of_remaining {σ : Type} {s : σ} {next : σ → Option α × σ}
    (r : Remaining next) (h : r.valid s) : Boxed.Yields ⟨s, next⟩ (r.items s) :=
  have ⟨_, _, _, h⟩ := r.yields h
  ⟨_, h⟩

def ofList (l : List α) : Boxed α where
  state := l
  next l := (l.head?, l.tail)

theorem yields_ofList (l : List α) : (ofList l).Yields l := by
  induction l
  case nil => exact ⟨_, .done rfl⟩
  case cons a l hi =>
    have ⟨last, h⟩ := hi
    exact ⟨last, .item rfl h⟩

end Boxed

-- The buffer is a stack. If it is empty, the next item of the source either is replaced by a single
-- result or fills the buffer.
def bufferedNext (expand : α → β ⊕ List β) (source : List α) (buffer : List β) :
    Option β × List α × List β :=
  match buffer.getLast? with
  | some b => (some b, source, buffer.dropLast)
  | none =>
    match source with
    | [] => (none, [], buffer)
    | a :: source =>
      match expand a with
      | .inl b => (some b, source, buffer)
      | .inr results => bufferedNext expand source (buffer ++ results)

def expanded (expand : α → β ⊕ List β) (a : α) : List β :=
  (expand a).elim ([·]) List.reverse

def bufferedItems (expand : α → β ⊕ List β) (source : List α) (buffer : List β) : List β :=
  buffer.reverse ++ source.flatMap (expanded expand)

theorem bufferedNext_spec (expand : α → β ⊕ List β) (source : List α) (buffer : List β) :
    let (result, source', buffer') := bufferedNext expand source buffer
    result = (bufferedItems expand source buffer).head? ∧
      bufferedItems expand source' buffer' = (bufferedItems expand source buffer).tail := by
  induction source generalizing buffer
  all_goals
    rw [bufferedNext.eq_def]
    rcases List.eq_nil_or_concat buffer with rfl | ⟨rest, b, rfl⟩
  case nil.inl | nil.inr | cons.inr => simp [bufferedItems]
  case cons.inl a source hi =>
    have he : bufferedItems expand (a :: source) [] =
        expanded expand a ++ bufferedItems expand source [] := by
      simp [bufferedItems]
    rw [he, expanded]
    simp only [List.getLast?_nil, List.nil_append]
    cases expand a
    case inl b => simp
    case inr results => simpa [bufferedItems] using hi results

-- The state may have more parts than a source and a buffer, on which the results depend.
def Remaining.ofBuffered {next : σ → Option β × σ} (expand : σ → α → β ⊕ List β)
    (source : σ → List α) (buffer : σ → List β)
    (hn : ∀ s, ((next s).1, source (next s).2, buffer (next s).2) =
      bufferedNext (expand s) (source s) (buffer s))
    (he : ∀ s, expand (next s).2 = expand s) : Remaining next where
  valid _ := True
  items s := bufferedItems (expand s) (source s) (buffer s)
  head {s} _ := by
    have h := bufferedNext_spec (expand s) (source s) (buffer s)
    rw [← hn s] at h
    exact h.1
  tail {s} _ := by
    have h := bufferedNext_spec (expand s) (source s) (buffer s)
    rw [← hn s] at h
    exact ⟨trivial, he s ▸ h.2⟩

end Iter
