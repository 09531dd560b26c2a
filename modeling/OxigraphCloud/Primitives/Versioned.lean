import OxigraphCloud.Primitives.KeyValue

-- The committed states of a key-value store: a first state and the mutations of each commit since
-- then. A transaction that starts at timestamp `n` sees the first `n` commits.
structure History (K V : Type) [LinearOrder K] where
  base    : Kv K V
  commits : List (List (Mutation K V))

namespace History

variable {K V : Type} [LinearOrder K] {h : History K V} {ws : List (Mutation K V)}

def now (h : History K V) : ℕ := h.commits.length

def stateAt (h : History K V) (ts : ℕ) : Kv K V :=
  Mutation.applyAll h.base (h.commits.take ts).flatten

def current (h : History K V) : Kv K V := h.stateAt h.now

-- The mutations that were committed since `ts`.
def since (h : History K V) (ts : ℕ) : List (Mutation K V) := (h.commits.drop ts).flatten

def push (h : History K V) (ws : List (Mutation K V)) : History K V where
  base    := h.base
  commits := h.commits ++ [ws]

-- Write-write conflict detection: some commit since `ts` touched a key that `ws` touches.
def conflicts (h : History K V) (ts : ℕ) (ws : List (Mutation K V)) : Bool :=
  ws.any fun m => (h.since ts).any m.overlaps

theorem stateAt_push (hts : ts ≤ h.now) : (h.push ws).stateAt ts = h.stateAt ts := by
  simp [stateAt, push, List.take_append_of_le_length hts]

theorem now_push : (h.push ws).now = h.now + 1 := by
  simp [now, push]

theorem since_push (hts : ts ≤ h.now) : (h.push ws).since ts = h.since ts ++ ws := by
  simp [since, push, List.drop_append_of_le_length hts]

-- A key that `ws` touches has not been touched since.
theorem effect_eq_none (hc : ¬h.conflicts ts ws) (hn : ts ≤ n) (hm : m ∈ ws)
    (he : m.effect k ≠ none) (hm' : m' ∈ h.since n) : m'.effect k = none := by
  by_contra he'
  refine hc <| List.any_eq_true.mpr ⟨m, hm, List.any_eq_true.mpr ⟨m', ?_, ?_⟩⟩
  · obtain ⟨l, hl, hm'⟩ := List.mem_flatten.mp hm'
    exact List.mem_flatten.mpr ⟨l, (List.drop_sublist_drop_left _ hn).subset hl, hm'⟩
  · exact Mutation.overlaps_of_effect he he'

theorem stateAt_of_now_le (hts : h.now ≤ ts) : h.stateAt ts = h.current := by
  simp [current, stateAt, List.take_of_length_le hts, now]

theorem current_push : (h.push ws).current = Mutation.applyAll h.current ws := by
  simp [current, now, stateAt, push, List.take_of_length_le, Mutation.applyAll_append]

end History
