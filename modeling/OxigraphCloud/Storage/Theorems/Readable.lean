import OxigraphCloud.Primitives.Iterator
import OxigraphCloud.Storage.Readable
import OxigraphCloud.Storage.Theorems.Layout

namespace ReadableBackend

-- What the states of a transaction stand for: `holds t δ` says that it has buffered the change `δ`
-- of the dataset it started on. Its scans are based on the committed quads `base t`, and
-- `found t δ g` are the quads that the scan for a graph gives.
structure Reading (τ : Type) where
  dataset : Dataset
  holds   : τ → DatasetDelta → Prop
  base    : τ → Set EncodedQuad
  found   : τ → DatasetDelta → EncodedTerm → Set EncodedQuad

namespace Reading

variable (m : Reading τ)

def view (δ : DatasetDelta) : Dataset := δ.patch m.dataset

end Reading

-- The calls of the backend do what they are meant to do.
structure Lawful (b : ReadableBackend τ) (m : Reading τ) : Prop where
  pos : 0 < b.batchSize
  takeQuads : ∀ {t δ g}, m.holds t δ → (g ≠ .defaultGraph → g.IsTerm) →
    ∃ (quads : List EncodedQuad) (t' : τ),
      b.takeQuads g t = (.ok (quads.take b.batchSize), t') ∧ m.holds t' δ ∧
      quads.Nodup ∧ ∀ q, q ∈ quads ↔ q ∈ m.found t δ g.canonical
  takeGraphNames : ∀ {t δ}, m.holds t δ →
    ∃ (graphNames : List EncodedTerm) (t' : τ),
      b.takeGraphNames t = (.ok (graphNames.take b.batchSize), t') ∧ m.holds t' δ ∧
      graphNames.Nodup ∧ ∀ g, g ∈ graphNames ↔ g ∈ (m.view δ).namedGraphs
  isQuad : ∀ {t δ g q}, m.holds t δ → q ∈ m.found t δ g → q.IsQuad ∧ q.canonical = q
  isTerm : ∀ {t δ g}, m.holds t δ → g ∈ (m.view δ).namedGraphs → g.IsTerm ∧ g.canonical = g
  named : ∀ {t δ g q}, m.holds t δ → q ∈ m.found t δ g →
    (q.graphName = .defaultGraph ↔ g = .defaultGraph)
  complete : ∀ {t δ q}, m.holds t δ → δ.quads q = none → q ∈ m.base t →
    q ∈ m.found t δ q.graphName
  insert : ∀ {t δ} quad, m.holds t δ → m.holds (b.insert quad t)
    ((DatasetDelta.insert (b.encoder.encodeQuad quad).canonical).comp δ)
  insertNamedGraph : ∀ {t δ} graphName, m.holds t δ → m.holds (b.insertNamedGraph graphName t)
    ((DatasetDelta.insertNamedGraph (b.encoder.encodeNamedOrBlankNode graphName).canonical).comp δ)
  removeEncoded : ∀ {t δ q}, m.holds t δ → q.IsQuad →
    m.holds (b.removeEncoded t q) ((DatasetDelta.remove q.canonical).comp δ)
  removeGraphName : ∀ {t δ g}, m.holds t δ → g.IsTerm →
    m.holds (b.removeGraphName g t) ((DatasetDelta.removeGraphName g.canonical).comp δ)

-- The quads `S` are what the clearing of a graph takes out: each of them was found by one of its
-- scans, and the last scan did not find any others.
structure Clears (b : ReadableBackend τ) (m : Reading τ) (δ : DatasetDelta) (g : EncodedTerm)
    (S : Set EncodedQuad) : Prop where
  found : ∀ q ∈ S, ∃ t, ∃ S₁ ⊆ S, m.holds t ((DatasetDelta.dropQuads S₁).comp δ) ∧
    q ∈ m.found t ((DatasetDelta.dropQuads S₁).comp δ) g
  all   : ∃ t, ∃ S₁ ⊆ S, m.holds t ((DatasetDelta.dropQuads S₁).comp δ) ∧
    m.found t ((DatasetDelta.dropQuads S₁).comp δ) g ⊆ S ∧
    (m.found t ((DatasetDelta.dropQuads S₁).comp δ) g).ncard < b.batchSize

variable {τ : Type} {b : ReadableBackend τ} {m : Reading τ} {t t' : τ} {δ : DatasetDelta}
  {g : EncodedTerm}

theorem Lawful.removes {quads : List EncodedQuad} (hb : b.Lawful m) (h : m.holds t δ)
    (hq : ∀ q ∈ quads, q.IsQuad ∧ q.canonical = q) :
    m.holds (quads.foldl b.removeEncoded t)
      ((DatasetDelta.dropQuads { q | q ∈ quads }).comp δ) := by
  induction quads generalizing t δ
  case nil => simpa [DatasetDelta.dropQuads_empty, DatasetDelta.none_comp] using h
  case cons q quads hi =>
    have ⟨⟨hq, hc⟩, hqs⟩ := List.forall_mem_cons.mp hq
    have he : { q' | q' ∈ q :: quads } = {q} ∪ { q' | q' ∈ quads } := by ext; simp
    rw [he, ← DatasetDelta.dropQuads_comp, DatasetDelta.comp_assoc,
      DatasetDelta.dropQuads_singleton]
    have h := hb.removeEncoded h hq
    rw [hc] at h
    exact hi h hqs

theorem Lawful.finite_graphs (hb : b.Lawful m) (h : m.holds t δ) :
    (m.view δ).namedGraphs.Finite := by
  have ⟨graphNames, _, _, _, _, hm⟩ := hb.takeGraphNames h
  exact graphNames.finite_toSet.subset fun g hg => (hm g).mpr hg

-- What one round of `clear_encoded_graph` does.
theorem clearRound_spec (hb : b.Lawful m) (h : m.holds t δ) (hg : g ≠ .defaultGraph → g.IsTerm) :
    ∃ (quads : List EncodedQuad) (t' : τ),
      (b.clearRound g).Evaluates t
        (.ok (if quads.length < b.batchSize then some () else none)) t' ∧
      m.holds t' ((DatasetDelta.dropQuads { q | q ∈ quads.take b.batchSize }).comp δ) ∧
      quads.Nodup ∧ ∀ q, q ∈ quads ↔ q ∈ m.found t δ g.canonical := by
  have ⟨quads, t₁, ht, h₁, hn, hm⟩ := hb.takeQuads h hg
  have hq : ∀ q ∈ quads.take b.batchSize, q.IsQuad ∧ q.canonical = q :=
    fun q hq => hb.isQuad h <| hm q |>.mp <| List.mem_of_mem_take hq
  refine ⟨quads, _, ?_, hb.removes h₁ hq, hn, hm⟩
  have hl : (quads.take b.batchSize).length < b.batchSize ↔ quads.length < b.batchSize := by simp
  exact .bind (Proc.evaluates_call.mpr ht) <| .bind (Proc.evaluates_modify.mpr ⟨rfl, rfl⟩) <|
    Proc.evaluates_pure.mpr ⟨by simp only [hl], rfl⟩

section ClearEncodedGraph

-- The quads that have been taken out so far were found by the scans.
def Cleared (m : Reading τ) (δ : DatasetDelta) (g : EncodedTerm) (t : τ) (S : Set EncodedQuad) :
    Prop :=
  m.holds t ((DatasetDelta.dropQuads S).comp δ) ∧
  ∀ q ∈ S, ∃ t, ∃ S₁ ⊆ S, m.holds t ((DatasetDelta.dropQuads S₁).comp δ) ∧
    q ∈ m.found t ((DatasetDelta.dropQuads S₁).comp δ) g

theorem clearRound_ensures (hb : b.Lawful m) (hg : g ≠ .defaultGraph → g.IsTerm)
    (h : Cleared m δ g.canonical t S) (he : (b.clearRound g).Evaluates t r t') :
    ∃ S', Cleared m δ g.canonical t' S' ∧
      (r = .ok none ∨ r = .ok (some ()) ∧ b.Clears m δ g.canonical S') := by
  have ⟨h, hS⟩ := h
  have ⟨quads, t₁, he', h', hn, hm⟩ := clearRound_spec hb h hg
  have ⟨hr, ht⟩ := he.deterministic he'
  subst hr ht
  rw [← DatasetDelta.comp_assoc, DatasetDelta.dropQuads_comp] at h'
  have hf : ∀ q ∈ S ∪ { q | q ∈ quads.take b.batchSize }, ∃ t,
      ∃ S₁ ⊆ S ∪ { q | q ∈ quads.take b.batchSize },
        m.holds t ((DatasetDelta.dropQuads S₁).comp δ) ∧
        q ∈ m.found t ((DatasetDelta.dropQuads S₁).comp δ) g.canonical := by
    intro q hq
    cases hq
    case inl hq =>
      have ⟨t, S₁, hs, h⟩ := hS q hq
      exact ⟨t, S₁, hs.trans Set.subset_union_left, h⟩
    case inr hq => exact ⟨t, S, Set.subset_union_left, h, hm q |>.mp <| List.mem_of_mem_take hq⟩
  refine ⟨_, ⟨h', hf⟩, ?_⟩
  split
  case isFalse => exact .inl rfl
  case isTrue hl =>
    refine .inr ⟨rfl, hf, t, S, Set.subset_union_left, h, fun q hq => .inr ?_, ?_⟩
    · simpa [List.take_of_length_le hl.le] using hm q |>.mpr hq
    · rwa [Iter.ncard_eq_length hn hm]

theorem clearEncodedGraph_ensures (hb : b.Lawful m) (h : m.holds t δ)
    (hg : g ≠ .defaultGraph → g.IsTerm) (he : (b.clearEncodedGraph g).Evaluates t r t') :
    r = .ok () ∧ ∃ S, m.holds t' ((DatasetDelta.dropQuads S).comp δ) ∧
      b.Clears m δ g.canonical S := by
  refine he.loop_ensures (I := fun t => ∃ S, Cleared m δ g.canonical t S)
    (Q := fun r t' => r = .ok () ∧ ∃ S, m.holds t' ((DatasetDelta.dropQuads S).comp δ) ∧
      b.Clears m δ g.canonical S) ⟨∅, ?_, by simp⟩ ?_ ?_ ?_
  · rwa [DatasetDelta.dropQuads_empty, DatasetDelta.none_comp]
  · intro _ _ ⟨_, h⟩ he
    have ⟨S, h, _⟩ := clearRound_ensures hb hg h he
    exact ⟨S, h⟩
  · intro _ _ _ ⟨_, h⟩ he
    have ⟨S, h, hr⟩ := clearRound_ensures hb hg h he
    exact ⟨rfl, S, h.left, hr.resolve_left nofun |>.right⟩
  · intro _ _ _ ⟨_, h⟩ he
    have ⟨_, _, hr⟩ := clearRound_ensures hb hg h he
    exact nomatch hr

theorem removeEncodedNamedGraph_ensures (hb : b.Lawful m) (h : m.holds t δ) (hg : g.IsTerm)
    (he : (b.removeEncodedNamedGraph g).Evaluates t r t') :
    r = .ok () ∧ ∃ S, b.Clears m δ g.canonical S ∧ m.holds t'
      ((DatasetDelta.removeGraphName g.canonical).comp ((DatasetDelta.dropQuads S).comp δ)) := by
  have ⟨_, _, he, he'⟩ := he.bind_inv fun he =>
    ⟨(), (clearEncodedGraph_ensures hb h (fun _ => hg) he).left⟩
  have ⟨_, S, h, hS⟩ := clearEncodedGraph_ensures hb h (fun _ => hg) he
  have ⟨hr, ht⟩ := Proc.evaluates_modify.mp he'
  exact ⟨hr, S, hS, ht ▸ hb.removeGraphName h hg⟩

end ClearEncodedGraph

section NamedGraphs

variable {body : EncodedTerm → b.Procedure Unit}

theorem graphsRound_inv (hb : b.Lawful m) (h : m.holds t δ)
    (he : (b.graphsRound body).Evaluates t r t') :
    ∃ (graphNames : List EncodedTerm) (t₁ : τ) (r₁ : _),
      graphNames.Nodup ∧ (∀ g, g ∈ graphNames ↔ g ∈ (m.view δ).namedGraphs) ∧ m.holds t₁ δ ∧
      (Proc.forEach body (graphNames.take b.batchSize)).Evaluates t₁ r₁ t' ∧
      (r₁ = .ok () → r = .ok (if graphNames.length < b.batchSize then some () else none)) := by
  have ⟨graphNames, t₁, ht, h₁, hn, hm⟩ := hb.takeGraphNames h
  refine ⟨graphNames, t₁, ?_⟩
  have hl : (graphNames.take b.batchSize).length < b.batchSize ↔
    graphNames.length < b.batchSize := by simp
  cases Proc.evaluates_bind.mp he
  case inl he =>
    have ⟨_, _, he⟩ := he
    simp [ht] at he
  case inr he =>
    have ⟨_, _, he, he'⟩ := he
    cases ht.symm.trans <| Proc.evaluates_call.mp he
    cases Proc.evaluates_bind.mp he'
    case inl he' =>
      have ⟨_, _, he'⟩ := he'
      exact ⟨_, hn, hm, h₁, he', nofun⟩
    case inr he' =>
      have ⟨_, _, he', hp⟩ := he'
      have ⟨hr, ht⟩ := Proc.evaluates_pure.mp hp
      subst ht
      exact ⟨_, hn, hm, h₁, he', fun _ => by simp only [hr, hl]⟩

-- An invariant of a loop over all named graphs: `P` holds before and after each round, `I δ₀ done`
-- within a round that has started with the change `δ₀` and has dealt with the graphs `done`.
structure GraphsInvariant (b : ReadableBackend τ) (m : Reading τ)
    (body : EncodedTerm → b.Procedure Unit) (P : DatasetDelta → Prop)
    (I : DatasetDelta → Set EncodedTerm → DatasetDelta → Prop) : Prop where
  start : ∀ {δ}, P δ → I δ ∅ δ
  next  : ∀ {δ₀ done δ}, I δ₀ done δ → P δ
  step  : ∀ {δ₀ done g t δ r t'}, I δ₀ done δ → m.holds t δ → g ∈ (m.view δ₀).namedGraphs →
    g ∉ done → g.IsTerm ∧ g.canonical = g → (body g).Evaluates t r t' →
    r = .ok () ∧ ∃ δ', m.holds t' δ' ∧ I δ₀ (Insert.insert g done) δ'

variable {P : DatasetDelta → Prop} {I : DatasetDelta → Set EncodedTerm → DatasetDelta → Prop}

-- Within a round that deals with the graphs `l`, those that are not left have been dealt with.
def Partway (m : Reading τ) (I : DatasetDelta → Set EncodedTerm → DatasetDelta → Prop)
    (δ₀ : DatasetDelta) (l left : List EncodedTerm) (t : τ) : Prop :=
  ∃ done, l = done ++ left ∧ ∃ δ, m.holds t δ ∧ I δ₀ { g | g ∈ done } δ

-- The graphs that a round deals with. If there are only a few these are all.
structure Batch (b : ReadableBackend τ) (G done : Set EncodedTerm) : Prop where
  subset   : done ⊆ G
  all      : G.ncard < b.batchSize → done = G
  nonempty : ¬G.ncard < b.batchSize → done.Nonempty

theorem batch_take {graphNames : List EncodedTerm} (hb : b.Lawful m) (hn : graphNames.Nodup)
    (hm : ∀ g, g ∈ graphNames ↔ g ∈ G) : b.Batch G { g | g ∈ graphNames.take b.batchSize } where
  subset g hg := hm g |>.mp <| List.mem_of_mem_take hg
  all hs := by
    rw [Iter.ncard_eq_length hn hm] at hs
    ext g
    simp [List.take_of_length_le hs.le, hm]
  nonempty hs := by
    rw [Iter.ncard_eq_length hn hm] at hs
    have hl : 0 < (graphNames.take b.batchSize).length := by
      have := hb.pos
      rw [List.length_take]
      omega
    exact ⟨_, List.getElem_mem hl⟩

namespace GraphsInvariant

variable (hi : b.GraphsInvariant m body P I) (hb : b.Lawful m)

include hi

theorem partway_step {l : List EncodedTerm} (hn : l.Nodup)
    (hl : ∀ g ∈ l, g ∈ (m.view δ₀).namedGraphs ∧ g.IsTerm ∧ g.canonical = g)
    (h : Partway m I δ₀ l (g :: left) t) (he : (body g).Evaluates t r t') :
    r = .ok () ∧ Partway m I δ₀ l left t' := by
  have ⟨done, hd, δ, h, hI⟩ := h
  have ⟨hg, ht⟩ := hl g (by simp [hd])
  have hn : g ∉ done := by
    have := List.nodup_append.mp (hd ▸ hn)
    exact fun hg => this.2.2 g hg g (by simp) rfl
  have ⟨hr, δ', h', hI'⟩ := hi.step hI h hg hn ht he
  have hs : { g' | g' ∈ done ++ [g] } = Insert.insert g { g' | g' ∈ done } := by
    ext
    simp [or_comm]
  exact ⟨hr, done ++ [g], by simp [hd], δ', h', hs ▸ hI'⟩

include hb

theorem round (h : m.holds t δ) (hP : P δ) (he : (b.graphsRound body).Evaluates t r t') :
    ∃ done δ', m.holds t' δ' ∧ I δ done δ' ∧ b.Batch (m.view δ).namedGraphs done ∧
      r = .ok (if (m.view δ).namedGraphs.ncard < b.batchSize then some () else none) := by
  have ⟨graphNames, t₁, r₁, hn, hm, h₁, he, hr⟩ := graphsRound_inv hb h he
  have hl := batch_take hb hn hm
  have ⟨hr₁, done, hd, δ', h', hI⟩ := he.forEach_ensures
    (I := Partway m I δ (graphNames.take b.batchSize))
    ⟨[], rfl, δ, h₁, by simpa using hi.start hP⟩ <|
    hi.partway_step (hn.sublist <| List.take_sublist ..)
    fun g hg => ⟨hl.subset hg, hb.isTerm h₁ <| hl.subset hg⟩
  rw [List.append_nil] at hd
  exact ⟨_, δ', h', hI, hd ▸ hl, Iter.ncard_eq_length hn hm ▸ hr hr₁⟩

theorem round_terminates (h : m.holds t δ) (hP : P δ)
    (ht : ∀ {done g t δ'}, I δ done δ' → m.holds t δ' → g ∈ (m.view δ).namedGraphs →
      g.IsTerm ∧ g.canonical = g → (body g).Terminates t) : (b.graphsRound body).Terminates t := by
  have ⟨graphNames, t₁, hc, h₁, hn, hm⟩ := hb.takeGraphNames h
  have hl := batch_take hb hn hm
  have hl' : ∀ g ∈ graphNames.take b.batchSize,
      g ∈ (m.view δ).namedGraphs ∧ g.IsTerm ∧ g.canonical = g :=
    fun g hg => ⟨hl.subset hg, hb.isTerm h₁ <| hl.subset hg⟩
  have step : ∀ {g left t r t'}, Partway m I δ (graphNames.take b.batchSize) (g :: left) t →
      (body g).Evaluates t r t' →
      r = .ok () ∧ Partway m I δ (graphNames.take b.batchSize) left t' :=
    hi.partway_step (hn.sublist <| List.take_sublist ..) hl'
  have hs : Partway m I δ (graphNames.take b.batchSize) (graphNames.take b.batchSize) t₁ :=
    ⟨[], rfl, δ, h₁, by simpa using hi.start hP⟩
  have ⟨r, t', he⟩ := Proc.terminates_forEach hs step <| by
    intro g left t ⟨done, hd, δ', h, hI⟩
    have ⟨hg, hg'⟩ := hl' g (by simp [hd])
    exact ht hI h hg hg'
  have ⟨hr, _⟩ := he.forEach_ensures hs step
  subst hr
  exact ⟨_, t', .bind (Proc.evaluates_call.mpr hc) <| he.bind <| Proc.evaluates_pure.mpr ⟨rfl, rfl⟩⟩

-- The last round deals with all graphs.
theorem loop (h : m.holds t δ) (hP : P δ) (he : (b.forNamedGraphs body).Evaluates t r t') :
    r = .ok () ∧ ∃ δ₀ δ', m.holds t' δ' ∧ P δ₀ ∧ I δ₀ (m.view δ₀).namedGraphs δ' := by
  refine he.loop_ensures (I := fun t => ∃ δ, m.holds t δ ∧ P δ) (Q := fun r t' => r = .ok () ∧
    ∃ δ₀ δ', m.holds t' δ' ∧ P δ₀ ∧ I δ₀ (m.view δ₀).namedGraphs δ') ⟨δ, h, hP⟩ ?_ ?_ ?_
  · intro _ _ ⟨_, h, hP⟩ he
    have ⟨_, δ', h', hI, _⟩ := hi.round hb h hP he
    exact ⟨δ', h', hi.next hI⟩
  · intro _ _ _ ⟨δ₀, h, hP⟩ he
    have ⟨_, δ', h', hI, hl, hr⟩ := hi.round hb h hP he
    have hs : (m.view δ₀).namedGraphs.ncard < b.batchSize := by
      by_contra hs
      simp [hs] at hr
    exact ⟨rfl, δ₀, δ', h', hP, hl.all hs ▸ hI⟩
  · intro _ _ _ ⟨_, h, hP⟩ he
    have ⟨_, _, _, _, _, hr⟩ := hi.round hb h hP he
    exact nomatch hr

end GraphsInvariant

end NamedGraphs

section Termination

-- The clearing of a graph terminates if and only if the graph satisfies `H`.
variable {H : EncodedTerm → Prop} (hb : b.Lawful m) (hH : ∀ {t δ g}, m.holds t δ →
  (g ≠ .defaultGraph → g.IsTerm) → ((b.clearEncodedGraph g).Terminates t ↔ H g.canonical))

include hb hH

theorem removeEncodedNamedGraph_terminates_iff (h : m.holds t δ) (hg : g.IsTerm) :
    (b.removeEncodedNamedGraph g).Terminates t ↔ H g.canonical := by
  rw [removeEncodedNamedGraph, Proc.terminates_bind_iff (P := True), and_true,
    hH h fun _ => hg]
  intro r s' he
  have ⟨hr, _⟩ := clearEncodedGraph_ensures hb h (fun _ => hg) he
  exact ⟨(), hr, iff_of_true ⟨_, _, Proc.evaluates_modify.mpr ⟨rfl, rfl⟩⟩ trivial⟩

-- Clearing all named graphs does not change which graphs there are.
theorem clearAllNamedGraphs_invariant : b.GraphsInvariant m b.clearEncodedGraph
    (fun δ' => (m.view δ').namedGraphs = (m.view δ).namedGraphs)
    (fun _ done δ' => (m.view δ').namedGraphs = (m.view δ).namedGraphs ∧ ∀ g ∈ done, H g) where
  start hP := ⟨hP, by simp⟩
  next  := And.left
  step  := by
    intro δ₀ done g t δ r t' ⟨hG, hD⟩ h _ _ ⟨ht, hc⟩ he
    have ⟨hr, S, h', _⟩ := clearEncodedGraph_ensures hb h (fun _ => ht) he
    have hg := hc ▸ (hH h fun _ => ht).mp ⟨_, _, he⟩
    refine ⟨hr, _, h', ?_, by simpa using ⟨hg, hD⟩⟩
    simpa [Reading.view, DatasetDelta.patch_comp] using hG

theorem clearAllNamedGraphs_terminates_iff (h : m.holds t δ) :
    b.clearAllNamedGraphs.Terminates t ↔
      (m.view δ).namedGraphs.ncard < b.batchSize ∧ ∀ g ∈ (m.view δ).namedGraphs, H g := by
  have hi := clearAllNamedGraphs_invariant (δ := δ) hb hH
  constructor
  · intro ht
    have ⟨_, _, he⟩ := ht
    have ⟨_, δ₀, _, _, hG, _, hd⟩ := hi.loop hb h rfl he
    refine ⟨?_, hG ▸ hd⟩
    by_contra hs
    -- Each round reads a full batch of the same graph names.
    refine Proc.not_terminates_loop
      (I := fun t => ∃ δ', m.holds t δ' ∧ (m.view δ').namedGraphs = (m.view δ).namedGraphs)
      ⟨δ, h, rfl⟩ ?_ ht
    intro t r t' ⟨δ', h, hG⟩ he
    have ⟨_, δ'', h', hI, _, hr⟩ := hi.round hb h hG he
    exact ⟨by simp [hr, hG, hs], δ'', h', hI.left⟩
  · intro ⟨hs, hg⟩
    have ht : (b.graphsRound b.clearEncodedGraph).Terminates t := by
      refine hi.round_terminates hb h rfl ?_
      intro _ g _ _ _ h hg' ⟨ht, hc⟩
      exact (hH h fun _ => ht).mpr <| hc.symm ▸ hg g hg'
    have ⟨_, t', he⟩ := ht
    have ⟨_, _, _, _, _, hr⟩ := hi.round hb h rfl he
    rw [if_pos hs] at hr
    exact ⟨_, t', Proc.evaluates_loop.mpr <| .inr <| .inl ⟨_, rfl, hr ▸ he⟩⟩

theorem removeAllNamedGraphs_invariant : b.GraphsInvariant m b.removeEncodedNamedGraph
    (fun δ' => (m.view δ').namedGraphs ⊆ (m.view δ).namedGraphs ∧
      ∀ g ∈ (m.view δ).namedGraphs, g ∈ (m.view δ').namedGraphs ∨ H g)
    (fun δ₀ done δ' => (m.view δ').namedGraphs = (m.view δ₀).namedGraphs \ done ∧
      (m.view δ').namedGraphs ⊆ (m.view δ).namedGraphs ∧
      ∀ g ∈ (m.view δ).namedGraphs, g ∈ (m.view δ').namedGraphs ∨ H g) where
  start hP := ⟨by simp, hP⟩
  next  := And.right
  step  := by
    intro δ₀ done g t δ' r t' ⟨hG, hs, hH'⟩ h _ _ ⟨ht, hc⟩ he
    have ⟨hr, S, _, h'⟩ := removeEncodedNamedGraph_ensures hb h ht he
    have hg := hc ▸ (removeEncodedNamedGraph_terminates_iff hb hH h ht).mp ⟨_, _, he⟩
    rw [hc] at h'
    have hv : (m.view ((DatasetDelta.removeGraphName g).comp
        ((DatasetDelta.dropQuads S).comp δ'))).namedGraphs = (m.view δ').namedGraphs \ {g} := by
      simp [Reading.view, DatasetDelta.patch_comp]
    refine ⟨hr, _, h', ?_, ?_, ?_⟩ <;> rw [hv]
    · rw [hG, Set.sdiff_sdiff, Set.union_singleton]
    · exact Set.sdiff_subset.trans hs
    · intro g' hg'
      by_cases he : g' = g
      case pos => exact .inr <| he ▸ hg
      case neg => exact hH' g' hg' |>.imp_left (⟨·, he⟩)

theorem removeAllNamedGraphs_terminates_iff (h : m.holds t δ) :
    b.removeAllNamedGraphs.Terminates t ↔ ∀ g ∈ (m.view δ).namedGraphs, H g := by
  have hi := removeAllNamedGraphs_invariant (δ := δ) hb hH
  have hP : (m.view δ).namedGraphs ⊆ (m.view δ).namedGraphs ∧
    ∀ g ∈ (m.view δ).namedGraphs, g ∈ (m.view δ).namedGraphs ∨ H g := ⟨le_rfl, fun _ => .inl⟩
  constructor
  · intro ⟨_, _, he⟩ g hg
    have ⟨_, _, _, _, _, hG, _, hH'⟩ := hi.loop hb h hP he
    exact hH' g hg |>.resolve_left <| by simp [hG]
  · intro hg
    -- A round that goes on takes out some of the graph names.
    have ⟨_, t', he⟩ : ∃ u t', b.removeAllNamedGraphs.Evaluates t (.ok u) t' :=
      Proc.evaluates_loop_of_measure (I := fun n t => ∃ δ', m.holds t δ' ∧
        (m.view δ').namedGraphs.ncard = n ∧ (m.view δ').namedGraphs ⊆ (m.view δ).namedGraphs ∧
        ∀ g ∈ (m.view δ).namedGraphs, g ∈ (m.view δ').namedGraphs ∨ H g) ⟨δ, h, rfl, hP⟩ ?_
    · exact ⟨_, t', he⟩
    intro n t ⟨δ', h, hn, hP⟩
    have ht : (b.graphsRound b.removeEncodedNamedGraph).Terminates t := by
      refine hi.round_terminates hb h hP ?_
      intro _ g _ _ _ h hg' ⟨ht, hc⟩
      exact removeEncodedNamedGraph_terminates_iff hb hH h ht |>.mpr <|
        hc.symm ▸ hg g (hP.left hg')
    have ⟨_, t', he⟩ := ht
    have ⟨done, δ'', h', ⟨hG, hP'⟩, hd, hr⟩ := hi.round hb h hP he
    subst hr
    by_cases hs : (m.view δ').namedGraphs.ncard < b.batchSize
    case pos => exact .inr ⟨(), t', by simpa [hs] using he⟩
    case neg =>
      refine .inl ⟨_, ?_, t', by simpa [hs] using he, δ'', h', rfl, hP'⟩
      have ⟨g, hg⟩ := hd.nonempty hs
      rw [hG, ← hn]
      refine Set.ncard_lt_ncard ⟨Set.sdiff_subset, fun hs => ?_⟩ (hb.finite_graphs h)
      exact (hs <| hd.subset hg).right hg

omit hb in
theorem clearGraph_terminates_iff {graphName : Rdf.GraphName} (h : m.holds t δ) :
    (b.clearGraph graphName).Terminates t ↔ H (b.encoder.encodeGraphName graphName).canonical :=
  hH h (b.encoder.isTerm_encodeGraphName graphName)

theorem clearAllGraphs_terminates_iff (h : m.holds t δ) :
    b.clearAllGraphs.Terminates t ↔ (m.view δ).namedGraphs.ncard < b.batchSize ∧
      (∀ g ∈ (m.view δ).namedGraphs, H g) ∧ H .defaultGraph := by
  rw [clearAllGraphs, Proc.terminates_bind_iff (P := H .defaultGraph),
    clearAllNamedGraphs_terminates_iff hb hH h, and_assoc]
  intro r t' he
  have ⟨hr, _, _, h', _⟩ := (clearAllNamedGraphs_invariant hb hH).loop hb h rfl he
  exact ⟨(), hr, clearGraph_terminates_iff hH h'⟩

theorem clear_terminates_iff (h : m.holds t δ) :
    b.clear.Terminates t ↔ (∀ g ∈ (m.view δ).namedGraphs, H g) ∧ H .defaultGraph := by
  rw [clear, Proc.terminates_bind_iff (P := H .defaultGraph),
    removeAllNamedGraphs_terminates_iff hb hH h]
  intro r t' he
  have ⟨hr, _, _, h', _⟩ :=
    (removeAllNamedGraphs_invariant hb hH).loop hb h ⟨le_rfl, fun _ => .inl⟩ he
  exact ⟨(), hr, clearGraph_terminates_iff hH h'⟩

end Termination

end ReadableBackend
