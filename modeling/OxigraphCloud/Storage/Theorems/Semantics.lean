import OxigraphCloud.Storage.Semantics
import OxigraphCloud.Storage.Theorems.Readable

namespace Encoder

variable {enc : Encoder}

@[simp]
theorem canonical_encodeNamedNode :
    (enc.encodeNamedNode node).canonical = enc.encodeNamedNode node :=
  rfl

@[simp]
theorem canonical_encodeBlankNode :
    (enc.encodeBlankNode node).canonical = enc.encodeBlankNode node := by
  unfold encodeBlankNode
  split
  case h_1 => rfl
  case h_2 => split <;> rfl

@[simp]
theorem canonical_encodeNamedOrBlankNode {node : Rdf.NamedOrBlankNode} :
    (enc.encodeNamedOrBlankNode node).canonical = enc.encodeNamedOrBlankNode node := by
  cases node <;> simp [encodeNamedOrBlankNode]

@[simp]
theorem canonical_encodeGraphName {graphName : Rdf.GraphName} :
    (enc.encodeGraphName graphName).canonical = enc.encodeGraphName graphName := by
  cases graphName <;> simp [encodeGraphName, EncodedTerm.canonical]

end Encoder

namespace ReadableBackend

-- The scans of the backend find the quads that `reach` says, as far as they are still there.
structure Clearing (b : ReadableBackend τ) (m : Reading τ) (reach : Reach) : Prop
    extends b.Lawful m where
  found    : ∀ {t δ g q}, m.holds t δ → q ∈ m.found t δ g → q ∈ reach.quads g
  reaches  : ∀ {t δ g q}, m.holds t δ → q ∈ reach.quads g → q ∈ (m.view δ).quads → q ∈ m.found t δ g
  finishes : ∀ {t δ g}, m.holds t δ → (g ≠ .defaultGraph → g.IsTerm) →
    ((b.clearEncodedGraph g).Terminates t ↔ reach.finishes g.canonical)

namespace Clearing

variable {τ : Type} {b : ReadableBackend τ} {m : Reading τ} {reach : Reach} {t t' : τ}
  {δ : DatasetDelta} {g : EncodedTerm}

theorem clearEncodedGraph (hc : b.Clearing m reach) (h : m.holds t δ)
    (hg : g ≠ .defaultGraph → g.IsTerm) (he : (b.clearEncodedGraph g).Evaluates t r t') :
    r = .ok () ∧ ∃ δ', m.holds t' δ' ∧
      m.view δ' = ⟨(m.view δ).quads \ reach.quads g.canonical, (m.view δ).namedGraphs⟩ := by
  obtain ⟨hr, S, h', hS⟩ := clearEncodedGraph_ensures hc.toLawful h hg he
  obtain ⟨t₁, S₁, hs, h₁, hf, _⟩ := hS.all
  refine ⟨hr, _, h', ?_⟩
  rw [Reading.view, DatasetDelta.patch_comp, DatasetDelta.patch_dropQuads]
  congr 1
  ext q
  refine and_congr_right fun hq => not_congr ⟨fun hq' => ?_, fun hq' => ?_⟩
  · obtain ⟨t, S₁, _, h, hf⟩ := hS.found q hq'
    exact hc.found h hf
  · -- A quad of the graph has been taken out before the last scan or is found by it.
    by_cases hq₁ : q ∈ S₁
    case pos => exact hs hq₁
    case neg =>
      refine hf <| hc.reaches h₁ hq' ?_
      rw [Reading.view, DatasetDelta.patch_comp, DatasetDelta.patch_dropQuads]
      exact ⟨hq, hq₁⟩

theorem removeEncodedNamedGraph (hc : b.Clearing m reach) (h : m.holds t δ) (hg : g.IsTerm)
    (he : (b.removeEncodedNamedGraph g).Evaluates t r t') :
    r = .ok () ∧ ∃ δ', m.holds t' δ' ∧ m.view δ' =
      ⟨(m.view δ).quads \ reach.quads g.canonical, (m.view δ).namedGraphs \ {g.canonical}⟩ := by
  have ⟨_, _, he, he'⟩ := he.bind_inv fun he =>
    ⟨(), (hc.clearEncodedGraph h (fun _ => hg) he).left⟩
  have ⟨_, δ', h', hv⟩ := hc.clearEncodedGraph h (fun _ => hg) he
  have ⟨hr, ht⟩ := Proc.evaluates_modify.mp he'
  refine ⟨hr, _, ht ▸ hc.removeGraphName h' hg, ?_⟩
  rw [Reading.view, DatasetDelta.patch_comp, ← Reading.view, hv, DatasetDelta.patch_removeGraphName]

-- Some of the named graphs of `D` have been cleared, and among them are the graphs `G`.
structure Partly (reach : Reach) (D : Dataset) (G : Set EncodedTerm) (D' : Dataset) : Prop where
  subset  : D'.quads ⊆ D.quads
  keeps   : D.quads \ reach.named D ⊆ D'.quads
  cleared : ∀ g ∈ G, ∀ q ∈ D'.quads, q ∉ reach.quads g

namespace Partly

variable {D D' : Dataset} {G G' N : Set EncodedTerm}

theorem refl : Partly reach D ∅ D := ⟨le_rfl, Set.sdiff_subset, nofun⟩

theorem mono (h : Partly reach D G D') (hG : G' ⊆ G) : Partly reach D G' D' :=
  { h with cleared := fun g hg => h.cleared g (hG hg) }

theorem clear (h : Partly reach D G D') (hg : g ∈ D.namedGraphs) :
    Partly reach D (Insert.insert g G) ⟨D'.quads \ reach.quads g, N⟩ where
  subset  := Set.sdiff_subset.trans h.subset
  keeps   := fun q hq => ⟨h.keeps hq, fun hr => hq.right ⟨g, hg, hr⟩⟩
  cleared := by
    rintro g' (rfl | hg') q ⟨hq, hn⟩
    · exact hn
    · exact h.cleared g' hg' q hq

theorem quads_eq (h : Partly reach D D.namedGraphs D') : D'.quads = D.quads \ reach.named D := by
  refine Set.Subset.antisymm (fun q hq => ⟨h.subset hq, ?_⟩) h.keeps
  exact fun ⟨g, hg, hr⟩ => h.cleared g hg q hq hr

end Partly

theorem clearAllNamedGraphs_partly (hc : b.Clearing m reach) :
    b.GraphsInvariant m b.clearEncodedGraph
      (fun δ' => (m.view δ').namedGraphs = (m.view δ).namedGraphs ∧
        Partly reach (m.view δ) ∅ (m.view δ'))
      (fun δ₀ done δ' => (m.view δ').namedGraphs = (m.view δ).namedGraphs ∧
        (m.view δ₀).namedGraphs = (m.view δ).namedGraphs ∧
        Partly reach (m.view δ) done (m.view δ')) where
  start := fun ⟨hn, hp⟩ => ⟨hn, hn, hp⟩
  next  := fun ⟨hn, _, hp⟩ => ⟨hn, hp.mono <| Set.empty_subset _⟩
  step  := by
    intro δ₀ done g t δ' r t' ⟨hn, hn₀, hp⟩ h hg _ ⟨ht, hg'⟩ he
    have ⟨hr, δ'', h', hv⟩ := hc.clearEncodedGraph h (fun _ => ht) he
    refine ⟨hr, δ'', h', ?_⟩
    rw [hv, hg']
    exact ⟨hn, hn₀, hp.clear <| hn₀ ▸ hg⟩

theorem clearAllNamedGraphs (hc : b.Clearing m reach) (h : m.holds t δ)
    (he : b.clearAllNamedGraphs.Evaluates t r t') :
    r = .ok () ∧ ∃ δ', m.holds t' δ' ∧
      m.view δ' = ⟨(m.view δ).quads \ reach.named (m.view δ), (m.view δ).namedGraphs⟩ := by
  have ⟨hr, _, δ', h', _, hn, hn₀, hp⟩ :=
    (clearAllNamedGraphs_partly hc).loop hc.toLawful h ⟨rfl, .refl⟩ he
  exact ⟨hr, δ', h', Dataset.ext (hn₀ ▸ hp).quads_eq hn⟩

theorem removeAllNamedGraphs_partly (hc : b.Clearing m reach) :
    b.GraphsInvariant m b.removeEncodedNamedGraph
      (fun δ' => (m.view δ').namedGraphs ⊆ (m.view δ).namedGraphs ∧
        Partly reach (m.view δ) ((m.view δ).namedGraphs \ (m.view δ').namedGraphs) (m.view δ'))
      (fun δ₀ done δ' => (m.view δ').namedGraphs = (m.view δ₀).namedGraphs \ done ∧
        (m.view δ₀).namedGraphs ⊆ (m.view δ).namedGraphs ∧
        Partly reach (m.view δ) ((m.view δ).namedGraphs \ (m.view δ').namedGraphs)
          (m.view δ')) where
  start := fun ⟨hn, hp⟩ => ⟨by simp, hn, hp⟩
  next  := fun ⟨hn, hs, hp⟩ => ⟨hn ▸ Set.sdiff_subset.trans hs, hp⟩
  step  := by
    intro δ₀ done g t δ' r t' ⟨hn, hs, hp⟩ h hg _ ⟨ht, hg'⟩ he
    have ⟨hr, δ'', h', hv⟩ := hc.removeEncodedNamedGraph h ht he
    refine ⟨hr, δ'', h', ?_⟩
    rw [hv, hg']
    refine ⟨by simp [hn, Set.sdiff_sdiff], hs, (hp.clear <| hs hg).mono ?_⟩
    intro g' ⟨hg', hn'⟩
    by_cases h : g' = g
    case pos => exact .inl h
    case neg => exact .inr ⟨hg', fun hm => hn' ⟨hm, h⟩⟩

theorem removeAllNamedGraphs (hc : b.Clearing m reach) (h : m.holds t δ)
    (he : b.removeAllNamedGraphs.Evaluates t r t') :
    r = .ok () ∧ ∃ δ', m.holds t' δ' ∧
      m.view δ' = ⟨(m.view δ).quads \ reach.named (m.view δ), ∅⟩ := by
  have ⟨hr, _, δ', h', _, hn, _, hp⟩ := (removeAllNamedGraphs_partly hc).loop hc.toLawful h
    ⟨le_rfl, Partly.refl.mono <| by simp⟩ he
  rw [Set.sdiff_self] at hn
  exact ⟨hr, δ', h', Dataset.ext (hp.mono <| by simp [hn]).quads_eq hn⟩

theorem clearGraph {graphName : Rdf.GraphName} (hc : b.Clearing m reach) (h : m.holds t δ)
    (he : (b.clearGraph graphName).Evaluates t r t') :
    r = .ok () ∧ ∃ δ', m.holds t' δ' ∧ m.view δ' =
      ⟨(m.view δ).quads \ reach.quads (b.encoder.encodeGraphName graphName),
        (m.view δ).namedGraphs⟩ := by
  have := hc.clearEncodedGraph h (b.encoder.isTerm_encodeGraphName graphName) he
  rwa [Encoder.canonical_encodeGraphName] at this

theorem apply_evaluates {op : ReadableOp} (hc : b.Clearing m reach) (h : m.holds t δ)
    (he : (b.apply op).Evaluates t r t') :
    r = .ok () ∧ ∃ δ', m.holds t' δ' ∧ m.view δ' = reach.meaning b.encoder op (m.view δ) := by
  cases op
  case insert quad =>
    obtain ⟨hr, ht⟩ := Proc.evaluates_modify.mp he
    refine ⟨hr, _, ht ▸ hc.insert quad h, ?_⟩
    rw [Reading.view, DatasetDelta.patch_comp, DatasetDelta.patch_insert]
    rfl
  case insertNamedGraph graphName =>
    obtain ⟨hr, ht⟩ := Proc.evaluates_modify.mp he
    refine ⟨hr, _, ht ▸ hc.insertNamedGraph graphName h, ?_⟩
    rw [Reading.view, DatasetDelta.patch_comp, DatasetDelta.patch_insertNamedGraph,
      Encoder.canonical_encodeNamedOrBlankNode]
    rfl
  case remove quad =>
    obtain ⟨hr, ht⟩ := Proc.evaluates_modify.mp he
    subst ht
    refine ⟨hr, _, hc.removeEncoded h (b.encoder.isQuad_encodeQuad quad), ?_⟩
    rw [Reading.view, DatasetDelta.patch_comp, DatasetDelta.patch_remove]
    rfl
  case clearGraph graphName => exact hc.clearGraph h he
  case clearAllNamedGraphs => exact hc.clearAllNamedGraphs h he
  case clearAllGraphs =>
    obtain ⟨_, _, he, he'⟩ := he.bind_inv fun he => ⟨(), (hc.clearAllNamedGraphs h he).left⟩
    obtain ⟨_, δ₁, h₁, hv₁⟩ := hc.clearAllNamedGraphs h he
    obtain ⟨hr, δ', h', hv⟩ := hc.clearGraph h₁ he'
    refine ⟨hr, δ', h', ?_⟩
    rw [hv, hv₁, Set.sdiff_sdiff]
    rfl
  case removeNamedGraph graphName =>
    have := hc.removeEncodedNamedGraph h
      (b.encoder.registers_namedOrBlankNode graphName).isTerm he
    rwa [Encoder.canonical_encodeNamedOrBlankNode] at this
  case removeAllNamedGraphs => exact hc.removeAllNamedGraphs h he
  case clear =>
    obtain ⟨_, _, he, he'⟩ := he.bind_inv fun he => ⟨(), (hc.removeAllNamedGraphs h he).left⟩
    obtain ⟨_, δ₁, h₁, hv₁⟩ := hc.removeAllNamedGraphs h he
    obtain ⟨hr, δ', h', hv⟩ := hc.clearGraph h₁ he'
    refine ⟨hr, δ', h', ?_⟩
    rw [hv, hv₁, Set.sdiff_sdiff]
    rfl

-- What a sequence of operations has done, if each of them has finished.
theorem applyAll_evaluates {ops : List ReadableOp} (hc : b.Clearing m reach) (h : m.holds t .none)
    (he : (b.applyAll ops).Evaluates t r t') :
    ∃ δ, m.holds t' δ ∧ m.view δ = reach.run b.encoder ops m.dataset := by
  obtain ⟨_, δ, h', hv⟩ := he.forEach_ensures
    (I := fun rest t => ∃ δ, m.holds t δ ∧
      reach.run b.encoder rest (m.view δ) = reach.run b.encoder ops m.dataset)
    ⟨.none, h, by rw [Reading.view, DatasetDelta.patch_none]⟩ <| by
      rintro op rest t r t' ⟨δ, h, hv⟩ he
      obtain ⟨hr, δ', h', hv'⟩ := hc.apply_evaluates h he
      exact ⟨hr, δ', h', by rw [← hv, hv']; rfl⟩
  exact ⟨δ, h', hv⟩

theorem apply_terminates_iff {op : ReadableOp} (hc : b.Clearing m reach) (h : m.holds t δ) :
    (b.apply op).Terminates t ↔ reach.Halts b.encoder b.batchSize op (m.view δ) := by
  cases op
  case insert | insertNamedGraph | remove =>
    exact iff_of_true ⟨_, _, Proc.evaluates_modify.mpr ⟨rfl, rfl⟩⟩ trivial
  case clearGraph graphName =>
    have : (b.clearGraph graphName).Terminates t ↔ _ := clearGraph_terminates_iff hc.finishes h
    rwa [Encoder.canonical_encodeGraphName] at this
  case clearAllNamedGraphs => exact clearAllNamedGraphs_terminates_iff hc.toLawful hc.finishes h
  case clearAllGraphs => exact clearAllGraphs_terminates_iff hc.toLawful hc.finishes h
  case removeNamedGraph graphName =>
    have := removeEncodedNamedGraph_terminates_iff hc.toLawful hc.finishes h
      (b.encoder.registers_namedOrBlankNode graphName).isTerm
    rwa [Encoder.canonical_encodeNamedOrBlankNode] at this
  case removeAllNamedGraphs => exact removeAllNamedGraphs_terminates_iff hc.toLawful hc.finishes h
  case clear => exact clear_terminates_iff hc.toLawful hc.finishes h

end Clearing

end ReadableBackend
