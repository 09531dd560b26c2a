import OxigraphCloud.Storage.Theorems.Readable

namespace DatasetDelta

-- A change that keeps the graph names of all quads known: a quad is only added together with its
-- graph name, and a graph name is only dropped if each quad of the graph is dropped, too, or was
-- missing in one of the committed states `versions`.
structure Sound (δ : DatasetDelta) (versions : Set (Set EncodedQuad)) : Prop where
  inserted : ∀ {q}, δ.quads q = some true → q.graphName ≠ .defaultGraph →
    δ.graphs q.graphName = some true
  dropped  : ∀ {q}, δ.graphs q.graphName = some false → δ.quads q = Option.none →
    ∃ Q ∈ versions, q ∉ Q

namespace Sound

variable {δ : DatasetDelta} {versions : Set (Set EncodedQuad)}

theorem none : Sound .none versions := ⟨nofun, nofun⟩

theorem insertNamedGraph (h : δ.Sound versions) :
    ((DatasetDelta.insertNamedGraph g).comp δ).Sound versions where
  inserted hq hg := Delta.single_comp_eq_true_iff.mpr <| .inr <| h.inserted hq hg
  dropped hg hq  := h.dropped (Delta.single_comp_eq_false_iff.mp hg).right hq

theorem insert (h : δ.Sound versions) : ((DatasetDelta.insert q).comp δ).Sound versions := by
  have hd : ∀ {q'}, ((DatasetDelta.insert q).comp δ).quads q' = Option.none → δ.quads q' = .none :=
    fun hq => (Delta.single_comp_eq_none_iff.mp hq).right
  by_cases hg : q.graphName = .defaultGraph
  case pos =>
    have hs : ((DatasetDelta.insert q).comp δ).graphs = δ.graphs := by
      simp [comp, DatasetDelta.insert, hg, Delta.none_comp]
    refine ⟨fun hq hg' => ?_, fun hg hq => h.dropped (hs ▸ hg) (hd hq)⟩
    cases Delta.single_comp_eq_true_iff.mp hq
    case inl hq => exact absurd (hq ▸ hg) hg'
    case inr hq => exact hs ▸ h.inserted hq hg'
  case neg =>
    have hs :
        ((DatasetDelta.insert q).comp δ).graphs = .comp (.single q.graphName true) δ.graphs := by
      simp [comp, DatasetDelta.insert, hg]
    refine ⟨fun hq hg' => ?_, fun hg hq => ?_⟩ <;> rw [hs] at *
    · rw [Delta.single_comp_eq_true_iff]
      exact Delta.single_comp_eq_true_iff.mp hq |>.imp (congrArg _) fun hq => h.inserted hq hg'
    · exact h.dropped (Delta.single_comp_eq_false_iff.mp hg).right (hd hq)

theorem dropQuads (h : δ.Sound versions) : ((DatasetDelta.dropQuads S).comp δ).Sound versions where
  inserted hq hg := h.inserted (Delta.drop_comp_eq_true_iff.mp hq).right hg
  dropped hg hq  := h.dropped hg (Delta.drop_comp_eq_none_iff.mp hq).right

theorem dropGraphs (h : δ.Sound versions)
    (hd : ∀ {q}, q.graphName ∈ G → q ∉ S → δ.quads q ≠ some true ∧
      (δ.quads q = Option.none → ∃ Q ∈ versions, q ∉ Q)) :
    ((DatasetDelta.dropGraphs G).comp ((DatasetDelta.dropQuads S).comp δ)).Sound versions where
  inserted hq hg := by
    have ⟨hS, hq⟩ := Delta.drop_comp_eq_true_iff.mp hq
    exact Delta.drop_comp_eq_true_iff.mpr ⟨fun hG => (hd hG hS).left hq, h.inserted hq hg⟩
  dropped hg hq := by
    have ⟨hS, hq⟩ := Delta.drop_comp_eq_none_iff.mp hq
    cases Delta.drop_comp_eq_false_iff.mp hg
    case inl hG => exact (hd hG hS).right hq
    case inr hg => exact h.dropped hg hq

end Sound

end DatasetDelta

section Operations

variable (enc : Encoder)

-- The quads that a transaction has inserted and not removed again, after one more operation.
def ReadableOp.inserted (P : Set EncodedQuad) : ReadableOp → Set EncodedQuad
  | .insert quad => Insert.insert (enc.encodeQuad quad).canonical P
  | .remove quad => P \ {(enc.encodeQuad quad).canonical}
  | _            => P

-- The operation does not drop a graph name of one of the quads `P`.
def ReadableOp.Keeps (P : Set EncodedQuad) : ReadableOp → Prop
  | .removeNamedGraph g =>
    ∀ q ∈ P, q.graphName ≠ (enc.encodeNamedOrBlankNode g).canonical
  | .removeAllNamedGraphs | .clear => ∀ q ∈ P, q.graphName = .defaultGraph
  | _ => True

-- None of the operations drops a graph name of a quad that the transaction has inserted.
def KeepsInserted (P : Set EncodedQuad) : List ReadableOp → Prop
  | []        => True
  | op :: ops => op.Keeps enc P ∧ KeepsInserted (op.inserted enc P) ops

end Operations

namespace ReadableBackend

variable {τ : Type} {b : ReadableBackend τ} {m : Reading τ} {t t' : τ} {δ : DatasetDelta}
  {P : Set EncodedQuad} {versions : Set (Set EncodedQuad)}

-- A change that is sound and only adds the quads `P`.
structure SoundFor (versions : Set (Set EncodedQuad)) (P : Set EncodedQuad) (δ : DatasetDelta) :
    Prop extends δ.Sound versions where
  adds : ∀ {q}, δ.quads q = some true → q ∈ P

theorem SoundFor.dropQuads (h : SoundFor versions P δ) :
    SoundFor versions P ((DatasetDelta.dropQuads S).comp δ) where
  toSound := h.toSound.dropQuads
  adds hq := h.adds (Delta.drop_comp_eq_true_iff.mp hq).right

-- Dropping a graph after it has been cleared.
theorem SoundFor.dropGraph (hb : b.Lawful m) (hv : ∀ {t δ}, m.holds t δ → m.base t ∈ versions)
    (h : SoundFor versions P δ) (hS : b.Clears m δ g S) (hP : ∀ q ∈ P, q.graphName ≠ g) :
    SoundFor versions P
      ((DatasetDelta.removeGraphName g).comp ((DatasetDelta.dropQuads S).comp δ)) where
  toSound := by
    have ⟨t, S₁, hs, ht, hf, _⟩ := hS.all
    rw [← DatasetDelta.dropGraphs_singleton]
    refine h.toSound.dropGraphs fun {q} hg hq => ⟨fun hi => hP q (h.adds hi) hg, fun hn => ?_⟩
    refine ⟨m.base t, hv ht, fun hq' => hq <| hf ?_⟩
    have hn := Delta.drop_comp_eq_none_iff.mpr ⟨fun h => hq (hs h), hn⟩
    exact (show q.graphName = g from hg) ▸ hb.complete ht hn hq'
  adds hq := h.dropQuads.adds hq

section Sound

-- The change is only known to be sound if `K` holds.
variable {K : Prop} (hb : b.Lawful m) (hv : ∀ {t δ}, m.holds t δ → m.base t ∈ versions)

include hb

theorem clearAllNamedGraphs_sound : b.GraphsInvariant m b.clearEncodedGraph
    (fun δ => K → SoundFor versions P δ) (fun _ _ δ => K → SoundFor versions P δ) where
  start := id
  next  := id
  step  := by
    intro _ _ g t δ r t' hs h _ _ ⟨ht, _⟩ he
    have ⟨hr, _, h', _⟩ := clearEncodedGraph_ensures hb h (fun _ => ht) he
    exact ⟨hr, _, h', fun hK => (hs hK).dropQuads⟩

include hv

theorem removeAllNamedGraphs_sound (hP : K → ∀ q ∈ P, q.graphName = .defaultGraph) :
    b.GraphsInvariant m b.removeEncodedNamedGraph
      (fun δ => K → SoundFor versions P δ) (fun _ _ δ => K → SoundFor versions P δ) where
  start := id
  next  := id
  step  := by
    intro _ _ g t δ r t' hs h _ _ ⟨ht, hc⟩ he
    have ⟨hr, S, hS, h'⟩ := removeEncodedNamedGraph_ensures hb h ht he
    rw [hc] at hS h'
    refine ⟨hr, _, h', fun hK => (hs hK).dropGraph hb hv hS fun q hq hg => ?_⟩
    rw [← hg, hP hK q hq] at ht
    exact ht

theorem apply_sound {op : ReadableOp} (h : m.holds t δ) (hs : K → SoundFor versions P δ)
    (hk : K → op.Keeps b.encoder P) (he : (b.apply op).Evaluates t r t') :
    r = .ok () ∧ ∃ δ', m.holds t' δ' ∧ (K → SoundFor versions (op.inserted b.encoder P) δ') := by
  cases op
  case insert quad =>
    have ⟨hr, ht⟩ := Proc.evaluates_modify.mp he
    refine ⟨hr, _, ht ▸ hb.insert quad h, fun hK => ⟨(hs hK).toSound.insert, fun hq => ?_⟩⟩
    exact Delta.single_comp_eq_true_iff.mp hq |>.imp_right (hs hK).adds
  case insertNamedGraph graphName =>
    have ⟨hr, ht⟩ := Proc.evaluates_modify.mp he
    exact ⟨hr, _, ht ▸ hb.insertNamedGraph graphName h, fun hK =>
      ⟨(hs hK).toSound.insertNamedGraph, (hs hK).adds⟩⟩
  case remove quad =>
    have ⟨hr, ht⟩ := Proc.evaluates_modify.mp he
    have h' := hb.removeEncoded h (b.encoder.isQuad_encodeQuad quad)
    rw [← DatasetDelta.dropQuads_singleton] at h'
    subst ht
    refine ⟨hr, _, h', fun hK => ⟨(hs hK).toSound.dropQuads, fun hq => ?_⟩⟩
    exact Delta.drop_comp_eq_true_iff.mp hq |>.symm.imp_left (hs hK).adds
  case clearGraph graphName =>
    have ⟨hr, _, h', _⟩ :=
      clearEncodedGraph_ensures hb h (b.encoder.isTerm_encodeGraphName graphName) he
    exact ⟨hr, _, h', fun hK => (hs hK).dropQuads⟩
  case clearAllNamedGraphs =>
    have ⟨hr, _, δ', h', _, hs'⟩ := (clearAllNamedGraphs_sound hb).loop hb h hs he
    exact ⟨hr, δ', h', hs'⟩
  case clearAllGraphs =>
    have ⟨_, _, he, he'⟩ := he.bind_inv fun he =>
      ⟨(), ((clearAllNamedGraphs_sound hb).loop hb h hs he).left⟩
    have ⟨_, _, _, h, _, hs⟩ := (clearAllNamedGraphs_sound hb).loop hb h hs he
    have ⟨hr, _, h', _⟩ :=
      clearEncodedGraph_ensures hb h (b.encoder.isTerm_encodeGraphName .defaultGraph) he'
    exact ⟨hr, _, h', fun hK => (hs hK).dropQuads⟩
  case removeNamedGraph graphName =>
    have ⟨hr, S, hS, h'⟩ := removeEncodedNamedGraph_ensures hb h
      (b.encoder.registers_namedOrBlankNode graphName).isTerm he
    exact ⟨hr, _, h', fun hK => (hs hK).dropGraph hb hv hS (hk hK)⟩
  case removeAllNamedGraphs =>
    have ⟨hr, _, δ', h', _, hs'⟩ := (removeAllNamedGraphs_sound hb hv hk).loop hb h hs he
    exact ⟨hr, δ', h', hs'⟩
  case clear =>
    have hi := removeAllNamedGraphs_sound hb hv hk
    have ⟨_, _, he, he'⟩ := he.bind_inv fun he => ⟨(), (hi.loop hb h hs he).left⟩
    have ⟨_, _, _, h, _, hs⟩ := hi.loop hb h hs he
    have ⟨hr, _, h', _⟩ :=
      clearEncodedGraph_ensures hb h (b.encoder.isTerm_encodeGraphName .defaultGraph) he'
    exact ⟨hr, _, h', fun hK => (hs hK).dropQuads⟩

theorem applyAll_sound {ops : List ReadableOp} (h : m.holds t δ) (hs : K → SoundFor versions P δ)
    (hk : K → KeepsInserted b.encoder P ops) (he : (b.applyAll ops).Evaluates t r t') :
    r = .ok () ∧ ∃ δ', m.holds t' δ' ∧ (K → δ'.Sound versions) := by
  have ⟨hr, _, δ', h', hs', _⟩ := he.forEach_ensures
    (I := fun ops t => ∃ P δ, m.holds t δ ∧ (K → SoundFor versions P δ) ∧
      (K → KeepsInserted b.encoder P ops)) ⟨P, δ, h, hs, hk⟩ <| by
      intro op ops t r t' ⟨P, δ, h, hs, hk⟩ he
      have ⟨hr, δ', h', hs'⟩ := apply_sound hb hv h hs (fun hK => (hk hK).1) he
      exact ⟨hr, _, δ', h', hs', fun hK => (hk hK).2⟩
  exact ⟨hr, δ', h', fun hK => (hs' hK).toSound⟩

end Sound

end ReadableBackend
