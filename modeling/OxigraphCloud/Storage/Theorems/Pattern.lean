import OxigraphCloud.Storage.Dataset

namespace Pattern

variable {p : Pattern} {e : QuadEncoding} {q : EncodedQuad}

theorem matches_iff : p.Matches q ↔
    (∀ t ∈ p.subject, q.subject = t) ∧ (∀ t ∈ p.predicate, q.predicate = t) ∧
    (∀ t ∈ p.object, q.object = t) ∧ ∀ t ∈ p.graphName, q.graphName = t where
  mp h      := ⟨h .subject, h .predicate, h .object, h .graphName⟩
  mpr h pos := match pos with
    | .subject   => h.1
    | .predicate => h.2.1
    | .object    => h.2.2.1
    | .graphName => h.2.2.2

-- The bound terms of a pattern in the order in which an index has them.
def keyTerms (p : Pattern) (e : QuadEncoding) : List EncodedTerm := e.positions.filterMap p.term

-- The bound terms of the pattern are the first ones of the keys of the index.
structure ServedBy (p : Pattern) (e : QuadEncoding) : Prop where
  bound  : e.positions.filter (p.term · |>.isSome) <+: e.positions
  covers : ∀ pos, (p.term pos).isSome → pos ∈ e.positions

theorem IsPattern.keyTerms (h : p.IsPattern) (hg : p.graphName ≠ some .defaultGraph) :
    ∀ t ∈ p.keyTerms e, t.IsTerm := by
  intro t ht
  have ⟨pos, _, hp⟩ := List.mem_filterMap.mp ht
  cases pos
  case subject => exact h.subject t hp
  case predicate => exact h.predicate t hp
  case object => exact h.object t hp
  case graphName => exact h.graphName t hp fun he => hg (he ▸ hp)

theorem filterMap_prefix_iff {ps : List Position}
    (h : ps.filter (p.term · |>.isSome) <+: ps) :
    (ps.filterMap p.term).map EncodedTerm.canonical <+: ps.map q.term ↔
      ∀ pos ∈ ps, ∀ t ∈ p.term pos, q.term pos = t.canonical := by
  induction ps
  case nil => simp
  case cons pos ps hi =>
    cases hp : p.term pos
    case some t =>
      simp only [List.filter_cons, hp, Option.isSome_some, if_true, List.cons_prefix_cons,
        true_and] at h
      simp only [List.filterMap_cons, hp, List.map_cons, List.cons_prefix_cons, hi h,
        List.forall_mem_cons, Option.mem_some_iff, forall_eq']
      rw [eq_comm]
    case none =>
      -- No position behind an unbound one is bound.
      have hn : ∀ pos ∈ ps, p.term pos = none := by
        simp only [List.filter_cons, hp, Option.isSome_none, Bool.false_eq_true, if_false] at h
        cases hf : ps.filter (p.term · |>.isSome)
        case nil => simpa using hf
        case cons pos' _ =>
          have hm : pos' ∈ ps.filter (p.term · |>.isSome) := hf ▸ List.mem_cons_self
          rw [hf, List.cons_prefix_cons] at h
          simp [h.left, hp] at hm
      simp +contextual [hp, hn]

theorem ServedBy.prefix_iff (h : p.ServedBy e) :
    (p.keyTerms e).map EncodedTerm.canonical <+: e.positions.map q.term ↔
      p.canonical.Matches q := by
  rw [keyTerms, filterMap_prefix_iff h.bound]
  simp only [Matches, term_canonical, Option.mem_map, forall_exists_index, and_imp,
    forall_apply_eq_imp_iff₂]
  exact ⟨fun hm pos t ht => hm pos (h.covers pos <| Option.isSome_of_mem ht) t ht,
    fun hm pos _ => hm pos⟩

-- The indexes for the default graph and for the named graphs that a pattern is looked up in.
def index : Pattern → QuadEncoding × QuadEncoding
  | ⟨some _, none, some _, none⟩   => (.dosp, .ospg)
  | ⟨some _, none, some _, some _⟩ => (.dosp, .gosp)
  | ⟨some _, _, _, none⟩           => (.dspo, .spog)
  | ⟨some _, _, _, some _⟩         => (.dspo, .gspo)
  | ⟨none, some _, _, none⟩        => (.dpos, .posg)
  | ⟨none, some _, _, some _⟩      => (.dpos, .gpos)
  | ⟨none, none, some _, none⟩     => (.dosp, .ospg)
  | ⟨none, none, some _, some _⟩   => (.dosp, .gosp)
  | ⟨none, none, none, _⟩          => (.dspo, .gspo)

theorem index_forDefaultGraph (p : Pattern) :
    p.index.1.forDefaultGraph ∧ ¬p.index.2.forDefaultGraph := by
  unfold index
  split <;> decide

theorem servedBy_index_fst (p : Pattern) : { p with graphName := none }.ServedBy p.index.1 := by
  rcases p with ⟨_ | _, _ | _, _ | _, _ | _⟩ <;>
    exact ⟨⟨_, rfl⟩, by rintro (_ | _) <;> simp [term, index, QuadEncoding.positions]⟩

theorem servedBy_index_snd (p : Pattern) : p.ServedBy p.index.2 := by
  rcases p with ⟨_ | _, _ | _, _ | _, _ | _⟩ <;>
    exact ⟨⟨_, rfl⟩, by rintro (_ | _) <;> simp [term, index, QuadEncoding.positions]⟩

end Pattern

-- Terms are the same if they have the same encoded bytes. Nothing else of a term is stored.

def EncodedQuad.SameBytes (q q' : EncodedQuad) : Prop :=
  ∀ p, encodeTerm (q.term p) = encodeTerm (q'.term p)

def Pattern.MatchesBytes (pattern : Pattern) (q : EncodedQuad) : Prop :=
  ∀ p, ∀ t ∈ pattern.term p, encodeTerm (q.term p) = encodeTerm t

theorem encodeTerm_eq_iff {t t' : EncodedTerm} (h : t ≠ .defaultGraph → t.IsTerm)
    (h' : t' ≠ .defaultGraph → t'.IsTerm) :
    encodeTerm t = encodeTerm t' ↔ t.canonical = t'.canonical := by
  have hn {t : EncodedTerm} (h : t.IsTerm) : encodeTerm .defaultGraph ≠ encodeTerm t :=
    fun he => h.writeTerm_ne_nil he.symm
  have hd {t : EncodedTerm} (h : t ≠ .defaultGraph) :
      EncodedTerm.canonical .defaultGraph ≠ t.canonical :=
    fun he => h <| EncodedTerm.canonical_eq_defaultGraph.mp he.symm
  by_cases ht : t = .defaultGraph <;> by_cases ht' : t' = .defaultGraph
  · simp [ht, ht']
  · exact ht ▸ iff_of_false (hn (h' ht')) (hd ht')
  · exact ht' ▸ iff_of_false (hn (h ht)).symm (hd ht).symm
  · exact EncodedTerm.writeTerm_eq_iff (h ht) (h' ht')

theorem EncodedQuad.IsQuad.term {q : EncodedQuad} (h : q.IsQuad) (p : Position)
    (hp : q.term p ≠ .defaultGraph) : (q.term p).IsTerm := by
  cases p
  case subject   => exact h.subject
  case predicate => exact h.predicate
  case object    => exact h.object
  case graphName => exact h.graphName hp

theorem EncodedQuad.IsQuad.sameBytes_iff {q q' : EncodedQuad} (h : q.IsQuad) (h' : q'.IsQuad) :
    q.SameBytes q' ↔ q.canonical = q'.canonical := by
  have hs p : encodeTerm (q.term p) = encodeTerm (q'.term p) ↔
      q.canonical.term p = q'.canonical.term p := by
    rw [encodeTerm_eq_iff (h.term p) (h'.term p), EncodedQuad.term_canonical,
      EncodedQuad.term_canonical]
  refine ⟨fun hb => ?_, fun he p => (hs p).mpr <| he ▸ rfl⟩
  have hb p := (hs p).mp (hb p)
  rw [EncodedQuad.mk.injEq]
  exact ⟨hb .subject, hb .predicate, hb .object, hb .graphName⟩

theorem EncodedQuad.sameBytes_canonical (q : EncodedQuad) : q.SameBytes q.canonical := by
  intro p
  rw [EncodedQuad.term_canonical]
  exact (EncodedTerm.writeTerm_canonical _).symm

theorem Pattern.IsPattern.term {p : Pattern} (h : p.IsPattern) (pos : Position)
    (ht : t ∈ p.term pos) (hd : t ≠ .defaultGraph) : t.IsTerm := by
  cases pos
  case subject   => exact h.subject t ht
  case predicate => exact h.predicate t ht
  case object    => exact h.object t ht
  case graphName => exact h.graphName t ht hd

theorem Pattern.IsPattern.matchesBytes_iff {p : Pattern} (h : p.IsPattern) (hq : q.IsQuad) :
    p.MatchesBytes q ↔ p.canonical.Matches q.canonical := by
  have ht pos {t} (ht : t ∈ p.term pos) : encodeTerm (q.term pos) = encodeTerm t ↔
      q.canonical.term pos = t.canonical := by
    rw [encodeTerm_eq_iff (hq.term pos) (h.term pos ht), EncodedQuad.term_canonical]
  constructor
  · intro hm pos t hc
    rw [Pattern.term_canonical, Option.mem_map] at hc
    have ⟨t', ht', he⟩ := hc
    exact he ▸ (ht pos ht').mp (hm pos t' ht')
  · intro hm pos t hc
    refine (ht pos hc).mpr <| hm pos _ ?_
    rw [Pattern.term_canonical]
    exact Option.mem_map_of_mem _ hc
