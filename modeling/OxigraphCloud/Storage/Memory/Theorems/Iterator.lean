import OxigraphCloud.Primitives.Iterator
import OxigraphCloud.Storage.Memory.Theorems.Isolation

-- An iterator gives the quads of its snapshot, whatever transactions do between two of its calls.

namespace Memory

theorem MemoryStorageReader.isNodeInRange_iff (r : MemoryStorageReader) {content : Content}
    (h : content.Coherent) (ha : a ∈ content.quadSet) :
    r.isNodeInRange a ↔ a.quad ∈ (r.dataset content).quads := by
  have hn : content.node a.quad = some a := Keyed.get_of_mem h.nodup ha
  simp [dataset, contains, hn]

theorem MemoryStorageReader.mem_quads_iff (r : MemoryStorageReader) {content : Content}
    (h : content.Coherent) : q ∈ (r.dataset content).quads ↔
      ∃ a ∈ content.quadSet, r.isNodeInRange a ∧ a.quad = q := by
  constructor
  · intro hq
    obtain ⟨a, hn, hr⟩ := (Option.any_eq_true ..).mp hq
    obtain ⟨ha, rfl⟩ := Keyed.mem_of_get hn
    exact ⟨a, ha, hr, rfl⟩
  · rintro ⟨a, ha, hr, rfl⟩
    exact (r.isNodeInRange_iff h ha).mp hr

-- What a reader counts and lists at any time is what it finds.
theorem reader_counts {r : MemoryStorageReader} (h : Steps enc (.idle .new) p) :
    let content := p.storage.content
    r.len content = (r.dataset content).quads.ncard ∧
    (r.isEmpty content ↔ (r.dataset content).quads = ∅) ∧
    ∀ g, g ∈ r.namedGraphs content ↔ g ∈ (r.dataset content).namedGraphs := by
  intro content
  obtain ⟨⟨hs, -⟩, -⟩ := Phase.valid_new.steps h
  have hc := hs.wellFormed.coherent
  refine ⟨?_, ?_, fun g => MemoryStorageReader.mem_namedGraphs hs.graphNames⟩
  · have hq : (r.dataset content).quads =
        ↑((content.quadSet.filter r.isNodeInRange).map QuadListNode.quad).toFinset := by
      ext q
      simp [r.mem_quads_iff hc, content, and_assoc]
    rw [hq, Set.ncard_coe_finset, List.toFinset_card_of_nodup, List.length_map]
    · rfl
    · exact hc.nodup.sublist (List.filter_sublist.map _)
  · simp only [MemoryStorageReader.isEmpty, Set.eq_empty_iff_forall_notMem, r.mem_quads_iff hc,
      content, Bool.not_eq_true', List.any_eq_false]
    exact ⟨fun h _ ⟨a, ha, hr, _⟩ => h a ha hr, fun h a ha hr => h _ ⟨a, ha, hr, rfl⟩⟩

theorem reader_counts_sample :
    MemoryStorageReader.len ⟨1⟩ removing.storage.content =
      (MemoryStorageReader.dataset ⟨1⟩ removing.storage.content).quads.ncard :=
  (reader_counts (steps_inserted.trans steps_removing)).1

namespace QuadIterator

variable {it : QuadIterator} {content content' : Content} {sel : EncodedQuad → Bool}
  {nodes : List QuadListNode} {quads : List EncodedQuad}

theorem expects_iff : it.expects q ↔ ∀ p, ∀ term ∈ it.expect p, q.term p = term := by
  simp only [expects, List.all_eq_true]
  constructor
  · intro h p term ht
    have hp := h p (by cases p <;> simp)
    rw [Option.mem_def.mp ht] at hp
    simpa using hp
  · intro h p _
    cases hp : it.expect p
    case none => rfl
    case some term => simpa using h p term hp

-- The iterator does not skip the node.
def gives (it : QuadIterator) (a : QuadListNode) : Bool :=
  it.reader.isNodeInRange a && it.expects a.quad

-- The iterator is at a place from which it visits the nodes whose quads satisfy `sel`.
structure At (content : Content) (it : QuadIterator) (sel : EncodedQuad → Bool)
    (nodes : List QuadListNode) : Prop where
  same  : ∀ {a : QuadListNode}, sel a.quad → it.kind.same a = fun b => sel b.quad
  place : Chain.At QuadListNode.quad (fun a => sel a.quad) content.quadSet it.current nodes

-- The quads that are left.
def rest (it : QuadIterator) (sel : EncodedQuad → Bool) (nodes : List QuadListNode) :
    List EncodedQuad :=
  ((nodes.filter fun a => sel a.quad).filter it.gives).map QuadListNode.quad

theorem At.nextIn (h : content.Coherent) (ha : At content it sel nodes) (hl : nodes.length ≤ n) :
    ∃ nodes', (it.nextIn content n).1 = (it.rest sel nodes).head? ∧
      (it.nextIn content n).2.reader = it.reader ∧
      At content (it.nextIn content n).2 sel nodes' ∧
      (it.nextIn content n).2.rest sel nodes' = (it.rest sel nodes).tail := by
  induction n generalizing it nodes
  case zero =>
    obtain rfl := List.eq_nil_of_length_eq_zero (Nat.le_zero.mp hl)
    exact ⟨[], rfl, rfl, ha, rfl⟩
  case succ n hi =>
    rcases ha.place.step h.nodup (h.linked it.kind) ha.same with ⟨hn, he⟩ | hn
    case inl =>
      have hr : it.rest sel nodes = [] := by rw [rest, he]; rfl
      rw [hr, QuadIterator.nextIn, hn, Option.bind_none]
      exact ⟨[], rfl, rfl, ⟨ha.same, List.nil_suffix, rfl⟩, rfl⟩
    case inr =>
      obtain ⟨k, a, nodes', hk, hg, -, he, hlt, hp⟩ := hn
      have hg : content.node k = some a := hg
      have ha' : At content { it with current := a.previousIn it.kind } sel nodes' := ⟨ha.same, hp⟩
      have hi := hi ha' (by omega)
      have hr : it.rest sel nodes = if it.gives a then a.quad :: it.rest sel nodes' else
          it.rest sel nodes' := by
        rw [rest, he, List.filter_cons]
        split <;> rfl
      have hn : it.nextIn content (n + 1) = if it.gives a then
          (some a.quad, { it with current := a.previousIn it.kind }) else
          QuadIterator.nextIn content n { it with current := a.previousIn it.kind } := by
        have hx : expects { it with current := a.previousIn it.kind } a.quad = it.expects a.quad :=
          rfl
        rw [QuadIterator.nextIn, hk, Option.bind_some, hg]
        cases hv : it.reader.isNodeInRange a <;> cases he : it.expects a.quad <;>
          simp [gives, hx, hv, he]
      rw [hr, hn]
      split
      case isTrue => exact ⟨nodes', rfl, rfl, ha', rfl⟩
      case isFalse => exact hi

-- The place is still there when other nodes have been added.
theorem At.grows (hc : content.Coherent) (hc' : content'.Coherent) (hg : content.Grows content')
    (hd : it.reader.dataset content' = it.reader.dataset content) (ha : At content it sel nodes) :
    ∃ nodes', At content' it sel nodes' ∧ it.rest sel nodes' = it.rest sel nodes := by
  obtain ⟨new, f, hq, -, he⟩ := hg
  have hp := ha.place.map hq fun a => by rw [hq]
  refine ⟨nodes.map f, ⟨ha.same, he ▸ hp.suffix.trans (List.suffix_append ..), hp.start⟩, ?_⟩
  rw [rest, List.filter_map, List.filter_map, List.map_map]
  simp only [Function.comp_def, hq]
  have hv {a : QuadListNode} (hm : a ∈ content.quadSet) : it.gives (f a) = it.gives a := by
    have hm' : f a ∈ content'.quadSet := he ▸ List.mem_append_right _ (List.mem_map_of_mem hm)
    have hr := it.reader.isNodeInRange_iff hc' hm'
    rw [hd, hq, ← it.reader.isNodeInRange_iff hc hm, ← Bool.eq_iff_iff] at hr
    rw [gives, gives, hr, hq]
  rw [List.filter_congr fun a hm => hv (ha.place.suffix.subset (List.mem_of_mem_filter hm))]
  rfl

end QuadIterator

-- The calls of `next`. There is a phase for each of them.
def pull (phases : ℕ → Phase) (s : ℕ × QuadIterator) : Option EncodedQuad × ℕ × QuadIterator :=
  let (quad, it) := s.2.next (phases (s.1 + 1)).storage.content
  (quad, s.1 + 1, it)

theorem QuadIterator.At.yields {phases : ℕ → Phase} {it : QuadIterator}
    (hv : ∀ i, (phases i).Valid enc) (hk : ∀ i, (phases i).Keeps (phases (i + 1)))
    (hr : it.reader.snapshotId ≤ (phases i).storage.versionCounter)
    (ha : At (phases i).storage.content it sel nodes) :
    ∃ last, Iter.Yields (pull phases) (i, it) (it.rest sel nodes) last := by
  generalize hq : it.rest sel nodes = quads
  induction quads generalizing i it nodes
  all_goals
    have hc := (hv (i + 1)).1.wellFormed.coherent
    have hd : it.reader.dataset (phases (i + 1)).storage.content =
        it.reader.dataset (phases i).storage.content := by
      rw [MemoryStorageReader.dataset_eq (hv i).sorted, MemoryStorageReader.dataset_eq
        (hv (i + 1)).sorted, (hk i).seen _ hr]
    obtain ⟨nodes', ha', he⟩ := ha.grows (hv i).1.wellFormed.coherent hc (hk i).nodes hd
    obtain ⟨nodes'', hn, hr', ha'', he'⟩ := ha'.nextIn hc ha'.place.suffix.length_le
    rw [he, hq] at hn he'
  case nil => exact ⟨_, .done (Prod.ext hn rfl)⟩
  case cons quad quads hi =>
    obtain ⟨last, h⟩ := hi (hr' ▸ hr.trans (hk i).version) ha'' he'
    exact ⟨last, .item (Prod.ext hn rfl) h⟩

namespace MemoryStorageReader

variable {r : MemoryStorageReader} {content : Content} {pattern : Pattern}

-- The list of a bound term is taken, or the list of all quads.
theorem choose_cases (content : Content) (pattern : Pattern) :
    choose content pattern = (content.lastQuad, .all) ∨
    ∃ p term, pattern.term p = some term ∧
      choose content pattern = ((content.lastQuadBy p term).map Prod.fst, .position p) := by
  have hp (p : Position) (h : (pattern.term p).isSome) : ∃ term, pattern.term p = some term ∧
      ((getStartAndCount content p (pattern.term p)).1, QuadIteratorKind.position p) =
        ((content.lastQuadBy p term).map Prod.fst, .position p) := by
    obtain ⟨term, ht⟩ := Option.isSome_iff_exists.mp h
    refine ⟨term, ht, ?_⟩
    rw [ht, getStartAndCount]
    split <;> simp_all
  simp only [choose]
  split_ifs with hs hp' ho hg
  · exact .inr ⟨.subject, hp .subject hs.1⟩
  · exact .inr ⟨.predicate, hp .predicate hp'.1⟩
  · exact .inr ⟨.object, hp .object ho.1⟩
  · exact .inr ⟨.graphName, hp .graphName hg⟩
  · exact .inl rfl

theorem quadsForPattern_at (r : MemoryStorageReader) (h : content.Coherent) (pattern : Pattern) :
    ∃ sel, (r.quadsForPattern content pattern).At content sel content.quadSet ∧
      ∀ q, sel q ∧ (r.quadsForPattern content pattern).expects q ↔ pattern.Matches q := by
  simp only [QuadIterator.expects_iff, Pattern.Matches]
  rcases choose_cases content pattern with hc | ⟨p, term, ht, hc⟩
  case inl =>
    refine ⟨fun _ => true, ⟨fun _ => ?_, List.suffix_refl _, ?_⟩, fun q => ?_⟩
    · simp only [quadsForPattern, hc]
      rfl
    · simp only [quadsForPattern, hc, h.last]
      cases content.quadSet <;> rfl
    · simp [quadsForPattern, hc]
  case inr =>
    refine ⟨fun q => q.term p = term, ⟨fun {a} ha => ?_, List.suffix_refl _, ?_⟩, fun q => ?_⟩
    · simp only [decide_eq_true_eq] at ha
      simp only [quadsForPattern, hc]
      funext b
      simp [QuadIteratorKind.same, ha, eq_comm]
    · simp only [quadsForPattern, hc]
      rw [h.lastBy, Option.map_map, ← List.head?_filter]
      rfl
    · -- The term at `p` is not looked at, because it is the one that all quads of the list have.
      simp only [quadsForPattern, hc, decide_eq_true_eq]
      constructor
      · rintro ⟨hq, hx⟩ p' term' ht'
        by_cases hp : p' = p
        · subst hp
          rw [hq, Option.some.inj (ht.symm.trans ht')]
        · exact hx p' term' (by simpa [hp] using ht')
      · intro hm
        refine ⟨hm p term ht, fun p' term' ht' => ?_⟩
        by_cases hp : p' = p
        · simp [hp] at ht'
        · exact hm p' term' (by simpa [hp] using ht')

end MemoryStorageReader

-- The transactions may have got anywhere at each of the calls.
theorem iterator_isolated {phases : ℕ → Phase} {r : MemoryStorageReader}
    (h : Steps enc (.idle .new) (phases 0)) (hs : ∀ i, Steps enc (phases i) (phases (i + 1)))
    (hr : r.snapshotId ≤ (phases 0).storage.versionCounter) (pattern : Pattern) :
    let content := (phases 0).storage.content
    ∃ quads last, Iter.Yields (pull phases) (0, r.quadsForPattern content pattern) quads last ∧
      quads.Nodup ∧ ∀ q, q ∈ quads ↔ q ∈ (r.dataset content).quads ∧ pattern.Matches q := by
  intro content
  obtain ⟨hv, -⟩ := Phase.valid_new.steps h
  have hv : ∀ i, (phases i).Valid enc := by
    intro i
    induction i
    case zero => exact hv
    case succ i hi => exact (hi.steps (hs i)).1
  have hc := (hv 0).1.wellFormed.coherent
  obtain ⟨sel, ha, hm⟩ := r.quadsForPattern_at hc pattern
  obtain ⟨last, hy⟩ := ha.yields hv (fun i => ((hv i).steps (hs i)).2) hr
  refine ⟨_, last, hy, ?_, fun q => ?_⟩
  · exact hc.nodup.sublist ((List.filter_sublist.trans List.filter_sublist).map _)
  · rw [← hm, r.mem_quads_iff hc]
    simp only [QuadIterator.rest, List.mem_map, List.mem_filter, QuadIterator.gives,
      Bool.and_eq_true]
    constructor
    · rintro ⟨a, ⟨⟨ha, hsel⟩, hin, hx⟩, rfl⟩
      exact ⟨⟨a, ha, hin, rfl⟩, hsel, hx⟩
    · rintro ⟨⟨a, ha, hin, rfl⟩, hsel, hx⟩
      exact ⟨a, ⟨⟨ha, hsel⟩, hin, hx⟩, rfl⟩

-- The quad is removed while the iterator is in use.
def samplePhases : ℕ → Phase
  | 0     => .idle inserted
  | _ + 1 => .committing removing removing.log

theorem iterator_isolated_sample : ∃ quads last,
    Iter.Yields (pull samplePhases)
      (0, MemoryStorageReader.quadsForPattern ⟨1⟩ inserted.content ⟨none, none, none, none⟩)
      quads last ∧ Encoder.plain.encodeQuad sampleQuad ∈ quads := by
  have hs (i : ℕ) : Steps .plain (samplePhases i) (samplePhases (i + 1)) := by
    cases i
    case zero => exact steps_removing
    case succ => exact .refl
  obtain ⟨quads, last, hy, -, hm⟩ := iterator_isolated (r := ⟨1⟩) steps_inserted hs
    (by decide +kernel) ⟨none, none, none, none⟩
  refine ⟨quads, last, hy, (hm _).mpr ⟨?_, ?_⟩⟩
  · show MemoryStorageReader.contains ⟨1⟩ inserted.content _ = true
    decide +kernel
  · rintro (_ | _ | _ | _) _ ⟨⟩

end Memory
