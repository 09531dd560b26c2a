import OxigraphCloud.Objects.Theorems.EncodedTerm
import OxigraphCloud.Primitives.Delta
import OxigraphCloud.Primitives.Except
import OxigraphCloud.Server.Changelog
import OxigraphCloud.Storage.Dataset

namespace Store

section Transact

variable (s : Store) (faults : Faults) (storageError : String → ε) (body : Store → Except ε Store)

-- A transaction either leaves the store as it is or does what its body does.
theorem transact_cases :
    (∃ e, s.transact faults storageError body = (.error e, s)) ∨
    (∃ s', s.transact faults storageError body = (.ok (), s') ∧ body s = .ok s') := by
  rw [transact]
  split
  case h_1 => exact .inl ⟨_, rfl⟩
  case h_2 =>
    split
    case h_1 => exact .inl ⟨_, rfl⟩
    case h_2 hb =>
      split
      case h_1 => exact .inl ⟨_, rfl⟩
      case h_2 => exact .inr ⟨_, rfl, hb⟩

variable {s faults storageError body}

theorem transact_of_ok (h : s.transact faults storageError body = (.ok (), s')) :
    body s = .ok s' := by
  cases transact_cases s faults storageError body
  case inl h' =>
    have ⟨_, h'⟩ := h'
    exact nomatch h'.symm.trans h
  case inr h' =>
    have ⟨_, h', hb⟩ := h'
    exact (Prod.mk.inj <| h'.symm.trans h).right ▸ hb

theorem transact_of_isNone (hf : faults.isNone) (hb : body s = .ok s') :
    s.transact faults storageError body = (.ok (), s') := by
  simp only [Faults.isNone, Bool.and_eq_true, Option.isNone_iff_eq_none] at hf
  simp [transact, hf, hb]

theorem transact_of_not_isNone (hf : faults.isNone = false) :
    ∃ e, s.transact faults storageError body = (.error e, s) := by
  obtain h | ⟨s', h, hb⟩ := transact_cases s faults storageError body
  · exact h
  · rcases faults with ⟨_ | _, _ | _⟩ <;> simp [transact, hb, Faults.isNone] at h hf

end Transact

variable {s s' : Store} {q q' : Rdf.Quad} {quads : List Rdf.Quad}

@[simp]
theorem mem_insert : q' ∈ (s.insert q).quads ↔ q' = q ∨ q' ∈ s.quads :=
  Finset.mem_insert

@[simp]
theorem mem_remove : q' ∈ (s.remove q).quads ↔ q' ≠ q ∧ q' ∈ s.quads :=
  Finset.mem_erase

@[simp]
theorem mem_insertAll : q ∈ (s.insertAll quads).quads ↔ q ∈ quads ∨ q ∈ s.quads := by
  induction quads generalizing s
  case nil => simp [insertAll]
  case cons q' quads hi =>
    have h : q ∈ (s.insertAll (q' :: quads)).quads ↔ q ∈ quads ∨ q ∈ (s.insert q').quads := hi
    rw [h, mem_insert, List.mem_cons, or_left_comm, or_assoc]

@[simp]
theorem mem_removeAll : q ∈ (s.removeAll quads).quads ↔ q ∉ quads ∧ q ∈ s.quads := by
  induction quads generalizing s
  case nil => simp [removeAll]
  case cons q' quads hi =>
    have h : q ∈ (s.removeAll (q' :: quads)).quads ↔ q ∉ quads ∧ q ∈ (s.remove q').quads := hi
    rw [h, mem_remove, List.mem_cons, not_or, and_left_comm, and_assoc]

theorem mem_namedGraphs_insertAll {g : Rdf.NamedOrBlankNode} :
    g ∈ (s.insertAll quads).namedGraphs ↔
      (∃ q ∈ quads, q.graphName.toNode = some g) ∨ g ∈ s.namedGraphs := by
  induction quads generalizing s
  case nil => simp [insertAll]
  case cons q quads hi =>
    have h : g ∈ (s.insertAll (q :: quads)).namedGraphs ↔
      (∃ q' ∈ quads, q'.graphName.toNode = some g) ∨ g ∈ (s.insert q).namedGraphs := hi
    simp only [h, insert, Finset.mem_union, Option.mem_toFinset, Option.mem_def, List.mem_cons,
      exists_eq_or_imp]
    rw [or_comm (b := q.graphName.toNode = some g), ← or_assoc, or_comm (b := ∃ q' ∈ quads, _)]

theorem insertAll_eq_self_iff : s.insertAll quads = s ↔
    ∀ q ∈ quads, q ∈ s.quads ∧ ∀ g ∈ q.graphName.toNode, g ∈ s.namedGraphs where
  mp h q hq := by
    refine ⟨h ▸ mem_insertAll.mpr (.inl hq), fun g hg => ?_⟩
    exact h ▸ mem_namedGraphs_insertAll.mpr (.inl ⟨q, hq, hg⟩)
  mpr h := by
    apply Store.ext
    · ext q
      rw [mem_insertAll, or_iff_right_of_imp fun hq => (h q hq).left]
    · ext g
      rw [mem_namedGraphs_insertAll, or_iff_right_of_imp]
      exact fun ⟨q, hq, hg⟩ => (h q hq).right g hg

-- The dataset that a storage backend keeps for the store.
section Dataset

variable (enc : Encoder)

def toDataset (s : Store) : Dataset where
  quads       := { x | ∃ q ∈ s.quads, (enc.encodeQuad q).canonical = x }
  namedGraphs := { x | ∃ g ∈ s.namedGraphs, (enc.encodeNamedOrBlankNode g).canonical = x }

theorem toDataset_insert :
    (s.insert q).toDataset enc = (s.toDataset enc).insert (enc.encodeQuad q).canonical := by
  apply Dataset.ext
  · ext x
    simp [toDataset, Dataset.insert, eq_comm]
  · simp only [toDataset, Dataset.insert, insert, EncodedQuad.canonical, Encoder.encodeQuad,
      EncodedTerm.canonical_eq_defaultGraph, Encoder.encodeGraphName_eq_defaultGraph]
    cases q.graphName
    case defaultGraph => simp [Rdf.GraphName.toNode]
    all_goals
      ext x
      simp only [Rdf.GraphName.toNode, Option.toFinset_some, Finset.mem_union, Finset.mem_singleton,
        or_and_right, exists_or, exists_eq_left, reduceCtorEq, if_false, Set.mem_insert_iff,
        Set.mem_ofPred_eq]
      rw [or_comm, eq_comm]
      rfl

-- Removing is about encoded quads. It is exact if no other quad of the store has the same encoding.
theorem toDataset_remove
    (h : ∀ q' ∈ s.quads, (enc.encodeQuad q').canonical = (enc.encodeQuad q).canonical → q' = q) :
    (s.remove q).toDataset enc = (s.toDataset enc).remove (enc.encodeQuad q).canonical := by
  apply Dataset.ext
  · ext x
    simp only [toDataset, Dataset.remove, mem_remove, Set.mem_ofPred_eq, Set.mem_sdiff,
      Set.mem_singleton_iff]
    constructor
    · intro ⟨q', ⟨hn, hq⟩, he⟩
      exact ⟨⟨q', hq, he⟩, fun hx => hn <| h q' hq (he.trans hx)⟩
    · intro ⟨⟨q', hq, he⟩, hn⟩
      exact ⟨q', ⟨fun hx => hn <| hx ▸ he.symm, hq⟩, he⟩
  · rfl

end Dataset

end Store

-- A format in which each quad of a book is written as one byte.
def readBook (book : List (UInt8 × Rdf.Quad)) (body : Bytes) : List (Except String Rdf.Quad) :=
  body.map fun byte => (book.lookup byte).elim (.error "Unexpected byte") .ok

-- Updates insert the quads of their text, queries count those of their text that are in the store,
-- and shapes forbid the triples of their quads.
noncomputable def Services.ofBook (book : List (UInt8 × Rdf.Quad)) : Services :=
  let read text := readBook book (SmallString.strBytes text)
  { Services.plain with
    fromMediaType _         := some .nQuads
    parse _                 := readBook book
    serializeNQuads quads   := .ofList <| quads.filterMap fun quad =>
      (book.find? (·.2 = quad)).map fun entry => .ofNat entry.1.toNat
    parseUpdate text        := ((read text).mapM id).map fun quads =>
      ⟨fun _ s => .ok (s.insertAll quads), fun s => .ok (s.insertAll quads)⟩
    query text s            := ((read text).mapM id).map fun quads =>
      toString (quads.filter (· ∈ s.quads)).length
    validate shapes triples := .ok ⟨((read shapes.schema).filterMap Except.toOption).all fun quad =>
      (quad.subject, quad.predicate, quad.object) ∉ triples, ""⟩ }

def letterQuad (letter : Char) : Rdf.Quad where
  subject   := .namedNode "http://example.com/a"
  predicate := "http://example.com/p"
  object    := .literal (.string (String.singleton letter))
  graphName := .defaultGraph

noncomputable def letterServices : Services :=
  .ofBook [(97, letterQuad 'a'), (98, letterQuad 'b'), (99, letterQuad 'c')]
