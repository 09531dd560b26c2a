import OxigraphCloud.Objects.Theorems.Decoder
import OxigraphCloud.Primitives.Run
import OxigraphCloud.Storage.Memory.Validate

open Rdf

-- Transactions keep the internal structure of the storage as it should be.

theorem EncodedTerm.eq_self (t : EncodedTerm) : t.eq t := by
  induction t <;> simp_all [EncodedTerm.eq, SmallString.eq]

namespace StrLookup

variable {lookup : StrLookup} {enc : Encoder} (print : Printer)

-- There is a string for each id of a term. It may be another string with the same hash.
def Knows (lookup : StrLookup) (encoded : EncodedTerm) : Prop :=
  ∀ key ∈ encoded.strIds, ∃ str, lookup key = .ok (some str)

theorem Knows.getRequiredStr (h : lookup.Knows encoded) (hk : key ∈ encoded.strIds) :
    ∃ str, lookup.getRequiredStr key = .ok str := by
  obtain ⟨str, h⟩ := h key hk
  exact ⟨str, getRequiredStr_of h⟩

theorem Knows.decodeTerm {encoded : EncodedTerm} (h : lookup.Knows encoded)
    (ht : encoded.IsTerm) (hn : ∀ s p o, encoded ≠ .triple s p o) :
    ∃ term, lookup.decodeTerm print encoded = .ok term := by
  cases encoded
  case triple s p o => exact absurd rfl (hn s p o)
  case defaultGraph => exact ht.elim
  -- The other terms have no string, one string or two strings.
  all_goals first
    | exact ⟨_, rfl⟩
    | obtain ⟨str, hs⟩ := h.getRequiredStr List.mem_cons_self
      rw [StrLookup.decodeTerm, hs]
      first
      | exact ⟨_, rfl⟩
      | obtain ⟨str', hs'⟩ := h.getRequiredStr (List.mem_cons_of_mem _ List.mem_cons_self)
        rw [hs']
        exact ⟨_, rfl⟩

theorem Knows.decodeTerm_namedNode (h : lookup.Knows (enc.encodeNamedNode node)) :
    ∃ node', lookup.decodeTerm print (enc.encodeNamedNode node) = .ok (.namedNode node') := by
  obtain ⟨str, hs⟩ := h.getRequiredStr List.mem_cons_self
  refine ⟨str, ?_⟩
  rw [Encoder.encodeNamedNode, StrLookup.decodeTerm, hs]
  rfl

theorem Knows.decodeTerm_blankNode (h : lookup.Knows (enc.encodeBlankNode node)) :
    ∃ node', lookup.decodeTerm print (enc.encodeBlankNode node) = .ok (.blankNode node') := by
  unfold Encoder.encodeBlankNode at h ⊢
  split at h
  case h_1 => exact ⟨_, rfl⟩
  case h_2 =>
    split at h
    case h_1 => exact ⟨_, rfl⟩
    case h_2 =>
      obtain ⟨str, hs⟩ := h.getRequiredStr List.mem_cons_self
      rw [StrLookup.decodeTerm, hs]
      exact ⟨_, rfl⟩

-- The strings of a literal are never registered with an encoded triple.
theorem encodeLiteral_ne_triple {literal : Literal} :
    enc.encodeLiteral literal ≠ .triple s p o := fun h => by
  obtain ⟨_, hs, _⟩ := (@Encoder.registers_literal enc literal).strings
  rw [h] at hs
  cases hs

theorem Knows.decodeNode {node : NamedOrBlankNode}
    (h : lookup.Knows (enc.encodeNamedOrBlankNode node)) :
    ∃ node' : NamedOrBlankNode,
      lookup.decodeTerm print (enc.encodeNamedOrBlankNode node) = .ok node'.toTerm := by
  cases node
  case namedNode =>
    obtain ⟨node, h⟩ := h.decodeTerm_namedNode print
    exact ⟨.namedNode node, h⟩
  case blankNode =>
    obtain ⟨node, h⟩ := h.decodeTerm_blankNode print
    exact ⟨.blankNode node, h⟩

theorem toNamedOrBlankNode_toTerm (node : NamedOrBlankNode) :
    toNamedOrBlankNode node.toTerm = .ok node := by
  cases node <;> rfl

theorem Knows.decode_encodeTerm : (term : Term) → lookup.Knows (enc.encodeTerm term) →
    ∃ term', lookup.decodeTerm print (enc.encodeTerm term) = .ok term'
  | .namedNode _, h => (h.decodeTerm_namedNode print).imp' Term.namedNode fun _ => id
  | .blankNode _, h => (h.decodeTerm_blankNode print).imp' Term.blankNode fun _ => id
  | .literal _, h =>
    h.decodeTerm print Encoder.registers_literal.isTerm fun _ _ _ => encodeLiteral_ne_triple
  | .triple s p o, h => by
    have hs : lookup.Knows (enc.encodeNamedOrBlankNode s) := fun key hk => h key <|
      List.mem_append_left _ <| List.mem_append_left _ hk
    have hp : lookup.Knows (enc.encodeNamedNode p) := fun key hk => h key <|
      List.mem_append_left _ <| List.mem_append_right _ hk
    obtain ⟨s', hs⟩ := hs.decodeNode print
    obtain ⟨p', hp⟩ := hp.decodeTerm_namedNode print
    obtain ⟨o', ho⟩ := Knows.decode_encodeTerm o fun key hk => h key <| List.mem_append_right _ hk
    refine ⟨.triple s' p' o', ?_⟩
    rw [Encoder.encodeTerm, StrLookup.decodeTerm, hs, hp, ho]
    show (do let s ← toNamedOrBlankNode s'.toTerm; _) = _
    rw [toNamedOrBlankNode_toTerm]
    rfl

-- Every quad whose strings are known can be decoded.
theorem decodeQuad_of_knows {quad : Quad}
    (h : ∀ p, lookup.Knows ((enc.encodeQuad quad).term p)) :
    ∃ quad', lookup.decodeQuad print (enc.encodeQuad quad) = .ok quad' := by
  obtain ⟨s, hs⟩ := Knows.decodeNode print (h .subject)
  obtain ⟨p, hp⟩ := Knows.decodeTerm_namedNode print (h .predicate)
  obtain ⟨o, ho⟩ := Knows.decode_encodeTerm print quad.object (h .object)
  have hg : ∃ g, lookup.decodeGraphName print (enc.encodeQuad quad).graphName = .ok g := by
    have h := h .graphName
    simp only [EncodedQuad.term, Encoder.encodeQuad] at h ⊢
    generalize quad.graphName = graphName at h ⊢
    cases graphName
    case defaultGraph => exact ⟨.defaultGraph, rfl⟩
    case namedNode node =>
      obtain ⟨g, hg⟩ := Knows.decodeTerm_namedNode print h
      refine ⟨.namedNode g, ?_⟩
      rw [decodeGraphName, if_neg (by simp), Encoder.encodeGraphName, hg]
      rfl
    case blankNode node =>
      obtain ⟨g, hg⟩ := Knows.decodeTerm_blankNode print h
      refine ⟨.blankNode g, ?_⟩
      rw [decodeGraphName, if_neg (by simp), Encoder.encodeGraphName, hg]
      rfl
  obtain ⟨g, hg⟩ := hg
  refine ⟨⟨s, p, o, g⟩, ?_⟩
  have hs : lookup.decodeNamedOrBlankNode print (enc.encodeQuad quad).subject = .ok s := by
    rw [decodeNamedOrBlankNode, Encoder.encodeQuad, hs]
    exact toNamedOrBlankNode_toTerm s
  have hp : lookup.decodeNamedNode print (enc.encodeQuad quad).predicate = .ok p := by
    rw [decodeNamedNode, Encoder.encodeQuad, hp]
    rfl
  have ho : lookup.decodeTerm print (enc.encodeQuad quad).object = .ok o := ho
  rw [decodeQuad, hs, hp, ho, hg]
  rfl

end StrLookup

namespace Memory

-- The nodes of a list of the given kind have the same term at its position.
def QuadIteratorKind.same : QuadIteratorKind → QuadListNode → QuadListNode → Bool
  | .all, _, _        => true
  | .position p, a, b => a.quad.term p = b.quad.term p

namespace Content

variable {content : Content}

def quads (content : Content) : List EncodedQuad := content.quadSet.map QuadListNode.quad

def graphNames (content : Content) : List EncodedTerm := content.graphs.map Prod.fst

-- The nodes with the given term, from the newest one to the oldest one.
def nodesBy (content : Content) (p : Position) (term : EncodedTerm) : List QuadListNode :=
  content.quadSet.filter (·.quad.term p = term)

-- All references lead to the next older node of their lists, and the tables have the newest nodes
-- of the lists and the lengths of the lists.
structure Coherent (content : Content) : Prop where
  nodup  : content.quads.Nodup
  linked : ∀ kind, Chain.Linked QuadListNode.quad (·.previousIn kind) kind.same content.quadSet
  last   : content.lastQuad = content.quadSet.head?.map QuadListNode.quad
  lastBy : ∀ p term, content.lastQuadBy p term =
    (content.nodesBy p term).head?.map fun node => (node.quad, (content.nodesBy p term).length)

theorem coherent_empty : Coherent .empty where
  nodup      := List.nodup_nil
  linked _   := trivial
  last       := rfl
  lastBy _ _ := rfl

theorem find?_same {l : List QuadListNode} {quad : EncodedQuad} {p : Position} {a : QuadListNode}
    (ha : a.quad = quad) :
    l.find? (QuadIteratorKind.same (.position p) a) =
      (l.filter (·.quad.term p = quad.term p)).head? := by
  rw [List.head?_filter]
  congr 1
  funext b
  simp [QuadIteratorKind.same, ha, eq_comm]

theorem Coherent.pushNode {r : VersionRange} (h : content.Coherent) (hq : quad ∉ content.quads) :
    (content.pushNode quad r).Coherent where
  nodup := List.nodup_cons.mpr ⟨hq, h.nodup⟩
  linked kind := by
    refine ⟨?_, h.linked kind⟩
    cases kind
    case all =>
      show content.lastQuad = _
      rw [h.last]
      cases content.quadSet <;> rfl
    case position p =>
      show (content.lastQuadBy p (quad.term p)).map Prod.fst = _
      rw [h.lastBy, Option.map_map, find?_same rfl]
      rfl
  last := rfl
  lastBy p term := by
    by_cases ht : term = quad.term p
    case pos =>
      subst ht
      simp only [Content.pushNode, nodesBy, if_true, h.lastBy, List.filter_cons, decide_true,
        List.head?_cons, Option.map_some, List.length_cons]
      cases content.quadSet.filter (·.quad.term p = quad.term p) <;> rfl
    case neg =>
      simp only [Content.pushNode, nodesBy, ht, Ne.symm ht, if_false, h.lastBy, List.filter_cons,
        decide_false, Bool.false_eq_true]

end Content

namespace MemoryStorage

variable {s s' s'' : MemoryStorage} {enc : Encoder}

abbrev Knows (s : MemoryStorage) (encoded : EncodedTerm) : Prop := s.strLookup.Knows encoded

-- What every operation does, except that `insert` also adds a node: it changes ranges, and it adds
-- named graphs with their strings.
structure Extends (s s' : MemoryStorage) : Prop where
  nodes      : ∃ f : QuadListNode → QuadListNode, (∀ a, (f a).quad = a.quad) ∧
    (∀ a kind, (f a).previousIn kind = a.previousIn kind) ∧
    s'.content.quadSet = s.content.quadSet.map f
  lastQuad   : s'.content.lastQuad = s.content.lastQuad
  lastQuadBy : s'.content.lastQuadBy = s.content.lastQuadBy
  graphs     : ∀ g ∈ s.content.graphNames, g ∈ s'.content.graphNames
  newGraphs  : ∀ g ∈ s'.content.graphNames, g ∈ s.content.graphNames ∨ s'.Knows g
  knows      : ∀ {e}, s.Knows e → s'.Knows e

namespace Extends

theorem refl : Extends s s where
  nodes      := ⟨id, fun _ => rfl, fun _ _ => rfl, (List.map_id _).symm⟩
  lastQuad   := rfl
  lastQuadBy := rfl
  graphs _   := id
  newGraphs _ := .inl
  knows      := id

theorem trans (h : Extends s s') (h' : Extends s' s'') : Extends s s'' where
  nodes := by
    obtain ⟨f, hq, hl, hf⟩ := h.nodes
    obtain ⟨f', hq', hl', hf'⟩ := h'.nodes
    exact ⟨f' ∘ f, fun a => (hq' _).trans (hq a), fun a k => (hl' _ k).trans (hl a k), by
      rw [hf', hf, List.map_map]⟩
  lastQuad     := h'.lastQuad.trans h.lastQuad
  lastQuadBy   := h'.lastQuadBy.trans h.lastQuadBy
  graphs g hg  := h'.graphs g (h.graphs g hg)
  newGraphs g hg := (h'.newGraphs g hg).elim (fun hg => (h.newGraphs g hg).imp_right h'.knows) .inr
  knows hk     := h'.knows (h.knows hk)

theorem quads (h : Extends s s') : s'.content.quads = s.content.quads := by
  obtain ⟨f, hq, -, hf⟩ := h.nodes
  rw [Content.quads, hf, List.map_map]
  exact List.map_congr_left fun a _ => hq a

theorem coherent (h : Extends s s') (hc : s.content.Coherent) : s'.content.Coherent := by
  have hquads := h.quads
  obtain ⟨f, hq, hl, hf⟩ := h.nodes
  have hs : ∀ (kind : QuadIteratorKind) a b, kind.same (f a) (f b) = kind.same a b := by
    intro kind a b
    cases kind <;> simp [QuadIteratorKind.same, hq]
  have hby : ∀ p term, s'.content.nodesBy p term = (s.content.nodesBy p term).map f := by
    intro p term
    rw [Content.nodesBy, hf, List.filter_map]
    simp only [Function.comp_def, hq, Content.nodesBy]
  refine ⟨hquads ▸ hc.nodup, fun kind => ?_, ?_, fun p term => ?_⟩
  · rw [hf]
    exact (hc.linked kind).map hq (fun a => hl a kind) (hs kind)
  · rw [h.lastQuad, hc.last, hf, List.head?_map, Option.map_map]
    simp only [Function.comp_def, hq]
  · rw [h.lastQuadBy, hc.lastBy, hby, List.head?_map, Option.map_map, List.length_map]
    simp only [Function.comp_def, hq]

theorem foldl {f : α → β → α} {g : α → MemoryStorage} (hf : ∀ a b, Extends (g a) (g (f a b)))
    (a : α) (l : List β) : Extends (g a) (g (l.foldl f a)) := by
  induction l generalizing a
  case nil => exact refl
  case cons b l hi => exact (hf a b).trans (hi (f a b))

theorem modify {f : VersionRange → VersionRange} {entry : LogEntry} :
    Extends s { s with content := s.content.modify f entry } := by
  cases entry
  case quadNode node =>
    refine { refl with nodes := ⟨_, fun a => ?_, fun a kind => ?_, rfl⟩ }
    · dsimp only
      split <;> rfl
    · dsimp only
      split <;> cases kind <;> rfl
  case graph graphName =>
    have hg : (s.content.modify f (.graph graphName)).graphNames = s.content.graphNames :=
      Keyed.map_modify fun _ => rfl
    exact { refl with
      graphs g hm    := hg ▸ hm
      newGraphs g hm := .inl (hg ▸ hm) }

end Extends

-- The storage has everything that is needed for a quad of the set.
structure Holds (enc : Encoder) (s : MemoryStorage) (q : EncodedQuad) : Prop where
  encoded : ∃ quad, enc.encodeQuad quad = q
  graph   : q.graphName = .defaultGraph ∨ q.graphName ∈ s.content.graphNames
  knows   : ∀ p, s.Knows (q.term p)

theorem Holds.mono (h : Extends s s') (hq : Holds enc s q) : Holds enc s' q where
  encoded := hq.encoded
  graph   := hq.graph.imp_right (h.graphs _)
  knows p := h.knows (hq.knows p)

structure WellFormed (enc : Encoder) (s : MemoryStorage) : Prop where
  coherent  : s.content.Coherent
  holds     : ∀ q ∈ s.content.quads, Holds enc s q
  graphStrs : ∀ g ∈ s.content.graphNames, s.Knows g

theorem Extends.graphStrs (h : Extends s s') (hs : ∀ g ∈ s.content.graphNames, s.Knows g)
    (g : EncodedTerm) (hg : g ∈ s'.content.graphNames) : s'.Knows g :=
  (h.newGraphs g hg).elim (fun hg => h.knows (hs g hg)) id

theorem WellFormed.extends (h : Extends s s') (hs : s.WellFormed enc) : s'.WellFormed enc where
  coherent    := h.coherent hs.coherent
  holds q hq  := (hs.holds q (h.quads ▸ hq)).mono h
  graphStrs   := h.graphStrs hs.graphStrs

theorem wellFormed_new : WellFormed enc .new where
  coherent       := Content.coherent_empty
  holds _ hq     := absurd hq List.not_mem_nil
  graphStrs _ hg := absurd hg List.not_mem_nil

end MemoryStorage

open MemoryStorage

theorem Content.graph_isSome {content : Content} :
    (content.graph g).isSome ↔ g ∈ content.graphNames := by
  rw [Content.graph, Option.isSome_map, Keyed.get_isSome_iff, graphNames, List.mem_map]

theorem Content.node_isSome {content : Content} :
    (content.node q).isSome ↔ q ∈ content.quads := by
  rw [Content.node, Keyed.get_isSome_iff, quads, List.mem_map]

namespace MemoryStorageTransaction

variable {t : MemoryStorageTransaction} {enc : Encoder}

theorem change_extends : Extends t.storage (t.change f entry).2.storage := by
  unfold change
  split
  case h_1 => exact .refl
  case h_2 =>
    dsimp only
    split <;> exact .modify

theorem removeNode_extends (t : MemoryStorageTransaction) (quad : EncodedQuad) :
    Extends t.storage (t.removeNode quad).storage := change_extends

theorem clearList_extends : Extends t.storage (clearList n next t).storage := by
  induction n generalizing next t
  case zero => exact .refl
  case succ n hi =>
    unfold clearList
    split
    case h_1 => exact .refl
    case h_2 => exact (removeNode_extends t _).trans hi

theorem clearEncodedGraph_extends (t : MemoryStorageTransaction) (graphName : EncodedTerm) :
    Extends t.storage (t.clearEncodedGraph graphName).storage := clearList_extends

theorem clearAllNamedGraphs_extends : Extends t.storage t.clearAllNamedGraphs.storage :=
  Extends.foldl clearEncodedGraph_extends t _

theorem clearAllGraphs_extends : Extends t.storage t.clearAllGraphs.storage :=
  Extends.foldl removeNode_extends t _

theorem removeGraphName_extends (t : MemoryStorageTransaction) (graphName : EncodedTerm) :
    Extends t.storage (t.removeGraphName graphName).storage := change_extends

theorem doRemoveGraphs_extends : Extends t.storage t.doRemoveGraphs.storage :=
  Extends.foldl removeGraphName_extends t _

theorem insertStr_extends (t : MemoryStorageTransaction) (entry : StrHash × String) :
    Extends t.storage (t.insertStr entry).storage := by
  refine { Extends.refl with knows := fun {e} hk key hm => ?_ }
  obtain ⟨str, h⟩ := hk key hm
  have h : t.storage.id2str key = some str := Except.ok.inj h
  exact ⟨str, congrArg Except.ok <| by simp [insertStr, getStr, h]⟩

theorem insertTerm_extends {encoded : EncodedTerm} :
    Extends t.storage (t.insertTerm term encoded).storage :=
  Extends.foldl insertStr_extends t _

theorem strs_known {strs : List (StrHash × String)} (h : key ∈ strs.map Prod.fst) :
    ∃ str, (strs.foldl insertStr t).storage.strLookup key = .ok (some str) := by
  induction strs generalizing t
  case nil => cases h
  case cons entry strs hi =>
    cases List.mem_cons.mp h
    case inr h => exact hi h
    case inl h =>
      -- The string that is found by the key stays there.
      have hk : (t.insertStr entry).storage.Knows (.namedNode key) := by
        intro key' hm
        obtain rfl := List.mem_singleton.mp hm
        cases hs : t.storage.id2str entry.1
        case none => exact ⟨entry.2, congrArg Except.ok <| by simp [insertStr, getStr, h, hs]⟩
        case some str => exact ⟨str, congrArg Except.ok <| by simp [insertStr, getStr, h, hs]⟩
      exact (Extends.foldl insertStr_extends (t.insertStr entry) strs).knows hk key
        List.mem_cons_self

theorem insertTerm_knows {term : Rdf.Term} {encoded : EncodedTerm} (h : Registers term encoded) :
    (t.insertTerm term encoded).storage.Knows encoded := by
  obtain ⟨strs, hs, hids⟩ := h.strings
  intro key hk
  rw [insertTerm, termStrs, hs]
  exact strs_known (hids ▸ hk)

theorem insertEncodedNamedGraph_extends (graphName : Rdf.NamedOrBlankNode) {encoded : EncodedTerm}
    (h : Registers graphName.toTerm encoded) :
    Extends t.storage (t.insertEncodedNamedGraph graphName encoded).storage ∧
      encoded ∈ (t.insertEncodedNamedGraph graphName encoded).storage.content.graphNames := by
  unfold insertEncodedNamedGraph
  split
  case h_1 hg =>
    have hm : encoded ∈ t.storage.content.graphNames :=
      Content.graph_isSome.mp <| Option.isSome_iff_exists.mpr ⟨_, hg⟩
    exact ⟨change_extends, change_extends.graphs _ hm⟩
  case h_2 =>
    let t₁ := t.modifyContent (.pushGraph encoded (.start t.transactionId))
    have he : Extends t₁.storage (t₁.insertTerm graphName.toTerm encoded).storage :=
      insertTerm_extends
    refine ⟨?_, he.graphs _ List.mem_cons_self⟩
    exact {
      nodes      := he.nodes
      lastQuad   := he.lastQuad
      lastQuadBy := he.lastQuadBy
      graphs     := fun g hg => he.graphs g (List.mem_cons_of_mem _ hg)
      knows      := fun hk => he.knows hk
      newGraphs  := fun g hg => by
        rcases he.newGraphs g hg with hg | hg
        case inr => exact .inr hg
        case inl =>
          rcases List.mem_cons.mp hg with rfl | hg
          · exact .inr (insertTerm_knows h)
          · exact .inl hg }

-- A quad that has no node yet.
theorem insert_wellFormed_of_notMem {quad : Rdf.Quad} (h : t.storage.WellFormed enc)
    (hn : enc.encodeQuad quad ∉ t.storage.content.quads) :
    (t.insert enc quad).storage.WellFormed enc := by
  have hnode : t.storage.content.node (enc.encodeQuad quad) = none := by
    rw [← Option.not_isSome_iff_eq_none, Content.node_isSome]
    exact hn
  unfold insert
  simp only [hnode]
  let t₁ := t.modifyContent (.pushNode (enc.encodeQuad quad) (.start t.transactionId))
  let t₂ := t₁.insertTerm quad.subject.toTerm (enc.encodeQuad quad).subject
  let t₃ := t₂.insertTerm (.namedNode quad.predicate) (enc.encodeQuad quad).predicate
  let t₄ := t₃.insertTerm quad.object (enc.encodeQuad quad).object
  have h₂ : Extends t₁.storage t₂.storage := insertTerm_extends
  have h₃ : Extends t₂.storage t₃.storage := insertTerm_extends
  have h₄ : Extends t₃.storage t₄.storage := insertTerm_extends
  have hs : t₂.storage.Knows _ := insertTerm_knows (Encoder.registers_namedOrBlankNode quad.subject)
  have hp : t₃.storage.Knows _ := insertTerm_knows Encoder.registers_namedNode
  have ho : t₄.storage.Knows _ := insertTerm_knows (Encoder.registers_term quad.object)
  -- What is left to show, once it is known what is done for the name of the graph.
  have key : ∀ t₅ : MemoryStorageTransaction, Extends t₄.storage t₅.storage →
      ((enc.encodeQuad quad).graphName = .defaultGraph ∨
        (enc.encodeQuad quad).graphName ∈ t₅.storage.content.graphNames) →
      t₅.storage.WellFormed enc := by
    intro t₅ h₅ hg
    have he : Extends t₁.storage t₅.storage := h₂.trans <| h₃.trans <| h₄.trans h₅
    have hstrs := he.graphStrs h.graphStrs
    refine ⟨he.coherent (h.coherent.pushNode hn), fun q hq => ?_, hstrs⟩
    rw [he.quads] at hq
    rcases List.mem_cons.mp hq with rfl | hq
    case inr =>
      have ho := h.holds q hq
      exact Holds.mono he ⟨ho.encoded, ho.graph, ho.knows⟩
    case inl =>
      refine ⟨⟨quad, rfl⟩, hg, fun p => ?_⟩
      cases p
      case subject => exact (h₃.trans <| h₄.trans h₅).knows hs
      case predicate => exact (h₄.trans h₅).knows hp
      case object => exact h₅.knows ho
      case graphName =>
        rcases hg with hg | hg
        · show t₅.storage.Knows (enc.encodeQuad quad).graphName
          rw [hg]
          exact fun key hk => absurd hk List.not_mem_nil
        · exact hstrs _ hg
  have graph (node : NamedOrBlankNode)
      (hr : Registers node.toTerm (enc.encodeQuad quad).graphName) :
      (t₄.insertEncodedNamedGraph node (enc.encodeQuad quad).graphName).storage.WellFormed enc := by
    obtain ⟨he, hm⟩ := insertEncodedNamedGraph_extends (t := t₄) node hr
    exact key _ he (.inr hm)
  split
  case h_1 node hg =>
    refine graph (.namedNode node) ?_
    simp only [Encoder.encodeQuad, hg]
    exact Encoder.registers_namedNode
  case h_2 node hg =>
    refine graph (.blankNode node) ?_
    simp only [Encoder.encodeQuad, hg]
    exact Encoder.registers_blankNode
  case h_3 hg =>
    exact key t₄ .refl (.inl <| by simp [Encoder.encodeQuad, hg, Encoder.encodeGraphName])

theorem insert_wellFormed {quad : Rdf.Quad} (h : t.storage.WellFormed enc) :
    (t.insert enc quad).storage.WellFormed enc := by
  by_cases hm : enc.encodeQuad quad ∈ t.storage.content.quads
  case neg => exact insert_wellFormed_of_notMem h hm
  case pos =>
    refine h.extends ?_
    obtain ⟨node, hnode⟩ := Option.isSome_iff_exists.mp (Content.node_isSome.mpr hm)
    have hc : Extends t.storage
        (t.change (VersionRange.add t.transactionId) (.quadNode (enc.encodeQuad quad))).2.storage :=
      change_extends
    simp only [insert, hnode]
    split
    case h_2 hf =>
      rw [hf] at hc
      exact hc
    case h_1 ht =>
      rw [ht] at hc
      split
      case isTrue => exact hc
      case isFalse => exact hc.trans change_extends

theorem apply_wellFormed (h : t.storage.WellFormed enc) (op : ReadableOp) :
    (t.apply enc op).storage.WellFormed enc := by
  cases op
  case insert => exact insert_wellFormed h
  case insertNamedGraph graphName =>
    have hr : Registers _ (enc.encodeNamedOrBlankNode graphName) :=
      Encoder.registers_namedOrBlankNode graphName
    exact h.extends (insertEncodedNamedGraph_extends graphName hr).left
  case remove => exact h.extends change_extends
  case clearGraph => exact h.extends clearList_extends
  case clearAllNamedGraphs => exact h.extends clearAllNamedGraphs_extends
  case clearAllGraphs => exact h.extends clearAllGraphs_extends
  case removeNamedGraph => exact h.extends (clearList_extends.trans change_extends)
  case removeAllNamedGraphs =>
    exact h.extends (clearAllNamedGraphs_extends.trans doRemoveGraphs_extends)
  case clear => exact h.extends (clearAllGraphs_extends.trans doRemoveGraphs_extends)

theorem commit_extends : Extends t.storage t.commit := by
  have h : Extends t.storage (t.log.foldl t.upgradeEntry t.storage) :=
    Extends.foldl (g := id) (fun _ _ => .modify) t.storage t.log
  exact { h with }

theorem rollback_extends : Extends t.storage t.rollback :=
  Extends.foldl (g := id) (fun _ _ => .modify) t.storage t.log

end MemoryStorageTransaction

namespace MemoryStorage

variable {s : MemoryStorage} {enc : Encoder}

-- A transaction keeps the structure, no matter how it ends.
theorem WellFormed.transact (h : s.WellFormed enc) (txn : List ReadableOp × Bool) :
    (s.transact enc txn).WellFormed enc := by
  have ht : WellFormed enc
      (txn.1.foldl (fun t op => t.apply enc op) s.startTransaction).storage := by
    have h : s.startTransaction.storage.WellFormed enc := h.extends { Extends.refl (s := s) with }
    generalize s.startTransaction = t at h ⊢
    induction txn.1 generalizing t
    case nil => exact h
    case cons op ops hi => exact hi _ (MemoryStorageTransaction.apply_wellFormed h op)
  unfold MemoryStorage.transact
  dsimp only
  split
  case isTrue => exact ht.extends MemoryStorageTransaction.commit_extends
  case isFalse => exact ht.extends MemoryStorageTransaction.rollback_extends

end MemoryStorage

namespace Content

variable {content : Content}

-- The loop along the references visits the nodes of the list, in order.
theorem Coherent.walk {kind : QuadIteratorKind} {check : EncodedQuad → QuadListNode → Check Unit}
    {p : QuadListNode → Bool} (h : content.Coherent) (hp : ∀ {a}, p a → kind.same a = p)
    (hc : ∀ a ∈ content.quadSet, p a → check a.quad a = pure ())
    (hn : Chain.At QuadListNode.quad p content.quadSet next nodes) (hf : nodes.length < fuel) :
    content.walk kind check fuel next = pure ((nodes.filter p).map QuadListNode.quad) := by
  induction fuel generalizing next nodes
  case zero => omega
  case succ fuel hi =>
    rcases hn.step h.nodup (h.linked kind) hp with ⟨rfl, he⟩ | hs
    case inl => rw [he]; rfl
    case inr =>
      obtain ⟨reference, a, nodes', rfl, hg, ha, he, hl, hn'⟩ := hs
      obtain ⟨hm, rfl⟩ := Keyed.mem_of_get hg
      have hg : content.node a.quad = some a := hg
      simp only [Content.walk, hg, hc a hm ha, hi hn' (by omega), he]
      rfl

theorem Coherent.holdsNode (h : content.Coherent) (ha : a ∈ content.quadSet) :
    content.holdsNode a.quad a := by
  have hg : content.node a.quad = some a := Keyed.get_of_mem h.nodup ha
  simp [Content.holdsNode, hg]

theorem Coherent.checkInSet (h : content.Coherent) (ha : a ∈ content.quadSet) :
    content.checkInSet a.quad a = pure () := by
  rw [Content.checkInSet, if_pos (h.holdsNode ha)]

theorem Coherent.walk_by {check : EncodedQuad → QuadListNode → Check Unit} (h : content.Coherent)
    (p : Position) (term : EncodedTerm)
    (hc : ∀ a ∈ content.quadSet, a.quad.term p = term → check a.quad a = pure ())
    (hf : content.quadSet.length < fuel) :
    content.walk (.position p) check fuel
        ((content.nodesBy p term).head?.map QuadListNode.quad) =
      pure ((content.nodesBy p term).map QuadListNode.quad) := by
  refine h.walk (p := fun a => a.quad.term p = term) ?_ (fun a hm ha => hc a hm (by simpa using ha))
    ⟨List.suffix_refl _, ?_⟩ hf
  · intro a ha
    funext b
    simp only [decide_eq_true_eq] at ha
    simp [QuadIteratorKind.same, ha, eq_comm]
  · rw [← List.head?_filter]
    rfl

theorem Coherent.checkInList (h : content.Coherent) (ha : a ∈ content.quadSet)
    (ht : a.quad.term p = term) : content.checkInList p term a.quad a = pure () := by
  simp [Content.checkInList, ht, EncodedTerm.eq_self, h.checkInSet ha]

theorem Coherent.walk_all {check : EncodedQuad → QuadListNode → Check Unit} (h : content.Coherent)
    (hc : ∀ a ∈ content.quadSet, check a.quad a = pure ())
    (hf : content.quadSet.length < fuel) :
    content.walk .all check fuel content.lastQuad = pure content.quads := by
  have hl : content.lastQuad = (content.quadSet.find? fun _ => true).map QuadListNode.quad := by
    rw [h.last]
    cases content.quadSet <;> rfl
  rw [h.walk (fun _ => rfl) (fun a ha _ => hc a ha) ⟨List.suffix_refl _, hl⟩ hf]
  simp [quads]

-- Elements are counted by their keys.
theorem sum_countP {l : List QuadListNode} {f : QuadListNode → EncodedTerm}
    {keys : List EncodedTerm} (hk : keys.Nodup) :
    (keys.map fun k => l.countP (f · = k)).sum = l.countP (f · ∈ keys) := by
  induction keys
  case nil => simp
  case cons k keys hi =>
    obtain ⟨hn, hk⟩ := List.nodup_cons.mp hk
    rw [List.map_cons, List.sum_cons, hi hk]
    clear hi
    induction l
    case nil => rfl
    case cons a l hl =>
      have hne : f a = k → f a ∉ keys := fun he => he ▸ hn
      simp only [List.countP_cons, List.mem_cons, decide_eq_true_eq] at hl ⊢
      split_ifs <;> first | omega | tauto

-- The keys of a map, in any order.
structure Enumerates (content : Content) (keys : Position → List EncodedTerm) : Prop where
  nodup    : ∀ p, (keys p).Nodup
  mem_iff  : ∀ p term, term ∈ keys p ↔ (content.lastQuadBy p term).isSome

theorem Coherent.isSome_lastQuadBy (h : content.Coherent) :
    (content.lastQuadBy p term).isSome ↔ ∃ q ∈ content.quads, q.term p = term := by
  rw [h.lastBy, Option.isSome_map, List.isSome_head?, nodesBy, ← List.length_pos_iff,
    ← List.countP_eq_length_filter, List.countP_pos_iff]
  simp [quads]

theorem Coherent.enumerates (h : content.Coherent) :
    content.Enumerates fun p => (content.quads.map (·.term p)).dedup where
  nodup p        := List.nodup_dedup _
  mem_iff p term := by
    rw [List.mem_dedup, List.mem_map, h.isSome_lastQuadBy]

theorem Coherent.validateEntry (h : content.Coherent) (hf : content.quadSet.length < fuel)
    (hk : (content.lastQuadBy p term).isSome) (total : ℕ) :
    content.validateEntry p fuel total term =
      pure (total + content.quadSet.countP (·.quad.term p = term)) := by
  obtain ⟨⟨start, count⟩, hl⟩ := Option.isSome_iff_exists.mp hk
  obtain ⟨node, hh, he⟩ := Option.map_eq_some_iff.mp ((h.lastBy p term).symm.trans hl)
  obtain ⟨rfl, rfl⟩ := Prod.mk.inj he
  have hw := h.walk_by p term (fun a ha => h.checkInList ha) hf
  rw [hh, Option.map_some] at hw
  simp only [Content.validateEntry, hl, hw, pure_bind, List.length_map, ne_eq, not_true_eq_false,
    if_false, List.countP_eq_length_filter, nodesBy]

theorem Coherent.validateEntries (h : content.Coherent) (hf : content.quadSet.length < fuel)
    {keys : List EncodedTerm} (hk : ∀ term ∈ keys, (content.lastQuadBy p term).isSome)
    (total : ℕ) : keys.foldlM (content.validateEntry p fuel) total =
      pure (total + (keys.map fun k => content.quadSet.countP (·.quad.term p = k)).sum) := by
  induction keys generalizing total
  case nil => rfl
  case cons term keys hi =>
    rw [List.foldlM_cons, h.validateEntry hf (hk term List.mem_cons_self), pure_bind,
      hi fun t ht => hk t (List.mem_cons_of_mem _ ht), List.map_cons, List.sum_cons, Nat.add_assoc]

theorem Coherent.validateBy (h : content.Coherent) (hf : content.quadSet.length < fuel)
    (hk : content.Enumerates keys) :
    content.validateBy p fuel (keys p) = pure content.quadSet.length := by
  rw [Content.validateBy, h.validateEntries hf fun term ht => (hk.mem_iff p term).mp ht,
    sum_countP (hk.nodup p), Nat.zero_add]
  congr 1
  refine List.countP_eq_length.mpr fun a ha => decide_eq_true ?_
  exact (hk.mem_iff p _).mpr <| h.isSome_lastQuadBy.mpr ⟨a.quad, List.mem_map_of_mem ha, rfl⟩

end Content

namespace MemoryStorage

variable {s : MemoryStorage} {enc : Encoder} {print : Printer}

theorem Holds.decodes (h : Holds enc s q) (print : Printer) :
    ∃ quad, s.strLookup.decodeQuad print q = .ok quad := by
  obtain ⟨quad, rfl⟩ := h.encoded
  exact StrLookup.decodeQuad_of_knows print h.knows

theorem WellFormed.checkQuad (h : s.WellFormed enc) (ha : a ∈ s.content.quadSet) :
    s.checkQuad print a.quad a = pure () := by
  have hq := h.holds a.quad (List.mem_map_of_mem ha)
  obtain ⟨decoded, hd⟩ := hq.decodes print
  have hg : (!a.quad.graphName.isDefaultGraph && (s.content.graph a.quad.graphName).isNone) =
      false := by
    rcases hq.graph with hg | hg
    · simp [hg, EncodedTerm.isDefaultGraph]
    · have := Content.graph_isSome.mpr hg
      simp_all
  simp only [MemoryStorage.checkQuad, h.coherent.checkInSet ha, hd, hg, Bool.false_eq_true,
    if_false]
  rfl

theorem WellFormed.validate (h : s.WellFormed enc) (hf : s.content.quadSet.length < fuel)
    (hk : s.content.Enumerates keys) : s.validate print fuel keys = pure () := by
  have hw : s.content.walk .all (s.checkQuad print) fuel s.content.lastQuad = _ :=
    h.coherent.walk_all (fun a ha => h.checkQuad ha) hf
  simp [MemoryStorage.validate, hw, h.coherent.validateBy hf hk, Content.quads]

-- What it means that the storage is valid. The lists are read along their references.
structure Intact (s : MemoryStorage) (print : Printer) : Prop where
  nodup  : s.content.quads.Nodup
  all    : ∀ fuel > s.content.quadSet.length,
    s.content.walk .all (fun _ _ => pure ()) fuel s.content.lastQuad = pure s.content.quads
  byTerm : ∀ p term, ∀ fuel > s.content.quadSet.length,
    s.content.walk (.position p) (fun _ _ => pure ()) fuel
        ((s.content.lastQuadBy p term).map Prod.fst) =
      pure (s.content.quads.filter (·.term p = term))
  count  : ∀ p term, ((s.content.lastQuadBy p term).map Prod.snd).getD 0 =
    (s.content.quads.filter (·.term p = term)).length
  graph  : ∀ q ∈ s.content.quads, q.graphName ≠ .defaultGraph →
    (s.content.graph q.graphName).isSome
  decode : ∀ q ∈ s.content.quads, ∃ quad, s.strLookup.decodeQuad print q = .ok quad

theorem WellFormed.intact (h : s.WellFormed enc) (print : Printer) : s.Intact print := by
  have hby : ∀ p term, s.content.quads.filter (·.term p = term) =
      (s.content.nodesBy p term).map QuadListNode.quad := by
    intro p term
    rw [Content.quads, List.filter_map]
    rfl
  refine ⟨h.coherent.nodup, fun fuel hf => h.coherent.walk_all (fun _ _ => rfl) hf,
    fun p term fuel hf => ?_, fun p term => ?_, fun q hq hn => ?_, fun q hq => ?_⟩
  · rw [h.coherent.lastBy, Option.map_map, hby]
    exact h.coherent.walk_by p term (fun _ _ _ => rfl) hf
  · rw [h.coherent.lastBy, hby, List.length_map]
    cases s.content.nodesBy p term <;> rfl
  · exact Content.graph_isSome.mpr ((h.holds q hq).graph.resolve_left hn)
  · exact (h.holds q hq).decodes print

-- The internal structure is valid after any sequence of transactions, committed or dropped.
theorem validate_transactions (enc : Encoder) (print : Printer)
    (txns : List (List ReadableOp × Bool)) :
    let s := Run.run (MemoryStorage.transact enc) .new txns
    s.Intact print ∧ (∃ keys, s.content.Enumerates keys) ∧
      ∀ keys, s.content.Enumerates keys →
        ∀ fuel > s.content.quadSet.length, s.validate print fuel keys = pure () := by
  intro s
  have h : s.WellFormed enc := Run.stays (fun h => h.transact _) wellFormed_new
  exact ⟨h.intact print, ⟨_, h.coherent.enumerates⟩, fun keys hk fuel hf => h.validate hf hk⟩

-- A quad in a named graph is inserted, and the insertion of another one is dropped.
def sampleTransactions : List (List ReadableOp × Bool) :=
  let quad (object : String) : Quad := {
    subject   := .namedNode "a"
    predicate := "p"
    object    := .literal (.string object)
    graphName := .namedNode "g" }
  [([.insert (quad "1")], true), ([.insert (quad "2"), .remove (quad "1")], false)]

theorem validate_transactions_sample :
    let s := Run.run (MemoryStorage.transact .plain) .new sampleTransactions
    s.content.quadSet.length = 2 ∧ ∃ keys, s.validate .plain 3 keys = pure () := by
  intro s
  have hl : s.content.quadSet.length = 2 := by decide +kernel
  obtain ⟨-, ⟨keys, hk⟩, h⟩ := validate_transactions .plain .plain sampleTransactions
  exact ⟨hl, keys, h keys hk 3 (by rw [hl]; decide)⟩

end MemoryStorage

end Memory
