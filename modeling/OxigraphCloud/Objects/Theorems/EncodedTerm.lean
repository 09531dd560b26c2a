import OxigraphCloud.Objects.EncodedTerm

open Rdf

@[simp]
theorem EncodedTerm.isDefaultGraph_iff {t : EncodedTerm} :
    t.isDefaultGraph ↔ t = .defaultGraph := by
  cases t <;> simp [isDefaultGraph]

@[simp]
theorem Rdf.GraphName.isDefaultGraph_iff {graphName : GraphName} :
    graphName.isDefaultGraph ↔ graphName = .defaultGraph := by
  cases graphName <;> simp [isDefaultGraph]

-- `insert_term` stores exactly the strings that have to be looked up to decode the term again.
structure Registers (term : Term) (encoded : EncodedTerm) : Prop where
  isTerm  : encoded.IsTerm
  strings : ∃ strs, insertTerm term encoded = some strs ∧ strs.map Prod.fst = encoded.strIds

-- The literals that are stored by value.
def EncodedTerm.isNative : EncodedTerm → Bool
  | .booleanLiteral _ | .floatLiteral _ | .doubleLiteral _ | .integerLiteral _ | .decimalLiteral _
  | .dateTimeLiteral _ | .timeLiteral _ | .dateLiteral _ | .gYearMonthLiteral _ | .gYearLiteral _
  | .gMonthDayLiteral _ | .gDayLiteral _ | .gMonthLiteral _ | .durationLiteral _
  | .yearMonthDurationLiteral _ | .dayTimeDurationLiteral _ => true
  | _ => false

namespace Encoder

variable {enc : Encoder}

theorem registers_namedNode : Registers (.namedNode node) (enc.encodeNamedNode node) where
  isTerm  := trivial
  strings := ⟨_, rfl, rfl⟩

theorem registers_blankNode : Registers (.blankNode node) (enc.encodeBlankNode node) := by
  unfold encodeBlankNode
  split
  case h_1 => exact ⟨trivial, _, rfl, rfl⟩
  case h_2 => split <;> exact ⟨trivial, _, rfl, rfl⟩

theorem registers_namedOrBlankNode :
    (node : NamedOrBlankNode) → Registers node.toTerm (enc.encodeNamedOrBlankNode node)
  | .namedNode _ => registers_namedNode
  | .blankNode _ => registers_blankNode

theorem isNative_of_parseNative (h : enc.parseNative datatype value = some t) : t.isNative := by
  obtain ⟨type, -, h⟩ := Option.bind_eq_some_iff.mp h
  cases type
  all_goals
    obtain ⟨_, _, rfl⟩ := Option.map_eq_some_iff.mp h
    rfl

theorem registers_native {literal : Literal} (h : enc.parseNative datatype value = some t) :
    Registers (.literal literal) t := by
  have hn := isNative_of_parseNative h
  cases t
  all_goals first
    | exact ⟨trivial, _, rfl, rfl⟩
    | cases hn

theorem registers_langString {literal : Literal} (h : literal.language = some language) :
    Registers (.literal literal) (enc.encodeLangString literal.value language) := by
  unfold encodeLangString
  split <;> exact ⟨trivial, by simp [insertTerm, EncodedTerm.strIds, h]⟩

theorem registers_dirLangString {literal : Literal} (h : literal.language = some language) :
    Registers (.literal literal) (enc.encodeDirLangString literal.value language direction) := by
  unfold encodeDirLangString
  split <;> split <;> exact ⟨trivial, by simp [insertTerm, EncodedTerm.strIds, h]⟩

theorem registers_string {literal : Literal} :
    Registers (.literal literal) (enc.encodeString value) := by
  unfold encodeString
  split <;> exact ⟨trivial, _, rfl, rfl⟩

theorem registers_typed {literal : Literal} :
    Registers (.literal literal) (enc.encodeTyped value datatype) := by
  unfold encodeTyped
  split <;> exact ⟨trivial, _, rfl, rfl⟩

theorem registers_literal : Registers (.literal literal) (enc.encodeLiteral literal) := by
  unfold encodeLiteral
  cases h : enc.nativeEncoding literal
  case none => exact registers_typed
  case some t =>
    unfold nativeEncoding at h
    split at h
    case h_1 =>
      have ⟨_, hl, h⟩ := Option.map_eq_some_iff.mp h
      exact h ▸ registers_langString hl
    case h_2 =>
      have ⟨_, hl, h⟩ := Option.bind_eq_some_iff.mp h
      have ⟨_, _, h⟩ := Option.bind_eq_some_iff.mp h
      exact Option.some.inj h ▸ registers_dirLangString hl
    case h_3 => exact Option.some.inj h ▸ registers_string
    case h_4 => exact registers_native h

theorem registers_term : (term : Term) → Registers term (enc.encodeTerm term)
  | .namedNode _ => registers_namedNode
  | .blankNode _ => registers_blankNode
  | .literal _   => registers_literal
  | .triple s p o => by
    have ⟨hs, _, hs₁, hs₂⟩ : Registers _ (enc.encodeNamedOrBlankNode s) :=
      registers_namedOrBlankNode s
    have ⟨hp, _, hp₁, hp₂⟩ : Registers _ (enc.encodeNamedNode p) := registers_namedNode
    have ⟨ho, _, ho₁, ho₂⟩ := registers_term o
    refine ⟨⟨hs, hp, ho⟩, ?_⟩
    simp [encodeTerm, insertTerm, EncodedTerm.strIds, hs₁, hp₁, ho₁, hs₂, hp₂, ho₂]

@[simp]
theorem encodeGraphName_eq_defaultGraph {graphName : GraphName} :
    enc.encodeGraphName graphName = .defaultGraph ↔ graphName = .defaultGraph := by
  cases graphName <;> simp only [encodeGraphName, reduceCtorEq, iff_false]
  case namedNode => exact fun h => nomatch h
  case blankNode node =>
    have ht : (enc.encodeBlankNode node).IsTerm := registers_blankNode.isTerm
    exact fun h => by simp [h, EncodedTerm.IsTerm] at ht

theorem isTerm_encodeGraphName (graphName : GraphName)
    (h : enc.encodeGraphName graphName ≠ .defaultGraph) :
    (enc.encodeGraphName graphName).IsTerm := by
  cases graphName
  case namedNode => exact registers_namedNode.isTerm
  case blankNode => exact registers_blankNode.isTerm
  case defaultGraph => exact absurd rfl h

theorem isQuad_encodeQuad (quad : Quad) : (enc.encodeQuad quad).IsQuad where
  subject   := (registers_namedOrBlankNode _).isTerm
  predicate := registers_namedNode.isTerm
  object    := (registers_term _).isTerm
  graphName := enc.isTerm_encodeGraphName quad.graphName

end Encoder
