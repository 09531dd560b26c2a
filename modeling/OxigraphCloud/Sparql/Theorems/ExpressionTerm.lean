import OxigraphCloud.Objects.Theorems.Decoder
import OxigraphCloud.Sparql.ExpressionTerm

-- Effective boolean values of encoded terms against those of the terms themselves.
open Rdf

namespace Encoder

variable {enc : Encoder}

theorem nativeEncoding_typed (hd : datatype ≠ "http://www.w3.org/2001/XMLSchema#string") :
    enc.nativeEncoding (.typedLiteral value datatype) = enc.parseNative datatype value := by
  unfold nativeEncoding
  simp only [Literal.datatype, Literal.value, Literal.language]
  split
  case h_1 => rfl
  case h_2 => rfl
  case h_3 => contradiction
  case h_4 => rfl

end Encoder

namespace DatasetView

open ExpressionTerm

variable {enc : Encoder} {print : Printer} {lookup : StrLookup}

-- Both representations of values have the same effective boolean value.
theorem externalize_native (h : enc.parseNative datatype value = some encoded) :
    ∃ e, externalizeExpressionTerm enc print lookup encoded = .ok e ∧
      e.effectiveBooleanValue = internalTermEffectiveBooleanValue encoded := by
  have hn := Encoder.isNative_of_parseNative h
  cases encoded
  all_goals first
    | exact ⟨_, rfl, rfl⟩
    | cases hn

theorem map_eq_none_of_map {f : α → β} {g : α → γ} {o : Option α} (h : o.map f = none) :
    o.map g = none :=
  Option.map_eq_none_iff.mpr (Option.map_eq_none_iff.mp h)

-- The types that are stored by value are those that are parsed in expressions.
theorem parseTypedLiteral_of_native (h : enc.parseNative datatype value = none)
    (hd : datatype ≠ "http://www.w3.org/2001/XMLSchema#string") :
    parseTypedLiteral enc value datatype = none := by
  unfold parseTypedLiteral
  split
  case h_1 => contradiction
  case h_2 =>
    revert h
    unfold Encoder.parseNative
    cases NativeType.ofDatatype datatype
    case none => exact fun _ => rfl
    case some type => cases type <;> exact map_eq_none_of_map

-- The encoded terms that are neither values nor triples.
def isText : EncodedTerm → Bool
  | .namedNode _ | .numericalBlankNode _ | .smallBlankNode _ | .bigBlankNode _
  | .smallStringLiteral _ | .bigStringLiteral _ | .smallTypedLiteral _ _ | .bigTypedLiteral _ _
  | .smallSmallLangStringLiteral _ _ | .smallBigLangStringLiteral _ _
  | .bigSmallLangStringLiteral _ _ | .bigBigLangStringLiteral _ _
  | .ltrSmallSmallDirLangStringLiteral _ _ | .ltrSmallBigDirLangStringLiteral _ _
  | .ltrBigSmallDirLangStringLiteral _ _ | .ltrBigBigDirLangStringLiteral _ _
  | .rtlSmallSmallDirLangStringLiteral _ _ | .rtlSmallBigDirLangStringLiteral _ _
  | .rtlBigSmallDirLangStringLiteral _ _ | .rtlBigBigDirLangStringLiteral _ _ => true
  | _ => false

theorem externalize_text (ht : isText encoded) (h : lookup.decodeTerm print encoded = .ok term) :
    externalizeExpressionTerm enc print lookup encoded = .ok (ofTerm enc term) := by
  have he : externalizeExpressionTerm enc print lookup encoded =
      (lookup.decodeTerm print encoded).map (ofTerm enc) := by
    cases encoded <;> first | rfl | cases ht
  rw [he, h]
  rfl

theorem isText_blankNode (node : BlankNode) : isText (enc.encodeBlankNode node) := by
  unfold Encoder.encodeBlankNode
  split
  · rfl
  · split <;> rfl

theorem isText_string (value : String) : isText (enc.encodeString value) := by
  unfold Encoder.encodeString
  split <;> rfl

-- The strings that do not fit in an encoded term.
def IsBigString (term : Term) : Prop :=
  ∃ literal, term = .literal literal ∧
    literal.datatype = "http://www.w3.org/2001/XMLSchema#string" ∧
    15 < (SmallString.strBytes literal.value).length

theorem isEmpty_strBytes (value : String) :
    (SmallString.strBytes value).isEmpty = value.isEmpty := by
  rw [Bool.eq_iff_iff, List.isEmpty_iff_length_eq_zero, String.isEmpty_iff]
  rw [← String.utf8ByteSize_eq_zero_iff]
  rfl

theorem internal_string (value : String) :
    internalTermEffectiveBooleanValue (enc.encodeString value) = some !value.isEmpty ↔
      (SmallString.strBytes value).length ≤ 15 := by
  unfold Encoder.encodeString
  split
  case h_1 s hs =>
    rw [internalTermEffectiveBooleanValue, SmallString.asBytes_of_fromStr hs, isEmpty_strBytes]
    apply iff_of_true rfl
    by_contra hl
    simp [SmallString.fromStr, hl] at hs
  case h_2 hs =>
    have hl : ¬(SmallString.strBytes value).length ≤ 15 := by
      intro hl
      simp [SmallString.fromStr, hl] at hs
    apply iff_of_false _ hl
    rw [internalTermEffectiveBooleanValue, ← isEmpty_strBytes, List.isEmpty_eq_false_iff.mpr]
    · simp
    · intro hn
      simp [hn] at hl

-- Terms that are not stored by value can be looked up.
theorem externalize_literal (h : lookup.Holds (.literal literal) (enc.encodeLiteral literal)) :
    ∃ e, externalizeExpressionTerm enc print lookup (enc.encodeLiteral literal) = .ok e ∧
      (e.effectiveBooleanValue = internalTermEffectiveBooleanValue (enc.encodeLiteral literal) ↔
        ¬IsBigString (.literal literal)) := by
  by_cases hd : literal.datatype = "http://www.w3.org/2001/XMLSchema#string"
  case pos =>
    have hn : enc.encodeLiteral literal = enc.encodeString literal.value := by
      simp [Encoder.encodeLiteral, Encoder.nativeEncoding, hd]
    have hb : IsBigString (.literal literal) ↔
        15 < (SmallString.strBytes literal.value).length := by simp [IsBigString, hd]
    rw [hn] at h ⊢
    refine ⟨_, externalize_text (isText_string _) h.decodeTerm_string, ?_⟩
    rw [hb, not_lt, ← internal_string, eq_comm]
    rfl
  case neg =>
    have hb : ¬IsBigString (.literal literal) := by simp [IsBigString, hd]
    simp only [iff_true_right hb]
    cases literal
    case string => exact absurd rfl hd
    case languageTaggedString value language =>
      have hn : enc.encodeLiteral (.languageTaggedString value language) =
          enc.encodeLangString value language := by
        simp [Encoder.encodeLiteral, Encoder.nativeEncoding, Literal.datatype, Literal.language,
          Literal.value]
      rw [hn] at h ⊢
      have ht : isText (enc.encodeLangString value language) ∧
          internalTermEffectiveBooleanValue (enc.encodeLangString value language) = none := by
        unfold Encoder.encodeLangString
        split <;> exact ⟨rfl, rfl⟩
      exact ⟨_, externalize_text ht.1 (h.decodeTerm_langString rfl), ht.2.symm⟩
    case directionalLanguageTaggedString value language direction =>
      have hn : enc.encodeLiteral (.directionalLanguageTaggedString value language direction) =
          enc.encodeDirLangString value language direction := by
        simp [Encoder.encodeLiteral, Encoder.nativeEncoding, Literal.datatype, Literal.language,
          Literal.value, Literal.direction]
      rw [hn] at h ⊢
      have ht : isText (enc.encodeDirLangString value language direction) ∧
          internalTermEffectiveBooleanValue
            (enc.encodeDirLangString value language direction) = none := by
        unfold Encoder.encodeDirLangString
        split <;> split <;> exact ⟨rfl, rfl⟩
      exact ⟨_, externalize_text ht.1 (h.decodeTerm_dirLangString rfl), ht.2.symm⟩
    case typedLiteral value datatype =>
      have hd : datatype ≠ "http://www.w3.org/2001/XMLSchema#string" := hd
      rw [Encoder.encodeLiteral, Encoder.nativeEncoding_typed hd] at h ⊢
      cases hp : enc.parseNative datatype value
      case some encoded => exact externalize_native hp
      case none =>
        rw [hp] at h
        have ht : isText (enc.encodeTyped value datatype) ∧
            internalTermEffectiveBooleanValue (enc.encodeTyped value datatype) = none := by
          unfold Encoder.encodeTyped
          split <;> exact ⟨rfl, rfl⟩
        refine ⟨_, externalize_text ht.1 h.decodeTerm_typed, Eq.trans ?_ ht.2.symm⟩
        simp only [Literal.datatype, Literal.value, Literal.newTypedLiteral, hd, if_false, ofTerm,
          ofLiteral, parseTypedLiteral_of_native hp hd]
        rfl

theorem externalize_namedNode (print : Printer)
    (h : lookup.Holds (.namedNode node) (enc.encodeNamedNode node)) :
    externalizeExpressionTerm enc print lookup (enc.encodeNamedNode node) = .ok (namedNode node) :=
  externalize_text rfl h.decodeTerm_namedNode

theorem externalize_blankNode (print : Printer)
    (h : lookup.Holds (.blankNode node) (enc.encodeBlankNode node)) :
    ∃ node', externalizeExpressionTerm enc print lookup (enc.encodeBlankNode node) =
      .ok (blankNode node') :=
  ⟨_, externalize_text (isText_blankNode _) h.decodeTerm_blankNode⟩

-- Nodes and triples have no effective boolean value.
theorem externalize_term (print : Printer) (t : Term) (h : lookup.Holds t (enc.encodeTerm t)) :
    ∃ e, externalizeExpressionTerm enc print lookup (enc.encodeTerm t) = .ok e ∧
      (e.effectiveBooleanValue = internalTermEffectiveBooleanValue (enc.encodeTerm t) ↔
        ¬IsBigString t) := by
  induction t
  case literal => exact externalize_literal h
  case namedNode node =>
    exact ⟨_, externalize_namedNode print h, iff_of_true rfl nofun⟩
  case blankNode node =>
    have ⟨node', he⟩ := externalize_blankNode print h
    have hi : internalTermEffectiveBooleanValue (enc.encodeBlankNode node) = none := by
      unfold Encoder.encodeBlankNode
      split
      · rfl
      · split <;> rfl
    exact ⟨_, he, iff_of_true hi.symm nofun⟩
  case triple subject predicate object ho =>
    have ⟨h₁, h₂, h₃⟩ := h.triple
    have ⟨e, he, _⟩ := ho h₃
    have hp := externalize_namedNode print h₂
    have hs : ∃ e, (∀ object, ∃ t, newTriple e (namedNode predicate) object = some t ∧
        t.effectiveBooleanValue = none) ∧
        externalizeExpressionTerm enc print lookup (enc.encodeNamedOrBlankNode subject) =
          .ok e := by
      cases subject
      case namedNode => exact ⟨_, fun _ => ⟨_, rfl, rfl⟩, externalize_namedNode print h₁⟩
      case blankNode =>
        have ⟨_, he⟩ := externalize_blankNode print h₁
        exact ⟨_, fun _ => ⟨_, rfl, rfl⟩, he⟩
    have ⟨s, hs, hse⟩ := hs
    have ⟨t, ht, hn⟩ := hs e
    refine ⟨t, ?_, iff_of_true hn nofun⟩
    simp only [Encoder.encodeTerm, externalizeExpressionTerm, hse, hp, he, bind, Except.bind, ht]
    rfl

-- A big string is not empty, but its effective boolean value is false in the storage.
theorem effectiveBooleanValue_iff (print : Printer) (t : Term)
    (h : lookup.Holds t (enc.encodeTerm t)) :
    (externalizeExpressionTerm enc print lookup (enc.encodeTerm t)).map effectiveBooleanValue =
      .ok (internalTermEffectiveBooleanValue (enc.encodeTerm t)) ↔ ¬IsBigString t := by
  have ⟨e, he, hi⟩ := externalize_term print t h
  rw [he, ← hi, Except.map, Except.ok.injEq]

theorem effectiveBooleanValue_small :
    (externalizeExpressionTerm .plain .plain (fun _ => .ok none)
      (Encoder.plain.encodeTerm (.literal (.string "true")))).map effectiveBooleanValue =
        .ok (internalTermEffectiveBooleanValue
          (Encoder.plain.encodeTerm (.literal (.string "true")))) := by
  apply (effectiveBooleanValue_iff .plain (.literal (.string "true")) ⟨[], rfl, nofun⟩).mpr
  rintro ⟨_, h, _, hl⟩
  cases h
  exact absurd hl (by decide +kernel)

theorem effectiveBooleanValue_big :
    let t : Term := .literal (.string "sixteen letters!")
    let lookup : StrLookup := fun _ => .ok (some "sixteen letters!")
    lookup.Holds t (Encoder.plain.encodeTerm t) ∧
    (externalizeExpressionTerm .plain .plain lookup (Encoder.plain.encodeTerm t)).map
      effectiveBooleanValue = .ok (some true) ∧
    internalTermEffectiveBooleanValue (Encoder.plain.encodeTerm t) = some false := by
  refine ⟨⟨_, rfl, ?_⟩, rfl, rfl⟩
  simp [Literal.value]

end DatasetView
