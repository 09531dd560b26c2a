import OxigraphCloud.Objects.Decoder
import OxigraphCloud.Objects.Theorems.EncodedTerm

open Rdf

-- As for the encoder, the equations with a case for each kind of term are derived once.
section
attribute [local simp] insertTerm StrLookup.decodeTerm
end

namespace SmallString

theorem asBytes_of_fromStr (h : fromStr value = .ok s) : s.asBytes = strBytes value := by
  unfold fromStr at h
  split at h
  case isTrue hl =>
    cases h
    simp only [asBytes, List.Vector.toList_mk, lenByte_pad hl, take_pad]
  case isFalse => cases h

theorem asStr_of_fromStr (h : fromStr value = .ok s) : s.asStr = value := by
  apply String.toByteArray_inj.mp
  simp only [asStr, asBytes_of_fromStr h, strBytes]
  rfl

end SmallString

namespace StrLookup

variable {lookup : StrLookup} {enc : Encoder} {print : Printer}

-- The strings that are stored with a term can be looked up.
def Holds (lookup : StrLookup) (term : Term) (encoded : EncodedTerm) : Prop :=
  ∃ strs, insertTerm term encoded = some strs ∧ ∀ str ∈ strs, lookup str.1 = .ok (some str.2)

theorem Holds.triple (h : lookup.Holds (.triple s p o) (.triple s' p' o')) :
    lookup.Holds s.toTerm s' ∧ lookup.Holds (.namedNode p) p' ∧ lookup.Holds o o' := by
  have ⟨_, hs, h⟩ := h
  have ⟨strs₁, h₁, hs⟩ := Option.bind_eq_some_iff.mp hs
  have ⟨strs₂, h₂, hs⟩ := Option.bind_eq_some_iff.mp hs
  have ⟨strs₃, h₃, hs⟩ := Option.bind_eq_some_iff.mp hs
  cases hs
  simp only [List.forall_mem_append] at h
  exact ⟨⟨strs₁, h₁, h.1.1⟩, ⟨strs₂, h₂, h.1.2⟩, ⟨strs₃, h₃, h.2⟩⟩

theorem getRequiredStr_of {id : StrHash} (h : lookup id = .ok (some str)) :
    lookup.getRequiredStr id = .ok str := by
  rw [getRequiredStr, h]
  rfl

theorem Holds.decodeTerm_namedNode (h : lookup.Holds (.namedNode node) (enc.encodeNamedNode node)) :
    lookup.decodeTerm print (enc.encodeNamedNode node) = .ok (.namedNode node) := by
  have ⟨_, hs, h⟩ := h
  cases hs
  have hn := getRequiredStr_of <| h _ (List.mem_singleton_self _)
  rw [Encoder.encodeNamedNode, decodeTerm, hn]
  rfl

-- The identifier may be a number.
theorem Holds.decodeTerm_blankNode (h : lookup.Holds (.blankNode node) (enc.encodeBlankNode node)) :
    lookup.decodeTerm print (enc.encodeBlankNode node) =
      .ok (.blankNode (node.uniqueId.elim (.newUnchecked node.asStr) .anonymous)) := by
  have ⟨_, hs, h⟩ := h
  unfold Encoder.encodeBlankNode at hs ⊢
  split at hs
  case h_1 hid =>
    simp only [decodeTerm, List.Vector.toList_mk, Bytes.toBitVec_ofBitVec, hid]
    rfl
  case h_2 hid =>
    rw [hid]
    split at hs
    case h_1 hv =>
      rw [decodeTerm, SmallString.asStr_of_fromStr hv]
      rfl
    case h_2 =>
      cases hs
      have hn := getRequiredStr_of <| h _ (List.mem_singleton_self _)
      rw [decodeTerm, hn]
      rfl

variable {literal : Literal}

theorem Holds.decodeTerm_string
    (h : lookup.Holds (.literal literal) (enc.encodeString literal.value)) :
    lookup.decodeTerm print (enc.encodeString literal.value) =
      .ok (.literal (.string literal.value)) := by
  have ⟨_, hs, h⟩ := h
  unfold Encoder.encodeString at hs ⊢
  split at hs
  case h_1 hv =>
    rw [decodeTerm, SmallString.asStr_of_fromStr hv]
    rfl
  case h_2 =>
    cases hs
    have hv := getRequiredStr_of <| h _ (List.mem_singleton_self _)
    rw [decodeTerm, hv]
    rfl

theorem Holds.decodeTerm_typed
    (h : lookup.Holds (.literal literal) (enc.encodeTyped literal.value literal.datatype)) :
    lookup.decodeTerm print (enc.encodeTyped literal.value literal.datatype) =
      .ok (.literal (.newTypedLiteral literal.value literal.datatype)) := by
  have ⟨_, hs, h⟩ := h
  unfold Encoder.encodeTyped at hs ⊢
  split at hs
  case h_1 hv =>
    cases hs
    have hd := getRequiredStr_of <| h _ (List.mem_singleton_self _)
    rw [decodeTerm, SmallString.asStr_of_fromStr hv, hd]
    rfl
  case h_2 =>
    cases hs
    have hv := getRequiredStr_of <| h _ (List.mem_cons_self ..)
    have hd := getRequiredStr_of <| h _ (List.mem_cons_of_mem _ (List.mem_singleton_self _))
    rw [decodeTerm, hv]
    simp only [bind, Except.bind, hd]
    rfl

theorem Holds.decodeTerm_langString (hl : literal.language = some language)
    (h : lookup.Holds (.literal literal) (enc.encodeLangString literal.value language)) :
    lookup.decodeTerm print (enc.encodeLangString literal.value language) =
      .ok (.literal (.languageTaggedString literal.value language)) := by
  have ⟨_, hs, h⟩ := h
  unfold Encoder.encodeLangString at hs ⊢
  split at hs
  case h_1 hv hlang =>
    rw [decodeTerm, SmallString.asStr_of_fromStr hv, SmallString.asStr_of_fromStr hlang]
    rfl
  case h_2 hv _ =>
    simp only [insertTerm, hl] at hs
    cases hs
    have hlang := getRequiredStr_of <| h _ (List.mem_singleton_self _)
    rw [decodeTerm, SmallString.asStr_of_fromStr hv, hlang]
    rfl
  case h_3 hlang =>
    cases hs
    have hv := getRequiredStr_of <| h _ (List.mem_singleton_self _)
    rw [decodeTerm, SmallString.asStr_of_fromStr hlang, hv]
    rfl
  case h_4 =>
    simp only [insertTerm, hl] at hs
    cases hs
    have hv := getRequiredStr_of <| h _ (List.mem_cons_self ..)
    have hlang := getRequiredStr_of <| h _ (List.mem_cons_of_mem _ (List.mem_singleton_self _))
    rw [decodeTerm, hv]
    simp only [bind, Except.bind, hlang]
    rfl

theorem Holds.decodeTerm_dirLangString (hl : literal.language = some language)
    (h : lookup.Holds (.literal literal)
      (enc.encodeDirLangString literal.value language direction)) :
    lookup.decodeTerm print (enc.encodeDirLangString literal.value language direction) =
      .ok (.literal (.directionalLanguageTaggedString literal.value language direction)) := by
  have ⟨_, hs, h⟩ := h
  unfold Encoder.encodeDirLangString at hs ⊢
  rcases direction with _ | _
  all_goals
    simp only at hs ⊢
    split at hs
    case h_1 hv hlang =>
      rw [decodeTerm, SmallString.asStr_of_fromStr hv, SmallString.asStr_of_fromStr hlang]
      rfl
    case h_2 hv _ =>
      simp only [insertTerm, hl] at hs
      cases hs
      have hlang := getRequiredStr_of <| h _ (List.mem_singleton_self _)
      rw [decodeTerm, SmallString.asStr_of_fromStr hv, hlang]
      rfl
    case h_3 hlang =>
      cases hs
      have hv := getRequiredStr_of <| h _ (List.mem_singleton_self _)
      rw [decodeTerm, SmallString.asStr_of_fromStr hlang, hv]
      rfl
    case h_4 =>
      simp only [insertTerm, hl] at hs
      cases hs
      have hv := getRequiredStr_of <| h _ (List.mem_cons_self ..)
      have hlang := getRequiredStr_of <| h _ (List.mem_cons_of_mem _ (List.mem_singleton_self _))
      rw [decodeTerm, hv]
      simp only [bind, Except.bind, hlang]
      rfl

end StrLookup
