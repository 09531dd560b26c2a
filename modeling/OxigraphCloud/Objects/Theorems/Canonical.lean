import OxigraphCloud.Objects.Theorems.Corruption

-- Which byte strings are the only ones of their term.

namespace TermField

variable {f g : TermField} {as as' bs bs' : Bytes}

theorem allAgree_single_iff (h : bs.length = f.length) (h' : bs'.length = f.length) :
    AllAgree [f] bs bs' ↔ f.Agree bs bs' := by
  rw [AllAgree, AllAgree, and_true, List.take_of_length_le h.le, List.take_of_length_le h'.le]

theorem allAgree_pair_iff (ha : as.length = f.length) (ha' : as'.length = f.length)
    (hb : bs.length = g.length) (hb' : bs'.length = g.length) :
    AllAgree [f, g] (as ++ bs) (as' ++ bs') ↔ f.Agree as as' ∧ g.Agree bs bs' := by
  rw [AllAgree, List.take_left' ha, List.take_left' ha', List.drop_left' ha, List.drop_left' ha',
    allAgree_single_iff hb hb']

-- Without small strings all bytes count.
theorem allAgree_iff_eq {fs : List TermField} (hr : text ∉ fs) (h : bs.length = TermType.width fs)
    (h' : bs'.length = TermType.width fs) : AllAgree fs bs bs' ↔ bs = bs' := by
  induction fs generalizing bs bs'
  case nil =>
    rw [TermType.width_nil, List.length_eq_zero_iff] at h h'
    exact iff_of_true trivial (h.trans h'.symm)
  case cons f fs hi =>
    rw [List.mem_cons, not_or] at hr
    rw [TermType.width_cons] at h h'
    rw [AllAgree, hi hr.2 (by rw [List.length_drop]; omega) (by rw [List.length_drop]; omega)]
    cases f
    case text => exact absurd rfl hr.1
    case raw n =>
      constructor
      · rintro ⟨ht, hd⟩
        rw [← List.take_append_drop n bs, ← List.take_append_drop n bs']
        exact congrArg₂ _ ht hd
      · rintro rfl
        exact ⟨rfl, rfl⟩

end TermField

theorem SmallString.eq_iff_agree {s s' : SmallString} :
    s.eq s' ↔ TermField.text.Agree s.toBeBytes s'.toBeBytes := by
  rw [SmallString.eq, decide_eq_true_iff]
  rfl

theorem StrHash.eq_iff_agree {id id' : StrHash} :
    id = id' ↔ (TermField.raw 16).Agree id.toBeBytes id'.toBeBytes := by
  cases id
  cases id'
  simp [TermField.Agree, toBeBytes, List.Vector.toList_injective.eq_iff]

namespace EncodedTerm

open TermField

section

variable {v v' l l' : SmallString} {i i' : StrHash}

theorem allAgree_text_iff : AllAgree [.text] v.toBeBytes v'.toBeBytes ↔ v.eq v' := by
  rw [allAgree_single_iff (by simp) (by simp), SmallString.eq_iff_agree]

theorem allAgree_textText_iff :
    AllAgree [.text, .text] (l.toBeBytes ++ v.toBeBytes) (l'.toBeBytes ++ v'.toBeBytes) ↔
      v.eq v' && l.eq l' := by
  rw [allAgree_pair_iff (by simp) (by simp) (by simp) (by simp), Bool.and_eq_true, and_comm,
    SmallString.eq_iff_agree, SmallString.eq_iff_agree]

theorem allAgree_rawText_iff :
    AllAgree [.raw 16, .text] (i.toBeBytes ++ v.toBeBytes) (i'.toBeBytes ++ v'.toBeBytes) ↔
      v.eq v' && i = i' := by
  rw [allAgree_pair_iff (by simp) (by simp) (by simp) (by simp), Bool.and_eq_true, and_comm,
    SmallString.eq_iff_agree, decide_eq_true_iff, StrHash.eq_iff_agree]

theorem allAgree_textRaw_iff :
    AllAgree [.text, .raw 16] (l.toBeBytes ++ i.toBeBytes) (l'.toBeBytes ++ i'.toBeBytes) ↔
      i = i' && l.eq l' := by
  rw [allAgree_pair_iff (by simp) (by simp) (by simp) (by simp), Bool.and_eq_true, and_comm,
    SmallString.eq_iff_agree, decide_eq_true_iff, StrHash.eq_iff_agree]

end

variable {t t' : EncodedTerm} {type type' : TermType}

theorem eq_iff_of_type_ne {type₂ : TermType} (hw : type₂.id :: bs₂ = type'.id :: bs')
    (ht : decide (type = type₂) = false) (he : t.eq t' = false) : t.eq t' ↔ type = type' ∧ P := by
  obtain rfl := TermType.id_injective (List.cons.inj hw).1
  exact iff_of_false (Bool.eq_false_iff.mp he) fun h => of_decide_eq_false ht h.1

-- Terms with small strings.
theorem eq_iff_allAgree_of_text (hw : writeTerm t = type.id :: bs)
    (hw' : writeTerm t' = type'.id :: bs') (hf : type.fields = some fs) (ht : .text ∈ fs) :
    t.eq t' ↔ type = type' ∧ AllAgree fs bs bs' := by
  have hs (h : AllAgree fs bs bs' ↔ t.eq t') (hi : type = type') :
      t.eq t' ↔ type = type' ∧ AllAgree fs bs bs' := by
    rw [h, and_iff_right hi]
  cases t
  case smallBlankNode | smallStringLiteral | smallSmallLangStringLiteral
    | ltrSmallSmallDirLangStringLiteral | rtlSmallSmallDirLangStringLiteral
    | smallBigLangStringLiteral | ltrSmallBigDirLangStringLiteral
    | rtlSmallBigDirLangStringLiteral | smallTypedLiteral | bigSmallLangStringLiteral
    | ltrBigSmallDirLangStringLiteral | rtlBigSmallDirLangStringLiteral =>
    obtain ⟨h, rfl⟩ := List.cons.inj hw
    obtain rfl := TermType.id_injective h
    cases hf
    cases t'
    case defaultGraph => cases hw'
    case booleanLiteral value => cases value <;> exact eq_iff_of_type_ne hw' rfl rfl
    all_goals first
      | exact eq_iff_of_type_ne hw' rfl rfl
      | obtain ⟨h', rfl⟩ := List.cons.inj hw'
        obtain rfl := TermType.id_injective h'
        refine hs ?_ rfl
        first
          | rw [allAgree_text_iff]
          | rw [List.append_eq, List.append_eq, allAgree_textText_iff]
          | rw [List.append_eq, List.append_eq, allAgree_rawText_iff]
          | rw [List.append_eq, List.append_eq, allAgree_textRaw_iff]
        rfl
  case defaultGraph => cases hw
  case booleanLiteral value =>
    cases value
    all_goals
      obtain rfl := TermType.id_injective (List.cons.inj hw).1
      cases hf
      cases ht
  all_goals
    obtain rfl := TermType.id_injective (List.cons.inj hw).1
    cases hf <;> simp at ht

-- All other terms are only equal to themselves.
theorem eq_iff_of_not_text (hw : writeTerm t = type.id :: bs) (hf : type.fields = some fs)
    (ht : .text ∉ fs) : t.eq t' ↔ t = t' := by
  cases t
  case triple =>
    obtain rfl := TermType.id_injective (List.cons.inj hw).1
    cases hf
  all_goals first
    | exact decide_eq_true_iff
    | obtain rfl := TermType.id_injective (List.cons.inj hw).1
      cases hf
      simp at ht

theorem eq_iff_allAgree (hw : writeTerm t = type.id :: bs) (hw' : writeTerm t' = type'.id :: bs')
    (hf : type.fields = some fs) (hf' : type'.fields = some fs')
    (hl : bs.length = TermType.width fs)
    (hl' : bs'.length = TermType.width fs') (ht : t.IsTerm) (ht' : t'.IsTerm)
    (hc : t.canonical = t) (hc' : t'.canonical = t') :
    t.eq t' ↔ type = type' ∧ AllAgree fs bs bs' := by
  by_cases htext : .text ∈ fs
  case pos => exact eq_iff_allAgree_of_text hw hw' hf htext
  case neg =>
    rw [eq_iff_of_not_text hw hf htext, ← hc, ← hc', ← writeTerm_eq_iff ht ht', hw, hw',
      List.cons.injEq, TermType.id_injective.eq_iff]
    refine and_congr_right ?_
    rintro rfl
    obtain rfl := Option.some.inj (hf.symm.trans hf')
    exact (allAgree_iff_eq htext hl hl').symm

end EncodedTerm

theorem Bytes.append_eq_append_iff {a a' b b' : Bytes} (h : a.length = a'.length) :
    a ++ b = a' ++ b' ↔ a = a' ∧ b = b' := by
  constructor
  · exact fun he => List.append_inj he h
  · rintro ⟨rfl, rfl⟩
    rfl

theorem StoredAs.unique (h : StoredAs a t) (h' : StoredAs a' t') (ha : a ++ rest = a' ++ rest') :
    t = t' ∧ rest = rest' := by
  have hr := (TermReader.readTerm_of_storedAs h rest).symm.trans
    (ha ▸ TermReader.readTerm_of_storedAs h' rest')
  exact Prod.mk.inj (Except.ok.inj hr)

theorem StoredAs.eq_of_same (h : StoredAs a t) (h' : StoredAs a t') : t = t' :=
  (h.unique h' (Eq.refl (a ++ []))).1

-- What is left behind a term is reached by reading it.
theorem Reaches.append_iff {P : Bytes → Prop} (h : StoredAs a t) :
    Reaches P (n + 1) (a ++ bs) ↔ Reaches P 1 (a ++ bs) ∨ Reaches P n bs := by
  rw [succ_iff]
  refine or_congr_right ⟨?_, fun hb => ⟨a, bs, rfl, h.termForm, hb⟩⟩
  rintro ⟨a', rest, hb, ha, hr⟩
  obtain ⟨t', h'⟩ := ha.exists_storedAs
  exact (h.unique h' hb).2 ▸ hr

theorem StoredAs.length_writeTerm (h : StoredAs a t) : (writeTerm t).length = a.length := by
  induction h
  case plain => rfl
  case triple ha hb hc => simp [writeTerm, ha, hb, hc, Nat.add_assoc]

theorem Reaches.legacy_iff {type : TermType} :
    Legacy (type.id :: bs) ↔ type = .starTriple := by
  rw [Legacy, List.head?_cons, Option.some.injEq, TermType.id_injective.eq_iff]

-- A term is written back as it was read, unless one of its triples has the type of before.
theorem StoredAs.writeTerm_eq_iff (h : StoredAs a t) (rest : Bytes) :
    writeTerm t = a ↔ ¬Reaches Reaches.Legacy 1 (a ++ rest) := by
  induction h generalizing rest
  case plain t hn ht hc =>
    obtain ⟨type, fs, bs, hw, hf, -⟩ := exists_fields_of_plain hn ht hc
    rw [hw, List.cons_append, Reaches.plain_iff hf, Reaches.legacy_iff]
    refine iff_of_true rfl ?_
    rintro rfl
    cases hf
  case triple a s b p c o type hn ha hb hc hia hib hic =>
    have hw : writeTerm (.triple s p o) = type.id :: (a ++ (b ++ c)) ↔
        type ≠ .starTriple ∧ writeTerm s = a ∧ writeTerm p = b ∧ writeTerm o = c := by
      rw [writeTerm, List.cons_append, List.cons_append, List.append_assoc, List.cons.injEq,
        TermType.id_injective.eq_iff, Bytes.append_eq_append_iff ha.length_writeTerm,
        Bytes.append_eq_append_iff hb.length_writeTerm]
      refine and_congr_left' ?_
      cases type
      case triple => exact iff_of_true rfl (by rintro ⟨⟩)
      case starTriple => exact iff_of_false (by rintro ⟨⟩) (not_not.mpr rfl)
      all_goals cases hn
    rw [hw, List.cons_append, Reaches.triple_iff hn, List.append_assoc, List.append_assoc,
      Reaches.append_iff (n := 2) ha, Reaches.append_iff (n := 1) hb, Reaches.legacy_iff, not_or,
      not_or, not_or, ← hia, ← hib, ← hic]

-- A number of terms with nothing behind them.
def TermForms : ℕ → Bytes → Prop
  | 0, bs => bs = []
  | n + 1, bs => ∃ a rest, bs = a ++ rest ∧ TermForm a ∧ TermForms n rest

theorem TermForms.append_iff (h : StoredAs a t) : TermForms (n + 1) (a ++ bs) ↔ TermForms n bs := by
  refine ⟨?_, fun hb => ⟨a, bs, rfl, h.termForm, hb⟩⟩
  rintro ⟨a', rest, hb, ha, hr⟩
  obtain ⟨t', h'⟩ := ha.exists_storedAs
  exact (h.unique h' hb).2 ▸ hr

-- The same for the keys of quads.
theorem TermReader.writeQuad_eq_iff {ps : List Position} (hp : ps.Nodup)
    (h : (ps.foldlM readInto q₀ : TermReader EncodedQuad) bs = .ok (q, rest)) :
    (∀ p ∉ ps, q.term p = q₀.term p) ∧
      (writeQuad ps q = bs ↔ ¬Reaches Reaches.Legacy ps.length bs ∧ TermForms ps.length bs) := by
  induction ps generalizing q₀ bs
  case nil =>
    cases h
    refine ⟨fun _ _ => rfl, ?_⟩
    rw [and_iff_right (by exact Reaches.not_zero)]
    exact eq_comm
  case cons p ps hi =>
    rw [List.nodup_cons] at hp
    rw [foldlM_readInto_cons] at h
    obtain ⟨t, bs', ht, h⟩ := bind_eq_ok_iff.mp h
    obtain ⟨hq, hw⟩ := hi hp.2 h
    obtain ⟨a, rfl, hs⟩ := ((decodes_readTerm bs).ok_iff t bs').mp ht
    have hpt : q.term p = t := by
      rw [hq p hp.1]
      cases p <;> rfl
    constructor
    · intro p' hp'
      rw [List.mem_cons, not_or] at hp'
      rw [hq p' hp'.2]
      cases p <;> cases p' <;> first | rfl | exact absurd rfl hp'.1
    · have hc : writeQuad (p :: ps) q = writeTerm t ++ writeQuad ps q := by
        rw [writeQuad, List.flatMap_cons, hpt]
        rfl
      rw [List.length_cons, Reaches.append_iff hs, not_or, ← hs.writeTerm_eq_iff,
        TermForms.append_iff hs, and_assoc, ← hw, hc,
        Bytes.append_eq_append_iff hs.length_writeTerm]

theorem Respells.termForm (h : Respells a b) : TermForm a ∧ TermForm b := by
  induction h
  case plain hf hl hp hl' hp' _ => exact ⟨.plain hf hl hp, .plain hf hl' hp'⟩
  case triple hn hn' _ _ _ ha hb hc => exact ⟨.triple hn ha.1 hb.1 hc.1, .triple hn' ha.2 hb.2 hc.2⟩

theorem Respells.exists_storedAs (h : Respells a b) :
    (∃ t, StoredAs a t) ∧ ∃ t, StoredAs b t :=
  h.termForm.imp TermForm.exists_storedAs TermForm.exists_storedAs

theorem EncodedTerm.triple_eq_iff : (triple s p o).eq t ↔
    ∃ s' p' o', t = triple s' p' o' ∧ s.eq s' ∧ p.eq p' ∧ o.eq o' := by
  cases t
  case triple => simp [EncodedTerm.eq, and_assoc]
  all_goals exact iff_of_false Bool.false_ne_true (by rintro ⟨_, _, _, ⟨⟩, -⟩)

theorem StoredAs.plain_of_fields {type : TermType} (h : StoredAs (type.id :: bs) t)
    (hf : type.fields = some fs) :
    t.IsTerm ∧ t.canonical = t ∧ writeTerm t = type.id :: bs := by
  generalize ha : type.id :: bs = a at h
  cases h
  case plain hn ht hc => exact ⟨ht, hc, rfl⟩
  case triple hn _ _ _ =>
    obtain rfl := TermType.id_injective (List.cons.inj ha).1
    rw [hn] at hf
    cases hf

-- Equal terms are read from the byte strings that only differ in what is not looked at.
theorem StoredAs.eq_iff_respells (h : StoredAs a t) (h' : StoredAs b u) :
    t.eq u ↔ Respells a b := by
  constructor
  case mp =>
    intro he
    induction h generalizing b u
    case plain t hn ht hc =>
      obtain ⟨type, fs, bs, hw, hf, hl, hp⟩ := exists_fields_of_plain hn ht hc
      cases h'
      case plain hn' ht' hc' =>
        obtain ⟨type', fs', bs', hw', hf', hl', hp'⟩ := exists_fields_of_plain hn' ht' hc'
        obtain ⟨rfl, ha⟩ :=
          (EncodedTerm.eq_iff_allAgree hw hw' hf hf' hl hl' ht ht' hc hc').mp he
        obtain rfl := Option.some.inj (hf.symm.trans hf')
        rw [hw, hw']
        exact .plain hf hl hp hl' hp' ha
      case triple =>
        by_cases htext : .text ∈ fs
        case pos =>
          obtain ⟨rfl, -⟩ := (EncodedTerm.eq_iff_allAgree_of_text hw rfl hf htext).mp he
          cases hf
        case neg => exact absurd ((EncodedTerm.eq_iff_of_not_text hw hf htext).mp he) (hn _ _ _)
    case triple hn _ _ _ ha hb hc =>
      obtain ⟨s', p', o', rfl, hes, hep, heo⟩ := EncodedTerm.triple_eq_iff.mp he
      cases h'
      case plain hn' _ _ => exact absurd rfl (hn' s' p' o')
      case triple hn' hs' hp' ho' => exact .triple hn hn' (ha hs' hes) (hb hp' hep) (hc ho' heo)
  case mpr =>
    intro hr
    induction hr generalizing t u
    case plain fs bs bs' type hf hl hp hl' hp' ha =>
      obtain ⟨ht, hc, hw⟩ := h.plain_of_fields hf
      obtain ⟨ht', hc', hw'⟩ := h'.plain_of_fields hf
      exact (EncodedTerm.eq_iff_allAgree hw hw' hf hf hl hl' ht ht' hc hc').mpr ⟨rfl, ha⟩
    case triple hn hn' ha hb hc hia hib hic =>
      obtain ⟨⟨s, hs⟩, s', hs'⟩ := ha.exists_storedAs
      obtain ⟨⟨p, hp⟩, p', hp'⟩ := hb.exists_storedAs
      obtain ⟨⟨o, ho⟩, o', ho'⟩ := hc.exists_storedAs
      obtain rfl := h.eq_of_same (.triple hn hs hp ho)
      obtain rfl := h'.eq_of_same (.triple hn' hs' hp' ho')
      exact EncodedTerm.triple_eq_iff.mpr ⟨s', p', o', rfl, hia hs hs', hib hp hp', hic ho ho'⟩

-- A term is written back as it was read exactly if reading it does not get to a triple with the
-- type of before, and a quad exactly if this holds for all terms of its key and there is nothing
-- behind them. Two byte strings of equal terms are the same unless one respells the other.
theorem canonical_iff (ht : TermReader.readTerm bs = .ok (t, rest))
    (hu : TermReader.readTerm bs' = .ok (u, rest')) (encoding : QuadEncoding)
    (hq : encoding.decode key = .ok q) :
    (encoding.writer q = key ↔ ¬Reaches Reaches.Legacy encoding.positions.length key ∧
      TermForms encoding.positions.length key) ∧
    ∃ a b, bs = a ++ rest ∧ bs' = b ++ rest' ∧
      (writeTerm t = a ↔ ¬Reaches Reaches.Legacy 1 bs) ∧
      ((t.eq u → a = b) ↔ (Respells a b → a = b)) := by
  obtain ⟨a, rfl, ha⟩ := ((TermReader.decodes_readTerm bs).ok_iff t rest).mp ht
  obtain ⟨b, rfl, hb⟩ := ((TermReader.decodes_readTerm bs').ok_iff u rest').mp hu
  refine ⟨?_, a, b, rfl, rfl, ha.writeTerm_eq_iff rest, by rw [ha.eq_iff_respells hb]⟩
  rw [QuadEncoding.decode, QuadEncoding.reader_eq] at hq
  obtain ⟨⟨q', rest⟩, hr, hq⟩ := Except.exists_of_bind_eq_ok hq
  cases hq
  rw [QuadEncoding.writer_eq]
  exact (TermReader.writeQuad_eq_iff (by cases encoding <;> decide) hr).2

-- Three booleans as a triple of before, a byte behind a key, and a blank node with other bytes
-- behind its text.
theorem not_canonical :
    (∃ t, TermReader.readTerm [48, 28, 28, 28] = .ok (t, []) ∧ writeTerm t ≠ [48, 28, 28, 28]) ∧
    (∃ q, QuadEncoding.dspo.decode [48, 28, 28, 28, 28, 28] = .ok q ∧
      ¬QuadEncoding.dspo.writer q <+: [48, 28, 28, 28, 28, 28]) ∧
    (∃ q, QuadEncoding.dspo.decode [28, 28, 28, 0] = .ok q ∧
      QuadEncoding.dspo.writer q ≠ [28, 28, 28, 0]) ∧
    ∃ t u, TermReader.readTerm (9 :: 97 :: List.replicate 14 0 ++ [1]) = .ok (t, []) ∧
      TermReader.readTerm (9 :: 97 :: List.replicate 14 98 ++ [1]) = .ok (u, []) ∧ t.eq u := by
  refine ⟨⟨.triple (.booleanLiteral true) (.booleanLiteral true) (.booleanLiteral true), by decide⟩,
    ⟨⟨.triple (.booleanLiteral true) (.booleanLiteral true) (.booleanLiteral true),
      .booleanLiteral true, .booleanLiteral true, .defaultGraph⟩, by decide⟩,
    ⟨⟨.booleanLiteral true, .booleanLiteral true, .booleanLiteral true, .defaultGraph⟩,
      by decide⟩, ?_⟩
  refine ⟨.smallBlankNode ⟨⟨97 :: List.replicate 14 0 ++ [1], rfl⟩, by decide, by decide⟩,
    .smallBlankNode ⟨⟨97 :: List.replicate 14 98 ++ [1], rfl⟩, by decide, by decide⟩, by decide⟩

theorem canonical_boolean :
    (QuadEncoding.dspo.writer ⟨.booleanLiteral true, .booleanLiteral true, .booleanLiteral true,
        .defaultGraph⟩ = [28, 28, 28] ↔
      ¬Reaches Reaches.Legacy 3 [28, 28, 28] ∧ TermForms 3 [28, 28, 28]) ∧
    ∃ a b, [28] = a ++ [] ∧ [28] = b ++ [] ∧
      (writeTerm (.booleanLiteral true) = a ↔ ¬Reaches Reaches.Legacy 1 [28]) ∧
      (((EncodedTerm.booleanLiteral true).eq (.booleanLiteral true) → a = b) ↔
        (Respells a b → a = b)) :=
  canonical_iff (by decide) (by decide) .dspo (by decide)
