import OxigraphCloud.Objects.TermLayout
import OxigraphCloud.Objects.Theorems.BinaryEncoder
import OxigraphCloud.Primitives.Except

-- How the fields of terms are read from arbitrary bytes.

namespace Bytes

theorem ofBitVec_toBitVec {bs : Bytes} (h : bs.length = w) : ofBitVec w (toBitVec w bs) = bs := by
  have hp : 2 ^ (8 * w) = 256 ^ w := by rw [Nat.pow_mul]
  have hl : ofBe bs < 2 ^ (8 * w) := by
    rw [hp, ← toBe_ofBe bs, ofBe_toBe, h]
    exact Nat.mod_lt _ (by positivity)
  rw [ofBitVec, toBitVec, BitVec.toNat_ofNat, Nat.mod_eq_of_lt hl, ← h, toBe_ofBe]

end Bytes

theorem Timestamp.toBeBytes_fromBeBytes {bs : Bytes} (h : bs.length = 18) :
    (fromBeBytes bs).toBeBytes = bs := by
  have h₁ : (bs.take 16).length = 16 := by rw [List.length_take]; omega
  have h₂ : (bs.drop 16).length = 2 := by rw [List.length_drop]; omega
  simp only [toBeBytes, fromBeBytes, Bytes.ofBitVec_toBitVec h₁]
  split
  case h_1 offset hs =>
    split at hs
    case isTrue => cases hs
    case isFalse =>
      cases hs
      rw [Bytes.ofBitVec_toBitVec h₂, List.take_append_drop]
  case h_2 hs =>
    split at hs
    case isTrue hd => rw [← hd, List.take_append_drop]
    case isFalse => cases hs

theorem Duration.toBeBytes_fromBeBytes {bs : Bytes} (h : bs.length = 24) :
    (fromBeBytes bs).toBeBytes = bs := by
  have h₁ : (bs.take 8).length = 8 := by rw [List.length_take]; omega
  have h₂ : (bs.drop 8).length = 16 := by rw [List.length_drop]; omega
  rw [toBeBytes, fromBeBytes, Bytes.ofBitVec_toBitVec h₁, Bytes.ofBitVec_toBitVec h₂,
    List.take_append_drop]

namespace SmallString

variable {bs : ByteArr 16}

theorem fromBeBytes_of_overlong (h : TermField.text.Overlong bs.toList) :
    fromBeBytes bs = .error .panicked := by
  rw [fromBeBytes, dif_neg (not_le.mpr h)]

theorem fromBeBytes_of_proper (h : TermField.text.Proper bs.toList) :
    ∃ s, fromBeBytes bs = .ok s ∧ s.inner = bs := by
  rw [fromBeBytes, dif_pos h.1, dif_pos h.2]
  exact ⟨_, rfl, rfl⟩

theorem fromBeBytes_of_improper (ho : ¬TermField.text.Overlong bs.toList)
    (hp : ¬TermField.text.Proper bs.toList) :
    fromBeBytes bs = .error (.corruption (.smallString .badUtf8)) := by
  have hl := not_lt.mp ho
  rw [fromBeBytes, dif_pos hl, dif_neg fun hu => hp ⟨hl, hu⟩]

end SmallString

-- What comes out of the bytes of the fields of a type.
structure ChecksFields (result : Except StorageError EncodedTerm) (type : TermType)
    (fs : List TermField) (bs : Bytes) : Prop where
  overlong : TermField.OneOverlong fs bs → result = .error .panicked
  improper : ¬TermField.OneOverlong fs bs → ¬TermField.AllProper fs bs →
    ∃ e, result = .error (.corruption e)
  proper   : TermField.AllProper fs bs → ∃ t, result = .ok t ∧ (∀ s p o, t ≠ .triple s p o) ∧
    writeTerm t = type.id :: bs

namespace ChecksFields

open TermField

variable {type : TermType} {t : EncodedTerm}

theorem none (ht : ∀ s p o, t ≠ .triple s p o) (hw : writeTerm t = [type.id]) :
    ChecksFields (.ok t) type [] [] where
  overlong h   := h.elim
  improper _ h := absurd trivial h
  proper _     := ⟨t, rfl, ht, hw⟩

theorem raw {bs : ByteArr n} (ht : ∀ s p o, t ≠ .triple s p o)
    (hw : writeTerm t = type.id :: bs.toList) :
    ChecksFields (.ok t) type [.raw n] bs.toList where
  overlong h   := by simp [OneOverlong, Overlong] at h
  improper _ h := by simp [AllProper, Proper] at h
  proper _     := ⟨t, rfl, ht, hw⟩

theorem allProper_single_iff (f : TermField) {bs : Bytes} (h : bs.length = f.length) :
    AllProper [f] bs ↔ f.Proper bs := by
  rw [AllProper, AllProper, and_true, List.take_of_length_le h.le]

theorem oneOverlong_single_iff (f : TermField) {bs : Bytes} (h : bs.length = f.length) :
    OneOverlong [f] bs ↔ f.Overlong bs := by
  simp only [OneOverlong, AllProper, true_and, false_or]
  rw [List.take_of_length_le h.le]

theorem allProper_pair_iff (f g : TermField) {as bs : Bytes} (hf : as.length = f.length)
    (hg : bs.length = g.length) : AllProper [f, g] (as ++ bs) ↔ f.Proper as ∧ g.Proper bs := by
  rw [AllProper, List.take_left' hf, List.drop_left' hf, allProper_single_iff g hg]

theorem oneOverlong_pair_iff (f g : TermField) {as bs : Bytes} (hf : as.length = f.length)
    (hg : bs.length = g.length) :
    OneOverlong [f, g] (as ++ bs) ↔ g.Overlong bs ∨ g.Proper bs ∧ f.Overlong as := by
  rw [OneOverlong, List.take_left' hf, List.drop_left' hf, allProper_single_iff g hg,
    oneOverlong_single_iff g hg]

section

variable {a b : ByteArr 16}

-- Only one of the fields has a text.
theorem ofText {f : SmallString → EncodedTerm}
    (ho : OneOverlong fs bs ↔ TermField.text.Overlong a.toList)
    (hp : AllProper fs bs ↔ TermField.text.Proper a.toList) (ht : ∀ v s p o, f v ≠ .triple s p o)
    (hw : ∀ v, v.toBeBytes = a.toList → writeTerm (f v) = type.id :: bs) :
    ChecksFields (do return f (← SmallString.fromBeBytes a)) type fs bs := by
  constructor
  case overlong =>
    intro h
    rw [SmallString.fromBeBytes_of_overlong (ho.mp h)]
    rfl
  case improper =>
    intro h h'
    rw [SmallString.fromBeBytes_of_improper (fun h' => h (ho.mpr h')) fun h => h' (hp.mpr h)]
    exact ⟨_, rfl⟩
  case proper =>
    intro h
    obtain ⟨v, hv, rfl⟩ := SmallString.fromBeBytes_of_proper (hp.mp h)
    exact ⟨f v, by rw [hv]; rfl, ht v, hw v rfl⟩

theorem text {f : SmallString → EncodedTerm} (ht : ∀ v s p o, f v ≠ .triple s p o)
    (hw : ∀ v, writeTerm (f v) = type.id :: v.toBeBytes) :
    ChecksFields (do return f (← SmallString.fromBeBytes a)) type [.text] a.toList :=
  ofText (oneOverlong_single_iff _ (by simp)) (allProper_single_iff _ (by simp)) ht
    fun v hv => hv ▸ hw v

theorem rawRaw (ht : ∀ s p o, t ≠ .triple s p o)
    (hw : writeTerm t = type.id :: (a.toList ++ b.toList)) :
    ChecksFields (.ok t) type [.raw 16, .raw 16] (a.toList ++ b.toList) where
  overlong h   := by simp [OneOverlong, Overlong] at h
  improper _ h := by simp [AllProper, Proper] at h
  proper _     := ⟨t, rfl, ht, hw⟩

theorem rawText {f : SmallString → EncodedTerm} (ht : ∀ v s p o, f v ≠ .triple s p o)
    (hw : ∀ v, writeTerm (f v) = type.id :: (a.toList ++ v.toBeBytes)) :
    ChecksFields (do return f (← SmallString.fromBeBytes b)) type [.raw 16, .text]
      (a.toList ++ b.toList) :=
  ofText ((oneOverlong_pair_iff _ _ (by simp) (by simp)).trans (by simp [Overlong]))
    ((allProper_pair_iff _ _ (by simp) (by simp)).trans (by simp [Proper])) ht fun v hv => hv ▸ hw v

theorem textRaw {f : SmallString → EncodedTerm} (ht : ∀ v s p o, f v ≠ .triple s p o)
    (hw : ∀ v, writeTerm (f v) = type.id :: (v.toBeBytes ++ b.toList)) :
    ChecksFields (do return f (← SmallString.fromBeBytes a)) type [.text, .raw 16]
      (a.toList ++ b.toList) :=
  ofText ((oneOverlong_pair_iff _ _ (by simp) (by simp)).trans (by simp [Overlong, Proper]))
    ((allProper_pair_iff _ _ (by simp) (by simp)).trans (by simp [Proper])) ht fun v hv => hv ▸ hw v

theorem textText {f : SmallString → SmallString → EncodedTerm}
    (ht : ∀ v l s p o, f v l ≠ .triple s p o)
    (hw : ∀ v l, writeTerm (f v l) = type.id :: (l.toBeBytes ++ v.toBeBytes)) :
    ChecksFields (do return f (← SmallString.fromBeBytes b) (← SmallString.fromBeBytes a)) type
      [.text, .text] (a.toList ++ b.toList) := by
  constructor
  case overlong =>
    rw [oneOverlong_pair_iff _ _ (by simp) (by simp)]
    rintro (ho | ⟨hp, ho⟩)
    · rw [SmallString.fromBeBytes_of_overlong ho]
      rfl
    · obtain ⟨v, hv, -⟩ := SmallString.fromBeBytes_of_proper hp
      rw [hv, SmallString.fromBeBytes_of_overlong ho]
      rfl
  case improper =>
    rw [oneOverlong_pair_iff _ _ (by simp) (by simp), allProper_pair_iff _ _ (by simp) (by simp)]
    intro ho hp
    by_cases hb : TermField.text.Proper b.toList
    case pos =>
      obtain ⟨v, hv, -⟩ := SmallString.fromBeBytes_of_proper hb
      rw [hv, SmallString.fromBeBytes_of_improper (fun h => ho (.inr ⟨hb, h⟩))
        fun h => hp ⟨h, hb⟩]
      exact ⟨_, rfl⟩
    case neg =>
      rw [SmallString.fromBeBytes_of_improper (fun h => ho (.inl h)) hb]
      exact ⟨_, rfl⟩
  case proper =>
    rw [allProper_pair_iff _ _ (by simp) (by simp)]
    rintro ⟨hl, hv⟩
    obtain ⟨v, hv, rfl⟩ := SmallString.fromBeBytes_of_proper hv
    obtain ⟨l, hl, rfl⟩ := SmallString.fromBeBytes_of_proper hl
    exact ⟨f v l, by rw [hv, hl]; rfl, ht v l, hw v l⟩

end

end ChecksFields

namespace TermReader

theorem readExact_of_le {buffer : Bytes} (h : n ≤ buffer.length) :
    readExact n buffer = .ok (⟨buffer.take n, List.length_take_of_le h⟩, buffer.drop n) := by
  rw [readExact, dif_pos h]

theorem readExact_of_lt {buffer : Bytes} (h : buffer.length < n) :
    readExact n buffer = .error .unexpectedEof := by
  rw [readExact, dif_neg (by omega)]

theorem bind_of_error {x : TermReader α} {f : α → TermReader β} (h : x buffer = .error e) :
    (x >>= f) buffer = .error e := by
  simp [bind, StateT.bind, Except.bind, h]

-- The fields of a type are read before they are looked at.
structure ReadsFields (reader : TermReader EncodedTerm) (type : TermType) (fs : List TermField) :
    Prop where
  short : ∀ buffer : Bytes, buffer.length < TermType.width fs →
    reader buffer = .error .unexpectedEof
  long  : ∀ bs : Bytes, bs.length = TermType.width fs → ∃ result,
    ChecksFields result type fs bs ∧ ∀ rest, reader (bs ++ rest) = result.map (·, rest)

theorem readsFields_none (ht : ∀ s p o, t ≠ .triple s p o) (hw : writeTerm t = [type.id]) :
    ReadsFields (pure t) type [] where
  short _ h := by simp at h
  long bs h := by
    obtain rfl : bs = [] := by simpa using h
    exact ⟨.ok t, .none ht hw, fun _ => rfl⟩

theorem readsFields_raw {f : ByteArr n → EncodedTerm} (ht : ∀ bs s p o, f bs ≠ .triple s p o)
    (hw : ∀ bs, writeTerm (f bs) = type.id :: bs.toList) :
    ReadsFields (do return f (← readExact n)) type [.raw n] where
  short buffer hl := bind_of_error <| readExact_of_lt (by simpa using hl)
  long bs hl := by
    have hb : bs.length = n := by simpa using hl
    refine ⟨.ok (f ⟨bs, hb⟩), .raw (ht ⟨bs, hb⟩) (hw ⟨bs, hb⟩), fun rest => ?_⟩
    rw [bind_apply (readExact_append hb)]
    rfl

theorem readsFields_text {f : SmallString → EncodedTerm} (ht : ∀ v s p o, f v ≠ .triple s p o)
    (hw : ∀ v, writeTerm (f v) = type.id :: v.toBeBytes) :
    ReadsFields (do return f (← SmallString.fromBeBytes (← readExact 16))) type [.text] where
  short buffer hl := bind_of_error <| readExact_of_lt (by simpa using hl)
  long bs hl := by
    have hb : bs.length = 16 := by simpa using hl
    refine ⟨_, .text ht hw (a := ⟨bs, hb⟩), fun rest => ?_⟩
    rw [bind_apply (readExact_append hb)]
    cases SmallString.fromBeBytes ⟨bs, hb⟩ <;> rfl

theorem readsFields_pair {f : ByteArr 16 → ByteArr 16 → Except StorageError EncodedTerm}
    {f₁ f₂ : TermField} (h₁ : f₁.length = 16) (h₂ : f₂.length = 16)
    (h : ∀ a b : ByteArr 16, ChecksFields (f a b) type [f₁, f₂] (a.toList ++ b.toList)) :
    ReadsFields (readPair f) type [f₁, f₂] where
  short buffer hl := by
    rw [TermType.width_cons, TermType.width_cons, TermType.width_nil, h₁, h₂] at hl
    rw [readPair]
    rcases lt_or_ge buffer.length 16
    case inl hs => exact bind_of_error (readExact_of_lt hs)
    case inr hs =>
      rw [bind_apply (readExact_of_le hs)]
      refine bind_of_error (readExact_of_lt ?_)
      rw [List.length_drop]
      omega
  long bs hl := by
    rw [TermType.width_cons, TermType.width_cons, TermType.width_nil, h₁, h₂] at hl
    have ht : (bs.take 16).length = 16 := by rw [List.length_take]; omega
    have hd : (bs.drop 16).length = 16 := by rw [List.length_drop]; omega
    have hb : bs.take 16 ++ bs.drop 16 = bs := List.take_append_drop ..
    refine ⟨f ⟨_, ht⟩ ⟨_, hd⟩, ?_, fun rest => ?_⟩
    · simpa [hb] using h ⟨_, ht⟩ ⟨_, hd⟩
    · rw [readPair]
      nth_rewrite 1 [← hb]
      rw [List.append_assoc, bind_apply (readExact_append ht), bind_apply (readExact_append hd)]
      cases f ⟨_, ht⟩ ⟨_, hd⟩ <;> rfl

theorem readBody_readsFields (r : TermReader EncodedTerm) (h : type.fields = some fs) :
    ReadsFields (readBody r type) type fs := by
  cases type
  case triple | starTriple => cases h
  all_goals
    obtain rfl := (Option.some.inj h).symm
    rw [readBody]
  case booleanLiteralTrue | booleanLiteralFalse => exact readsFields_none (by simp) rfl
  case namedNodeId | numericalBlankNodeId | bigBlankNodeId | bigStringLiteral =>
    exact readsFields_raw (by simp) fun _ => rfl
  case smallBlankNodeId | smallStringLiteral => exact readsFields_text (by simp) fun _ => rfl
  case floatLiteral | doubleLiteral | integerLiteral | decimalLiteral | yearMonthDurationLiteral
    | dayTimeDurationLiteral =>
    refine readsFields_raw (by simp) fun bs => ?_
    rw [writeTerm, Bytes.ofBitVec_toBitVec bs.toList_length]
  case durationLiteral =>
    refine readsFields_raw (by simp) fun bs => ?_
    rw [writeTerm, Duration.toBeBytes_fromBeBytes bs.toList_length]
  case dateTimeLiteral | timeLiteral | dateLiteral | gYearMonthLiteral | gYearLiteral
    | gMonthDayLiteral | gDayLiteral | gMonthLiteral =>
    refine readsFields_raw (by simp) fun bs => ?_
    rw [writeTerm, Timestamp.toBeBytes_fromBeBytes bs.toList_length]
  all_goals refine readsFields_pair rfl rfl fun a b => ?_
  case bigBigLangStringLiteral | ltrBigBigDirLangStringLiteral | rtlBigBigDirLangStringLiteral
    | bigTypedLiteral => exact .rawRaw (by simp) rfl
  case smallSmallLangStringLiteral | ltrSmallSmallDirLangStringLiteral
    | rtlSmallSmallDirLangStringLiteral => exact .textText (by simp) fun _ _ => rfl
  case smallBigLangStringLiteral | ltrSmallBigDirLangStringLiteral
    | rtlSmallBigDirLangStringLiteral | smallTypedLiteral =>
    exact .rawText (by simp) fun _ => rfl
  case bigSmallLangStringLiteral | ltrBigSmallDirLangStringLiteral
    | rtlBigSmallDirLangStringLiteral => exact .textRaw (by simp) fun _ => rfl

end TermReader

namespace TermField

-- Only the bytes of the fields matter.
theorem allProper_append_iff {fs : List TermField} {bs : Bytes} (h : bs.length = TermType.width fs)
    (rest : Bytes) : AllProper fs (bs ++ rest) ↔ AllProper fs bs := by
  induction fs generalizing bs
  case nil => rfl
  case cons f fs hi =>
    rw [TermType.width_cons] at h
    have hl : f.length ≤ bs.length := by omega
    have hd : (bs.drop f.length).length = TermType.width fs := by rw [List.length_drop]; omega
    rw [AllProper, AllProper, List.take_append_of_le_length hl, List.drop_append_of_le_length hl,
      hi hd]

theorem oneOverlong_append_iff {fs : List TermField} {bs : Bytes}
    (h : bs.length = TermType.width fs) (rest : Bytes) :
    OneOverlong fs (bs ++ rest) ↔ OneOverlong fs bs := by
  induction fs generalizing bs
  case nil => rfl
  case cons f fs hi =>
    rw [TermType.width_cons] at h
    have hl : f.length ≤ bs.length := by omega
    have hd : (bs.drop f.length).length = TermType.width fs := by rw [List.length_drop]; omega
    rw [OneOverlong, OneOverlong, List.take_append_of_le_length hl,
      List.drop_append_of_le_length hl, hi hd, allProper_append_iff hd]

end TermField

namespace TermReader

theorem bind_eq_ok_iff {x : TermReader α} {f : α → TermReader β} :
    (x >>= f) bs = .ok (b, rest) ↔
      ∃ a rest', x bs = .ok (a, rest') ∧ f a rest' = .ok (b, rest) := by
  change x bs >>= _ = _ ↔ _
  rw [Except.bind_eq_ok_iff]
  exact Prod.exists

theorem bind_eq_error_iff {x : TermReader α} {f : α → TermReader β} :
    (x >>= f) bs = .error e ↔
      x bs = .error e ∨ ∃ a rest, x bs = .ok (a, rest) ∧ f a rest = .error e := by
  change x bs >>= _ = _ ↔ _
  rw [Except.bind_eq_error_iff]
  exact or_congr_right Prod.exists

-- How reading the fields of a type ends.
inductive FieldsOutcome (type : TermType) (fs : List TermField) (buffer : Bytes) :
    Except StorageError (EncodedTerm × Bytes) → Prop
  | short : buffer.length < TermType.width fs →
    FieldsOutcome type fs buffer (.error .unexpectedEof)
  | overlong : TermType.width fs ≤ buffer.length → TermField.OneOverlong fs buffer →
    FieldsOutcome type fs buffer (.error .panicked)
  | improper : TermType.width fs ≤ buffer.length → ¬TermField.OneOverlong fs buffer →
    FieldsOutcome type fs buffer (.error (.corruption e))
  | proper : buffer = bs ++ rest → bs.length = TermType.width fs → TermField.AllProper fs bs →
    ¬TermField.OneOverlong fs buffer → (∀ s p o, t ≠ .triple s p o) →
    writeTerm t = type.id :: bs → FieldsOutcome type fs buffer (.ok (t, rest))

theorem ReadsFields.outcome (h : ReadsFields reader type fs) (buffer : Bytes) :
    FieldsOutcome type fs buffer (reader buffer) := by
  rcases lt_or_ge buffer.length (TermType.width fs)
  case inl hl =>
    rw [h.short buffer hl]
    exact .short hl
  case inr hl =>
    have hb : (buffer.take (TermType.width fs)).length = TermType.width fs :=
      List.length_take_of_le hl
    have ht : buffer = buffer.take (TermType.width fs) ++ buffer.drop (TermType.width fs) :=
      (List.take_append_drop ..).symm
    obtain ⟨result, hc, hr⟩ := h.long _ hb
    have ho := TermField.oneOverlong_append_iff hb (buffer.drop (TermType.width fs))
    rw [← ht] at ho
    have hr := hr (buffer.drop (TermType.width fs))
    rw [← ht] at hr
    rw [hr]
    by_cases h₁ : TermField.OneOverlong fs (buffer.take (TermType.width fs))
    case pos =>
      rw [hc.overlong h₁]
      exact .overlong hl (ho.mpr h₁)
    case neg =>
      by_cases h₂ : TermField.AllProper fs (buffer.take (TermType.width fs))
      case pos =>
        obtain ⟨t, he, hn, hw⟩ := hc.proper h₂
        rw [he]
        exact .proper ht hb h₂ (ho.not.mpr h₁) hn hw
      case neg =>
        obtain ⟨e, he⟩ := hc.improper h₁ h₂
        rw [he]
        exact .improper hl (ho.not.mpr h₁)

end TermReader
