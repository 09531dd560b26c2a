import OxigraphCloud.Objects.Theorems.TermFields

-- What is read from arbitrary bytes.

-- The byte strings that a term may be read from.
inductive StoredAs : Bytes → EncodedTerm → Prop
  | plain : (∀ s p o, t ≠ .triple s p o) → t.IsTerm → t.canonical = t → StoredAs (writeTerm t) t
  | triple {type : TermType} :
    type.fields = none → StoredAs a s → StoredAs b p → StoredAs c o →
    StoredAs (type.id :: (a ++ (b ++ c))) (.triple s p o)

namespace TermReader

theorem readBody_triple {r : TermReader EncodedTerm} (h : type.fields = none) :
    readBody r type = (do return .triple (← r) (← r) (← r)) := by
  cases type
  case triple | starTriple => rfl
  all_goals cases h

theorem readBody_plain {r r' : TermReader EncodedTerm} (h : type.fields = some fs) :
    readBody r type = readBody r' type := by
  cases type
  case triple | starTriple => cases h
  all_goals rfl

theorem isTriple_of_readBody {r : TermReader EncodedTerm} (h : type.fields = none)
    (hr : readBody r type bs = .ok (t, rest)) : ∃ s p o, t = .triple s p o := by
  rw [readBody_triple h] at hr
  obtain ⟨s, _, -, hr⟩ := bind_eq_ok_iff.mp hr
  obtain ⟨p, _, -, hr⟩ := bind_eq_ok_iff.mp hr
  obtain ⟨o, _, -, hr⟩ := bind_eq_ok_iff.mp hr
  cases hr
  exact ⟨s, p, o, rfl⟩

theorem readTermFuel_of_storedAs (h : StoredAs a t) (hf : a.length ≤ fuel) (rest : Bytes) :
    readTermFuel fuel (a ++ rest) = .ok (t, rest) := by
  induction h generalizing fuel rest
  case plain t hn ht hc => rw [readTermFuel_writeTerm ht hf, hc]
  case triple a b c s p o type hn _ _ _ ha hb hc =>
    rw [List.length_cons, List.length_append, List.length_append] at hf
    cases fuel
    case zero => omega
    case succ fuel =>
      rw [List.cons_append, readTermFuel_cons, readBody_triple hn, List.append_assoc,
        List.append_assoc, bind_apply (ha (by omega) _), bind_apply (hb (by omega) _),
        bind_apply (hc (by omega) _)]
      rfl

theorem readTerm_of_storedAs (h : StoredAs a t) (rest : Bytes) :
    readTerm (a ++ rest) = .ok (t, rest) :=
  readTermFuel_of_storedAs h (by simp) rest

end TermReader

-- What is read from the fields of a type is written back.
theorem storedAs_of_readBody {r : TermReader EncodedTerm} (hf : type.fields = some fs)
    (hr : ∀ rest, TermReader.readBody r type (bs ++ rest) = .ok (t, rest))
    (hn : ∀ s p o, t ≠ .triple s p o) (hw : writeTerm t = type.id :: bs) :
    StoredAs (type.id :: bs) t := by
  have ht : t.IsTerm := by
    cases t
    case defaultGraph => cases hw
    case triple s p o => exact absurd rfl (hn s p o)
    all_goals trivial
  have hc : TermReader.readTerm (writeTerm t ++ []) = .ok (t.canonical, []) :=
    TermReader.readTerm_writeTerm ht
  have hr' : TermReader.readTerm (writeTerm t ++ []) = .ok (t, []) := by
    rw [hw]
    refine TermReader.readTermFuel_cons.trans ?_
    rw [TermReader.readBody_plain hf]
    exact hr []
  exact hw ▸ .plain hn ht (Prod.mk.inj (Except.ok.inj (hc.symm.trans hr'))).1

theorem TermForm.exists_storedAs (h : TermForm a) : ∃ t, StoredAs a t := by
  induction h
  case plain fs bs type hf hl hp =>
    obtain ⟨result, hc, hr⟩ :=
      (TermReader.readBody_readsFields TermReader.readTerm hf).long bs hl
    obtain ⟨t, rfl, hn, hw⟩ := hc.proper hp
    exact ⟨t, storedAs_of_readBody hf hr hn hw⟩
  case triple hn _ _ _ ha hb hc =>
    obtain ⟨s, hs⟩ := ha
    obtain ⟨p, hp⟩ := hb
    obtain ⟨o, ho⟩ := hc
    exact ⟨_, .triple hn hs hp ho⟩

-- What is read as it was written consists of its type and proper fields.
theorem exists_fields_of_plain {t : EncodedTerm} (hn : ∀ s p o, t ≠ .triple s p o) (ht : t.IsTerm)
    (hc : t.canonical = t) :
    ∃ (type : TermType) (fs : List TermField) (bs : Bytes), writeTerm t = type.id :: bs ∧
      type.fields = some fs ∧ bs.length = TermType.width fs ∧ TermField.AllProper fs bs := by
  obtain ⟨type, body, hw⟩ := ht.writeTerm_eq_cons
  have hr : TermReader.readTerm (writeTerm t ++ []) = .ok (t, []) :=
    TermReader.readTerm_of_storedAs (.plain hn ht hc) []
  rw [List.append_nil, hw, TermReader.readTerm, List.length_cons,
    TermReader.readTermFuel_cons] at hr
  cases hf : type.fields
  case none =>
    obtain ⟨s, p, o, rfl⟩ := TermReader.isTriple_of_readBody hf hr
    exact absurd rfl (hn s p o)
  case some fs =>
    have hb := TermReader.readBody_readsFields (TermReader.readTermFuel body.length) hf
    have ho := hb.outcome body
    rw [hr] at ho
    cases ho
    case proper bs hl hp _ _ _ hb =>
      rw [List.append_nil] at hb
      exact ⟨type, fs, body, hw, hf, hb ▸ hl, hb ▸ hp⟩

theorem StoredAs.termForm (h : StoredAs a t) : TermForm a := by
  induction h
  case plain t hn ht hc =>
    obtain ⟨type, fs, bs, hw, hf, hl, hp⟩ := exists_fields_of_plain hn ht hc
    rw [hw]
    exact .plain hf hl hp
  case triple hn _ _ _ ha hb hc => exact .triple hn ha hb hc

theorem TermType.id_injective : Function.Injective TermType.id := by
  intro type type' h
  exact Option.some.inj <| (ofId_id type).symm.trans <| h ▸ ofId_id type'

namespace Reaches

variable {P : Bytes → Prop} {type : TermType}

theorem not_zero : ¬Reaches P 0 bs := by
  rintro ⟨⟩

theorem succ_iff : Reaches P (n + 1) bs ↔
    Reaches P 1 bs ∨ ∃ a rest, bs = a ++ rest ∧ TermForm a ∧ Reaches P n rest := by
  constructor
  · rintro (h | ⟨hn, h⟩ | ⟨ha, h⟩)
    · exact .inl (.here h)
    · exact .inl (.nested hn h)
    · exact .inr ⟨_, _, rfl, ha, h⟩
  · rintro (h | ⟨a, rest, rfl, ha, h⟩)
    · rcases h with h | ⟨hn, h⟩ | ⟨ha, h⟩
      · exact .here h
      · exact .nested hn h
      · exact absurd h not_zero
    · exact .next ha h

theorem one_iff : Reaches P 1 bs ↔
    P bs ∨ ∃ (type : TermType) (rest : Bytes), bs = type.id :: rest ∧ type.fields = none ∧
      Reaches P 3 rest := by
  constructor
  · rintro (h | ⟨hn, h⟩ | ⟨ha, h⟩)
    · exact .inl h
    · exact .inr ⟨_, _, rfl, hn, h⟩
    · exact absurd h not_zero
  · rintro (h | ⟨type, rest, rfl, hn, h⟩)
    · exact .here h
    · exact .nested hn h

theorem triple_iff (hn : type.fields = none) :
    Reaches P 1 (type.id :: bs) ↔ P (type.id :: bs) ∨ Reaches P 3 bs := by
  rw [one_iff]
  refine or_congr_right ⟨?_, fun h => ⟨type, bs, rfl, hn, h⟩⟩
  rintro ⟨_, _, hb, -, h⟩
  exact (List.cons.inj hb).2 ▸ h

theorem plain_iff (hf : type.fields = some fs) :
    Reaches P 1 (type.id :: bs) ↔ P (type.id :: bs) := by
  rw [one_iff]
  refine or_iff_left ?_
  rintro ⟨type', _, hb, hn, -⟩
  obtain rfl := TermType.id_injective (List.cons.inj hb).1
  rw [hf] at hn
  cases hn

theorem overlong_iff (hf : type.fields = some fs) :
    Overlong (type.id :: bs) ↔ TermType.width fs ≤ bs.length ∧ TermField.OneOverlong fs bs := by
  constructor
  · rintro ⟨type', fs', body, hb, hf', h⟩
    obtain ⟨hi, rfl⟩ := List.cons.inj hb
    obtain rfl := TermType.id_injective hi
    obtain rfl := Option.some.inj (hf.symm.trans hf')
    exact h
  · exact fun h => ⟨type, fs, bs, rfl, hf, h⟩

theorem truncated_iff (hf : type.fields = some fs) :
    Truncated (type.id :: bs) ↔ bs.length < TermType.width fs := by
  constructor
  · rintro (h | ⟨type', fs', body, hb, hf', h⟩)
    · cases h
    · obtain ⟨hi, rfl⟩ := List.cons.inj hb
      obtain rfl := TermType.id_injective hi
      obtain rfl := Option.some.inj (hf.symm.trans hf')
      exact h
  · exact fun h => .inr ⟨type, fs, bs, rfl, hf, h⟩

theorem not_overlong (hn : type.fields = none) : ¬Overlong (type.id :: bs) := by
  rintro ⟨type', fs, body, hb, hf, -⟩
  obtain rfl := TermType.id_injective (List.cons.inj hb).1
  rw [hn] at hf
  cases hf

theorem not_truncated (hn : type.fields = none) : ¬Truncated (type.id :: bs) := by
  rintro (h | ⟨type', fs, body, hb, hf, -⟩)
  · cases h
  · obtain rfl := TermType.id_injective (List.cons.inj hb).1
    rw [hn] at hf
    cases hf

end Reaches

namespace TermReader

-- What reading a term from the bytes may end with.
structure Decodes (reader : TermReader EncodedTerm) (bs : Bytes) : Prop where
  ok_iff       : ∀ t rest, reader bs = .ok (t, rest) ↔ ∃ a, bs = a ++ rest ∧ StoredAs a t
  panicked_iff : reader bs = .error .panicked ↔ Reaches Reaches.Overlong 1 bs
  eof_iff      : reader bs = .error .unexpectedEof ↔ Reaches Reaches.Truncated 1 bs
  error        : ∀ e, reader bs = .error e →
    e = .panicked ∨ e = .unexpectedEof ∨ ∃ c, e = .corruption c

-- One more term is read before the others.
theorem Decodes.bind_eq_error_iff {reader : TermReader EncodedTerm} {f : EncodedTerm → TermReader β}
    {P : Bytes → Prop} (h : Decodes reader bs) (he : reader bs = .error e ↔ Reaches P 1 bs)
    (hf : ∀ a t rest, bs = a ++ rest → StoredAs a t →
      (f t rest = .error e ↔ Reaches P n rest)) :
    (reader >>= f) bs = .error e ↔ Reaches P (n + 1) bs := by
  rw [TermReader.bind_eq_error_iff, he, Reaches.succ_iff (n := n)]
  refine or_congr_right ?_
  constructor
  · rintro ⟨t, rest, hr, hb⟩
    obtain ⟨a, ha, hs⟩ := (h.ok_iff t rest).mp hr
    exact ⟨a, rest, ha, hs.termForm, (hf a t rest ha hs).mp hb⟩
  · rintro ⟨a, rest, ha, hs, hb⟩
    obtain ⟨t, hs⟩ := hs.exists_storedAs
    exact ⟨t, rest, (h.ok_iff t rest).mpr ⟨a, ha, hs⟩, (hf a t rest ha hs).mpr hb⟩

theorem id_of_ofId (h : TermType.ofId tag = some type) : tag = type.id := by
  unfold TermType.ofId at h
  split at h
  case h_40 => cases h
  all_goals
    rename_i ht
    obtain rfl := Option.some.inj h
    exact UInt8.toNat_inj.mp ht

theorem exists_cons_of_storedAs (h : StoredAs a t) :
    ∃ (type : TermType) (bs : Bytes), a = type.id :: bs := by
  cases h
  case plain ht _ => exact ht.writeTerm_eq_cons
  case triple => exact ⟨_, _, rfl⟩

variable {reader : TermReader EncodedTerm}

theorem decodes_nil (h : reader [] = .error .unexpectedEof) : Decodes reader [] where
  ok_iff t rest := by
    rw [h]
    refine iff_of_false (by rintro ⟨⟩) ?_
    rintro ⟨a, ha, hs⟩
    obtain ⟨type, bs, rfl⟩ := exists_cons_of_storedAs hs
    cases ha
  panicked_iff := by
    rw [h, Reaches.one_iff]
    refine iff_of_false (by rintro ⟨⟩) ?_
    rintro (⟨_, _, _, ⟨⟩, -⟩ | ⟨_, _, ⟨⟩, -⟩)
  eof_iff := iff_of_true h (.here (.inl rfl))
  error e he := by
    rw [h] at he
    exact .inr (.inl (Except.error.inj he).symm)

-- A byte that is no type is corrupt.
theorem decodes_unknown (ht : TermType.ofId tag = none)
    (h : reader (tag :: bs) = .error (.corruption c)) : Decodes reader (tag :: bs) := by
  have hn (type : TermType) : tag ≠ type.id := by
    rintro rfl
    rw [TermType.ofId_id] at ht
    cases ht
  constructor
  case ok_iff =>
    intro t rest
    rw [h]
    refine iff_of_false (by rintro ⟨⟩) ?_
    rintro ⟨a, ha, hs⟩
    obtain ⟨type, bs, rfl⟩ := exists_cons_of_storedAs hs
    exact hn type (List.cons.inj ha).1
  case panicked_iff =>
    rw [h, Reaches.one_iff]
    refine iff_of_false (by rintro ⟨⟩) ?_
    rintro (⟨type, _, _, hb, -⟩ | ⟨type, _, hb, -⟩)
    all_goals exact hn type (List.cons.inj hb).1
  case eof_iff =>
    rw [h, Reaches.one_iff]
    refine iff_of_false (by rintro ⟨⟩) ?_
    rintro ((hb | ⟨type, _, _, hb, -⟩) | ⟨type, _, hb, -⟩)
    · cases hb
    all_goals exact hn type (List.cons.inj hb).1
  case error =>
    intro e he
    rw [h] at he
    exact .inr (.inr ⟨c, (Except.error.inj he).symm⟩)

theorem decodes_plain {type : TermType} {r : TermReader EncodedTerm} (hf : type.fields = some fs)
    (h : reader (type.id :: bs) = readBody r type bs)
    (hs : ∀ a t rest, type.id :: bs = a ++ rest → StoredAs a t →
      reader (type.id :: bs) = .ok (t, rest)) : Decodes reader (type.id :: bs) := by
  have ho := (readBody_readsFields r hf).outcome bs
  constructor
  case ok_iff =>
    intro t rest
    constructor
    · intro hr
      rw [h] at hr
      rw [hr] at ho
      cases ho
      case proper body hl _ _ hn hw hb =>
        obtain ⟨result, -, hr'⟩ := (readBody_readsFields r hf).long body hl
        have ht : result = .ok t := by
          have he := (hr' rest).symm.trans (hb ▸ hr)
          cases result <;> cases he
          rfl
        rw [ht] at hr'
        exact ⟨type.id :: body, by rw [hb, List.cons_append], storedAs_of_readBody hf hr' hn hw⟩
    · rintro ⟨a, ha, hst⟩
      exact hs a t rest ha hst
  case panicked_iff =>
    rw [h, Reaches.plain_iff hf, Reaches.overlong_iff hf]
    generalize readBody r type bs = result at ho
    cases ho
    case short hl => exact iff_of_false (by rintro ⟨⟩) fun h => absurd h.1 (not_le.mpr hl)
    case overlong hl ho => exact iff_of_true rfl ⟨hl, ho⟩
    case improper hl ho => exact iff_of_false (by rintro ⟨⟩) (ho ·.2)
    case proper ho _ _ => exact iff_of_false (by rintro ⟨⟩) (ho ·.2)
  case eof_iff =>
    rw [h, Reaches.plain_iff hf, Reaches.truncated_iff hf]
    generalize readBody r type bs = result at ho
    cases ho
    case short hl => exact iff_of_true rfl hl
    case overlong hl ho => exact iff_of_false (by rintro ⟨⟩) (not_lt.mpr hl)
    case improper hl ho => exact iff_of_false (by rintro ⟨⟩) (not_lt.mpr hl)
    case proper body rest t hb hl _ _ _ _ =>
      refine iff_of_false (by rintro ⟨⟩) (not_lt.mpr ?_)
      rw [hb, List.length_append]
      omega
  case error =>
    intro e he
    rw [h] at he
    rw [he] at ho
    cases ho
    case short => exact .inr (.inl rfl)
    case overlong => exact .inl rfl
    case improper => exact .inr (.inr ⟨_, rfl⟩)

theorem decodes_triple {type : TermType} {r : TermReader EncodedTerm} (hn : type.fields = none)
    (h : reader (type.id :: bs) = readBody r type bs)
    (hd : ∀ rest : Bytes, rest.length ≤ bs.length → Decodes r rest)
    (hs : ∀ a t rest, type.id :: bs = a ++ rest → StoredAs a t →
      reader (type.id :: bs) = .ok (t, rest)) : Decodes reader (type.id :: bs) := by
  rw [readBody_triple hn] at h
  have hl {a b c : Bytes} (hb : a = b ++ c) (ha : a.length ≤ bs.length) : c.length ≤ bs.length := by
    rw [hb, List.length_append] at ha
    omega
  have herror {e : StorageError} {P : Bytes → Prop} (he : ∀ rest : Bytes, rest.length ≤ bs.length →
      (r rest = .error e ↔ Reaches P 1 rest)) :
      (do return .triple (← r) (← r) (← r) : TermReader EncodedTerm) bs = .error e ↔
        Reaches P 3 bs := by
    refine (hd bs le_rfl).bind_eq_error_iff (he bs le_rfl) fun _ s bs₁ h₁ _ => ?_
    have hl₁ := hl h₁ le_rfl
    refine (hd bs₁ hl₁).bind_eq_error_iff (he bs₁ hl₁) fun _ p bs₂ h₂ _ => ?_
    have hl₂ := hl h₂ hl₁
    refine (hd bs₂ hl₂).bind_eq_error_iff (he bs₂ hl₂) fun _ o bs₃ h₃ _ => ?_
    exact iff_of_false (by rintro ⟨⟩) Reaches.not_zero
  constructor
  case ok_iff =>
    intro t rest
    constructor
    · intro hr
      rw [h] at hr
      obtain ⟨s, bs₁, h₁, hr⟩ := bind_eq_ok_iff.mp hr
      obtain ⟨p, bs₂, h₂, hr⟩ := bind_eq_ok_iff.mp hr
      obtain ⟨o, bs₃, h₃, hr⟩ := bind_eq_ok_iff.mp hr
      cases hr
      obtain ⟨a, ha, hsa⟩ := ((hd bs le_rfl).ok_iff s bs₁).mp h₁
      have hl₁ := hl ha le_rfl
      obtain ⟨b, hb, hpb⟩ := ((hd bs₁ hl₁).ok_iff p bs₂).mp h₂
      obtain ⟨c, hc, hoc⟩ := ((hd bs₂ (hl hb hl₁)).ok_iff o rest).mp h₃
      refine ⟨_, ?_, .triple hn hsa hpb hoc⟩
      rw [ha, hb, hc]
      simp
    · rintro ⟨a, ha, hst⟩
      exact hs a t rest ha hst
  case panicked_iff =>
    rw [h, herror fun rest hr => (hd rest hr).panicked_iff, Reaches.triple_iff hn]
    exact (or_iff_right (Reaches.not_overlong hn)).symm
  case eof_iff =>
    rw [h, herror fun rest hr => (hd rest hr).eof_iff, Reaches.triple_iff hn]
    exact (or_iff_right (Reaches.not_truncated hn)).symm
  case error =>
    intro e he
    rw [h] at he
    rcases bind_eq_error_iff.mp he with he | ⟨s, bs₁, h₁, he⟩
    · exact (hd bs le_rfl).error e he
    obtain ⟨a, ha, -⟩ := ((hd bs le_rfl).ok_iff s bs₁).mp h₁
    have hl₁ := hl ha le_rfl
    rcases bind_eq_error_iff.mp he with he | ⟨p, bs₂, h₂, he⟩
    · exact (hd bs₁ hl₁).error e he
    obtain ⟨b, hb, -⟩ := ((hd bs₁ hl₁).ok_iff p bs₂).mp h₂
    have hl₂ := hl hb hl₁
    rcases bind_eq_error_iff.mp he with he | ⟨o, bs₃, -, he⟩
    · exact (hd bs₂ hl₂).error e he
    · cases he

theorem decodes_readTermFuel {bs : Bytes} (h : bs.length ≤ fuel) :
    Decodes (readTermFuel fuel) bs := by
  induction fuel generalizing bs
  case zero =>
    obtain rfl : bs = [] := by simpa using h
    exact decodes_nil rfl
  case succ fuel hi =>
    have hs a t rest (ha : bs = a ++ rest) (hst : StoredAs a t) :
        readTermFuel (fuel + 1) bs = .ok (t, rest) := by
      rw [ha, List.length_append] at h
      exact ha ▸ readTermFuel_of_storedAs hst (by omega) rest
    cases bs
    case nil => exact decodes_nil rfl
    case cons tag bs =>
      cases ht : TermType.ofId tag
      case none =>
        have h₁ : readExact 1 (tag :: bs) = .ok (⟨[tag], rfl⟩, bs) :=
          readExact_toList ⟨[tag], rfl⟩
        refine decodes_unknown ht (c := .msg "the term buffer has an invalid type id") ?_
        simp [readTermFuel, bind_apply h₁, List.Vector.head, ht]
        rfl
      case some type =>
        obtain rfl := id_of_ofId ht
        rw [List.length_cons] at h
        cases hf : type.fields
        case none =>
          exact decodes_triple hf readTermFuel_cons (fun rest hr => hi (by omega)) hs
        case some fs => exact decodes_plain hf readTermFuel_cons hs

theorem decodes_readTerm (bs : Bytes) : Decodes readTerm bs := by
  have h := decodes_readTermFuel (le_refl bs.length)
  exact ⟨h.ok_iff, h.panicked_iff, h.eof_iff, h.error⟩

theorem foldlM_readInto_cons (p : Position) (ps : List Position) (q : EncodedQuad) :
    (p :: ps).foldlM readInto q =
      (readTerm >>= fun t => ps.foldlM readInto (q.set t p) : TermReader EncodedQuad) := by
  rw [List.foldlM_cons, readInto, bind_assoc]
  simp only [pure_bind]

theorem foldlM_readInto_eq_error_iff {P : Bytes → Prop}
    (he : ∀ bs, readTerm bs = .error e ↔ Reaches P 1 bs) (ps : List Position) (q : EncodedQuad)
    (bs : Bytes) :
    (ps.foldlM readInto q : TermReader EncodedQuad) bs = .error e ↔ Reaches P ps.length bs := by
  induction ps generalizing q bs
  case nil => exact iff_of_false (by rintro ⟨⟩) Reaches.not_zero
  case cons p ps hi =>
    rw [foldlM_readInto_cons]
    exact (decodes_readTerm bs).bind_eq_error_iff (he bs) fun _ t rest _ _ => hi _ rest

theorem error_of_foldlM_readInto {ps : List Position}
    (h : (ps.foldlM readInto q : TermReader EncodedQuad) bs = .error e) :
    e = .panicked ∨ e = .unexpectedEof ∨ ∃ c, e = .corruption c := by
  induction ps generalizing q bs
  case nil => cases h
  case cons p ps hi =>
    rw [foldlM_readInto_cons] at h
    rcases bind_eq_error_iff.mp h with h | ⟨t, rest, -, h⟩
    · exact (decodes_readTerm bs).error e h
    · exact hi h

end TermReader

theorem decodeTerm_eq_error_iff :
    decodeTerm bs = .error e ↔ TermReader.readTerm bs = .error e := by
  rw [decodeTerm]
  cases TermReader.readTerm bs
  case error => simp [bind, Except.bind]
  case ok => exact iff_of_false (by rintro ⟨⟩) (by rintro ⟨⟩)

theorem QuadEncoding.decode_eq_error_iff {encoding : QuadEncoding} :
    encoding.decode bs = .error e ↔ TermReader.readQuad encoding.positions bs = .error e := by
  rw [decode, reader_eq]
  cases TermReader.readQuad encoding.positions bs
  case error => simp [bind, Except.bind]
  case ok => exact iff_of_false (by rintro ⟨⟩) (by rintro ⟨⟩)

-- A result that is neither a panic nor the end of the bytes is a value or reports a corruption.
theorem Except.value_or_corruption_iff {x : Except StorageError α}
    (h : ∀ e, x = .error e → e = .panicked ∨ e = .unexpectedEof ∨ ∃ c, e = .corruption c) :
    ((∃ a, x = .ok a) ∨ ∃ c, x = .error (.corruption c)) ↔
      x ≠ .error .panicked ∧ x ≠ .error .unexpectedEof := by
  cases x
  case ok a => simp
  case error e =>
    rcases h e rfl with rfl | rfl | ⟨c, rfl⟩
    all_goals simp

-- Decoding panics exactly if it gets to a small string whose length is over 16. It does not report
-- a corruption, but an error of the reader, exactly if it gets to the end of the bytes too early.
theorem decode_returns_iff (bs : Bytes) (encoding : QuadEncoding) :
    (decodeTerm bs ≠ .error .panicked ↔ ¬Reaches Reaches.Overlong 1 bs) ∧
    (encoding.decode bs ≠ .error .panicked ↔
      ¬Reaches Reaches.Overlong encoding.positions.length bs) ∧
    (((∃ t, decodeTerm bs = .ok t) ∨ ∃ c, decodeTerm bs = .error (.corruption c)) ↔
      ¬Reaches Reaches.Overlong 1 bs ∧ ¬Reaches Reaches.Truncated 1 bs) ∧
    (((∃ q, encoding.decode bs = .ok q) ∨ ∃ c, encoding.decode bs = .error (.corruption c)) ↔
      ¬Reaches Reaches.Overlong encoding.positions.length bs ∧
        ¬Reaches Reaches.Truncated encoding.positions.length bs) := by
  have h := TermReader.decodes_readTerm
  have ht₁ : decodeTerm bs = .error .panicked ↔ _ :=
    decodeTerm_eq_error_iff.trans (h bs).panicked_iff
  have ht₂ : decodeTerm bs = .error .unexpectedEof ↔ _ :=
    decodeTerm_eq_error_iff.trans (h bs).eof_iff
  have hq₁ : encoding.decode bs = .error .panicked ↔ _ :=
    QuadEncoding.decode_eq_error_iff.trans <|
      TermReader.foldlM_readInto_eq_error_iff (fun bs => (h bs).panicked_iff) _ _ _
  have hq₂ : encoding.decode bs = .error .unexpectedEof ↔ _ :=
    QuadEncoding.decode_eq_error_iff.trans <|
      TermReader.foldlM_readInto_eq_error_iff (fun bs => (h bs).eof_iff) _ _ _
  refine ⟨ht₁.not, hq₁.not, ?_, ?_⟩
  · rw [Except.value_or_corruption_iff fun e he =>
      (h bs).error e (decodeTerm_eq_error_iff.mp he)]
    exact and_congr ht₁.not ht₂.not
  · rw [Except.value_or_corruption_iff fun e he =>
      TermReader.error_of_foldlM_readInto (QuadEncoding.decode_eq_error_iff.mp he)]
    exact and_congr hq₁.not hq₂.not

-- A small blank node with a length of 255, alone and as the subject of a key.
theorem decode_panics :
    decodeTerm (9 :: List.replicate 15 0 ++ [255]) = .error .panicked ∧
    QuadEncoding.dspo.decode (9 :: List.replicate 15 0 ++ [255]) = .error .panicked ∧
    decodeTerm [9] = .error .unexpectedEof := by
  decide
