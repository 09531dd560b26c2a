import OxigraphCloud.Objects.BinaryEncoder

-- The equations of these functions have a case for each kind of term. They are derived here, once,
-- and not by whichever of the proofs below is the first to unfold the function.
section
attribute [local simp] writeTerm EncodedTerm.canonical EncodedTerm.IsTerm EncodedTerm.strIds
end

theorem TermType.ofId_id (type : TermType) : ofId type.id = some type := by
  cases type <;> rfl

@[simp]
theorem StrHash.length_toBeBytes (id : StrHash) : id.toBeBytes.length = 16 :=
  id.hash.toList_length

theorem StrHash.toBeBytes_injective : Function.Injective StrHash.toBeBytes := by
  rintro ⟨hash⟩ ⟨hash'⟩ h
  exact congrArg StrHash.mk (Subtype.ext h)

@[simp]
theorem SmallString.length_toBeBytes (s : SmallString) : s.toBeBytes.length = 16 :=
  s.inner.toList_length

@[simp]
theorem Timestamp.length_toBeBytes (t : Timestamp) : t.toBeBytes.length = 18 := by
  rcases t with ⟨_, _ | _⟩ <;> simp [toBeBytes]

@[simp]
theorem Timestamp.canonical_canonical (t : Timestamp) : t.canonical.canonical = t.canonical := by
  simp only [canonical, mk.injEq, true_and]
  split <;> simp_all

@[simp]
theorem Timestamp.toBeBytes_canonical (t : Timestamp) : t.canonical.toBeBytes = t.toBeBytes := by
  rcases t with ⟨_, _ | offset⟩
  case none => rfl
  case some =>
    by_cases h : offset = -1
    · subst h; rfl
    · rw [canonical, if_neg (by simpa using h)]

@[simp]
theorem Duration.length_toBeBytes (d : Duration) : d.toBeBytes.length = 24 := by
  simp [toBeBytes]

namespace TermReader

theorem bind_apply {x : TermReader α} {f : α → TermReader β} (h : x buffer = .ok (a, rest)) :
    (x >>= f) buffer = f a rest := by
  simp [bind, StateT.bind, Except.bind, h]

theorem lift_apply {x : Except StorageError α} (h : x = .ok a) :
    (liftM x : TermReader α) buffer = .ok (a, buffer) := by
  subst h
  rfl

theorem readExact_toList (v : ByteArr n) : readExact n (v.toList ++ rest) = .ok (v, rest) := by
  simp [readExact]

theorem readExact_append {bs rest : Bytes} (h : bs.length = n) :
    readExact n (bs ++ rest) = .ok (⟨bs, h⟩, rest) :=
  readExact_toList ⟨bs, h⟩

theorem readTermFuel_cons {type : TermType} :
    readTermFuel (fuel + 1) (type.id :: rest) = readBody (readTermFuel fuel) type rest := by
  have h : readExact 1 (type.id :: rest) = .ok (⟨[type.id], rfl⟩, rest) :=
    readExact_toList ⟨[type.id], rfl⟩
  simp [readTermFuel, bind_apply h, List.Vector.head, TermType.ofId_id]

theorem readSmallString_append {f : SmallString → EncodedTerm} {s : SmallString} :
    (do return f (← SmallString.fromBeBytes (← readExact 16)) : TermReader EncodedTerm)
      (s.toBeBytes ++ rest) = .ok (f s, rest) := by
  rw [SmallString.toBeBytes, bind_apply (readExact_toList s.inner),
    bind_apply (lift_apply s.fromBeBytes_inner)]
  rfl

theorem readPair_toList {f : ByteArr 16 → ByteArr 16 → Except StorageError EncodedTerm}
    {v₁ v₂ : ByteArr 16} (h : f v₁ v₂ = .ok t) :
    readPair f (v₁.toList ++ v₂.toList ++ rest) = .ok (t, rest) := by
  rw [readPair, List.append_assoc, bind_apply (readExact_toList v₁),
    bind_apply (readExact_toList v₂), lift_apply h]

theorem readTimestamp_append {f : Timestamp → EncodedTerm} {t : Timestamp} :
    readTimestamp f (t.toBeBytes ++ rest) = .ok (f t.canonical, rest) := by
  rw [readTimestamp, bind_apply (readExact_append t.length_toBeBytes)]
  simp [Timestamp.fromBeBytes_toBeBytes, pure, StateT.pure, Except.pure]

theorem readBitVec_append {f : BitVec (8 * w) → EncodedTerm} {x : BitVec (8 * w)} :
    (do return f <| Bytes.toBitVec w (← readExact w).toList : TermReader EncodedTerm)
      (Bytes.ofBitVec w x ++ rest) = .ok (f x, rest) := by
  rw [bind_apply (readExact_append Bytes.length_ofBitVec)]
  simp [Bytes.toBitVec_ofBitVec, pure, StateT.pure, Except.pure]

theorem readTermFuel_writeTerm {t : EncodedTerm} (h : t.IsTerm)
    (hf : (writeTerm t).length ≤ fuel) :
    readTermFuel fuel (writeTerm t ++ rest) = .ok (t.canonical, rest) := by
  induction t generalizing fuel rest <;> cases fuel
  case defaultGraph.zero | defaultGraph.succ => contradiction
  case booleanLiteral.zero value => cases value <;> simp [writeTerm] at hf
  case booleanLiteral.succ value _ => cases value <;> exact readTermFuel_cons
  case triple.succ s p o hs hp ho fuel =>
    simp only [writeTerm, List.cons_append, List.length_cons, List.length_append] at hf
    simp only [writeTerm, List.cons_append, List.append_assoc, readTermFuel_cons, readBody]
    rw [bind_apply (hs h.1 (by omega)), bind_apply (hp h.2.1 (by omega)),
      bind_apply (ho h.2.2 (by omega))]
    rfl
  all_goals simp [writeTerm] at hf
  all_goals simp only [writeTerm, List.cons_append, readTermFuel_cons, readBody]
  case namedNode.succ | numericalBlankNode.succ | bigBlankNode.succ | bigStringLiteral.succ =>
    exact bind_apply (readExact_toList _)
  case smallBlankNode.succ | smallStringLiteral.succ => exact readSmallString_append
  case floatLiteral.succ | doubleLiteral.succ | integerLiteral.succ | decimalLiteral.succ
    | yearMonthDurationLiteral.succ | dayTimeDurationLiteral.succ => exact readBitVec_append
  case durationLiteral.succ d _ =>
    rw [bind_apply (readExact_append d.length_toBeBytes)]
    simp [Duration.fromBeBytes_toBeBytes, pure, StateT.pure, Except.pure, EncodedTerm.canonical]
  case dateTimeLiteral.succ | timeLiteral.succ | dateLiteral.succ | gYearMonthLiteral.succ
    | gYearLiteral.succ | gMonthDayLiteral.succ | gDayLiteral.succ | gMonthLiteral.succ =>
    exact readTimestamp_append
  case bigBigLangStringLiteral.succ | ltrBigBigDirLangStringLiteral.succ
    | rtlBigBigDirLangStringLiteral.succ | bigTypedLiteral.succ => exact readPair_toList rfl
  all_goals
    refine readPair_toList ?_
    simp only [SmallString.fromBeBytes_inner]
    rfl

theorem readTerm_writeTerm {t : EncodedTerm} (h : t.IsTerm) :
    readTerm (writeTerm t ++ rest) = .ok (t.canonical, rest) :=
  readTermFuel_writeTerm h <| by simp

end TermReader

theorem decodeTerm_writeTerm {t : EncodedTerm} (h : t.IsTerm) :
    decodeTerm (writeTerm t) = .ok t.canonical := by
  have hr : TermReader.readTerm (writeTerm t ++ []) = .ok _ := TermReader.readTerm_writeTerm h
  rw [List.append_nil] at hr
  rw [decodeTerm, hr]
  rfl

namespace EncodedTerm

@[simp]
theorem canonical_canonical (t : EncodedTerm) : t.canonical.canonical = t.canonical := by
  induction t <;> simp_all [canonical]

theorem IsTerm.canonical {t : EncodedTerm} (h : t.IsTerm) : t.canonical.IsTerm := by
  induction t <;> simp_all [EncodedTerm.canonical, IsTerm]

@[simp]
theorem canonical_eq_defaultGraph {t : EncodedTerm} :
    t.canonical = .defaultGraph ↔ t = .defaultGraph := by
  cases t <;> simp [canonical]

@[simp]
theorem strIds_canonical (t : EncodedTerm) : t.canonical.strIds = t.strIds := by
  induction t <;> simp_all [canonical, strIds]

@[simp]
theorem writeTerm_canonical (t : EncodedTerm) : writeTerm t.canonical = writeTerm t := by
  induction t <;> simp_all [canonical, writeTerm]

-- A written term starts with the byte of its type.
theorem IsTerm.writeTerm_eq_cons {t : EncodedTerm} (h : t.IsTerm) :
    ∃ (type : TermType) (rest : Bytes), writeTerm t = type.id :: rest := by
  cases t
  case defaultGraph => contradiction
  case booleanLiteral value => cases value <;> exact ⟨_, _, rfl⟩
  all_goals exact ⟨_, _, rfl⟩

theorem IsTerm.writeTerm_ne_nil {t : EncodedTerm} (h : t.IsTerm) : writeTerm t ≠ [] := by
  have ⟨_, _, hw⟩ := h.writeTerm_eq_cons
  simp [hw]

-- No type has the highest byte.
theorem IsTerm.writeTerm_append_lt {t : EncodedTerm} (h : t.IsTerm) (rest : Bytes) :
    writeTerm t ++ rest < [0xFF] := by
  have ⟨type, _, hw⟩ := h.writeTerm_eq_cons
  have ht : type.id < 0xFF := by cases type <;> decide
  rw [hw, List.cons_append, List.cons_lt_cons_iff]
  exact .inl ht

-- Written terms can be told apart from what follows them.
theorem writeTerm_append_eq_iff {t t' : EncodedTerm} (h : t.IsTerm) (h' : t'.IsTerm) :
    writeTerm t ++ rest = writeTerm t' ++ rest' ↔ t.canonical = t'.canonical ∧ rest = rest' where
  mp he := by
    have hr := (TermReader.readTerm_writeTerm h).symm.trans <| he ▸ TermReader.readTerm_writeTerm h'
    simpa using hr
  mpr := fun ⟨h₁, h₂⟩ => by rw [← writeTerm_canonical t, h₁, h₂, writeTerm_canonical]

theorem writeTerm_eq_iff {t t' : EncodedTerm} (h : t.IsTerm) (h' : t'.IsTerm) :
    writeTerm t = writeTerm t' ↔ t.canonical = t'.canonical := by
  have hi : writeTerm t ++ [] = writeTerm t' ++ [] ↔ _ := writeTerm_append_eq_iff h h'
  simpa using hi

end EncodedTerm

-- A sequence of written terms starts with another one iff the terms do.
theorem flatMap_writeTerm_prefix_iff {ts ts' : List EncodedTerm} (h : ∀ t ∈ ts, t.IsTerm)
    (h' : ∀ t ∈ ts', t.IsTerm) :
    ts.flatMap writeTerm <+: ts'.flatMap writeTerm ↔
      ts.map EncodedTerm.canonical <+: ts'.map EncodedTerm.canonical := by
  induction ts generalizing ts'
  case nil => simp
  case cons t ts hi =>
    cases ts'
    case nil =>
      have := (h t (by simp)).writeTerm_ne_nil
      simp [this]
    case cons t' ts' =>
      simp only [List.forall_mem_cons] at h h'
      simp only [List.flatMap_cons, List.map_cons, List.cons_prefix_cons, ← hi h.2 h'.2]
      constructor
      · intro ⟨rest, hr⟩
        have ⟨h₁, h₂⟩ := EncodedTerm.writeTerm_append_eq_iff h.1 h'.1 |>.mp <|
          (List.append_assoc ..).symm.trans hr
        exact ⟨h₁, rest, h₂⟩
      · intro ⟨h₁, rest, h₂⟩
        refine ⟨rest, ?_⟩
        rw [List.append_assoc, EncodedTerm.writeTerm_append_eq_iff h.1 h'.1]
        exact ⟨h₁, h₂⟩

namespace EncodedQuad

@[simp]
theorem canonical_canonical (q : EncodedQuad) : q.canonical.canonical = q.canonical := by
  simp [canonical]

@[simp]
theorem term_canonical (q : EncodedQuad) (p : Position) :
    q.canonical.term p = (q.term p).canonical := by
  cases p <;> rfl

theorem IsQuad.canonical {q : EncodedQuad} (h : q.IsQuad) : q.canonical.IsQuad where
  subject     := h.subject.canonical
  predicate   := h.predicate.canonical
  object      := h.object.canonical
  graphName n := (h.graphName <| by simpa [EncodedQuad.canonical] using n).canonical

end EncodedQuad

namespace QuadEncoding

theorem writer_eq (e : QuadEncoding) : e.writer = writeQuad e.positions := by
  cases e <;> rfl

theorem reader_eq (e : QuadEncoding) : e.reader = TermReader.readQuad e.positions := by
  cases e <;> rfl

variable {e : QuadEncoding} {q q' : EncodedQuad}

theorem Indexes.isTerm (h : e.Indexes q) (hp : p ∈ e.positions) : (q.term p).IsTerm := by
  cases p
  case subject => exact h.isQuad.subject
  case predicate => exact h.isQuad.predicate
  case object => exact h.isQuad.object
  case graphName => exact h.isQuad.graphName <| h.graph.not.mpr <| by simp [forDefaultGraph, hp]

theorem Indexes.canonical (h : e.Indexes q) : e.Indexes q.canonical where
  isQuad := h.isQuad.canonical
  graph  := by simp [EncodedQuad.canonical, h.graph]

theorem Indexes.prefix_writer_iff {ts : List EncodedTerm} (h : e.Indexes q)
    (ht : ∀ t ∈ ts, t.IsTerm) :
    ts.flatMap writeTerm <+: e.writer q ↔
      ts.map EncodedTerm.canonical <+: e.positions.map q.canonical.term := by
  have hw : e.writer q = (e.positions.map q.term).flatMap writeTerm := by
    simp [writer_eq, writeQuad, List.flatMap_map]
  have hc : e.positions.map q.canonical.term =
      (e.positions.map q.term).map EncodedTerm.canonical := by simp
  rw [hw, hc, flatMap_writeTerm_prefix_iff ht]
  simp only [List.forall_mem_map]
  exact fun _ => h.isTerm

theorem Indexes.writer_lt (h : e.Indexes q) : e.writer q < [0xFF] := by
  have hp : ∃ p ps, e.positions = p :: ps := by cases e <;> exact ⟨_, _, rfl⟩
  have ⟨p, ps, hp⟩ := hp
  rw [writer_eq, writeQuad, hp, List.flatMap_cons]
  exact (h.isTerm <| hp ▸ List.mem_cons_self).writeTerm_append_lt _

@[simp]
theorem writer_canonical : e.writer q.canonical = e.writer q := by
  simp [writer_eq, writeQuad]

theorem foldlM_readInto {ps : List Position} {q₀ : EncodedQuad} {rest : Bytes}
    {write : EncodedTerm → Bytes} (h : ∀ p ∈ ps, ∀ rest, TermReader.readTerm
      (write (q.term p) ++ rest) = .ok ((q.term p).canonical, rest)) :
    (ps.foldlM TermReader.readInto q₀ : TermReader EncodedQuad)
      (ps.flatMap (fun p => write (q.term p)) ++ rest) =
      .ok (ps.foldl (fun quad p => quad.set (q.canonical.term p) p) q₀, rest) := by
  induction ps generalizing q₀
  case nil => rfl
  case cons p ps hi =>
    simp only [List.forall_mem_cons] at h
    have hr {rest} : TermReader.readInto q₀ p (write (q.term p) ++ rest) =
        .ok (q₀.set (q.canonical.term p) p, rest) := by
      rw [TermReader.readInto, TermReader.bind_apply (h.1 rest), EncodedQuad.term_canonical]
      rfl
    simp only [List.flatMap_cons, List.append_assoc, List.foldlM_cons]
    rw [TermReader.bind_apply hr, List.foldl_cons, ← hi h.2]

-- A quad is read back from keys of any form that allows to read the terms back.
theorem decode_flatMap {write : EncodedTerm → Bytes}
    (h : ∀ p ∈ e.positions, ∀ rest, TermReader.readTerm (write (q.term p) ++ rest) =
      .ok ((q.term p).canonical, rest)) (hg : q.graphName = .defaultGraph ↔ e.forDefaultGraph) :
    e.decode (e.positions.flatMap fun p => write (q.term p)) = .ok q.canonical := by
  have hr : TermReader.readQuad e.positions
      ((e.positions.flatMap fun p => write (q.term p)) ++ []) = .ok _ := foldlM_readInto h
  have hg : e.forDefaultGraph → q.canonical.graphName = .defaultGraph := by
    simpa [EncodedQuad.canonical] using hg.mpr
  rw [decode, reader_eq, ← List.append_nil (e.positions.flatMap _), hr]
  cases e
  case dspo | dpos | dosp =>
    rcases hq : q.canonical
    simp_all [forDefaultGraph, positions, EncodedQuad.set, EncodedQuad.term, bind, Except.bind,
      pure, Except.pure]
  all_goals rfl

-- The keys of an index determine its quads.
theorem Indexes.decode_writer (h : e.Indexes q) : e.decode (e.writer q) = .ok q.canonical := by
  rw [writer_eq]
  exact decode_flatMap (fun p hp _ => TermReader.readTerm_writeTerm (h.isTerm hp)) h.graph

theorem Indexes.writer_eq_iff (h : e.Indexes q) (h' : e.Indexes q') :
    e.writer q = e.writer q' ↔ q.canonical = q'.canonical where
  mp he  := Except.ok.inj <| h.decode_writer.symm.trans <| he ▸ h'.decode_writer
  mpr he := by rw [← writer_canonical, he, writer_canonical]

end QuadEncoding

-- The timezone offsets in the date and time literals of a term.
def EncodedTerm.timezoneOffsets : EncodedTerm → List (BitVec 16)
  | dateTimeLiteral value | timeLiteral value | dateLiteral value | gYearMonthLiteral value
  | gYearLiteral value | gMonthDayLiteral value | gDayLiteral value | gMonthLiteral value =>
    value.timezoneOffset.toList
  | triple s p o => s.timezoneOffsets ++ p.timezoneOffsets ++ o.timezoneOffsets
  | _            => []

theorem Timestamp.canonical_eq_iff {t : Timestamp} :
    t.canonical = t ↔ -1 ∉ t.timezoneOffset.toList := by
  rcases t with ⟨value, _ | offset⟩
  case none => simp [canonical]
  case some => by_cases h : offset = -1 <;> simp [canonical, h, eq_comm]

theorem EncodedTerm.canonical_eq_iff {t : EncodedTerm} :
    t.canonical = t ↔ -1 ∉ t.timezoneOffsets := by
  induction t
  case triple hs hp ho =>
    simp only [canonical, triple.injEq, hs, hp, ho, timezoneOffsets, List.mem_append]
    tauto
  all_goals simp [canonical, timezoneOffsets, Timestamp.canonical_eq_iff]

theorem EncodedQuad.canonical_eq_iff {q : EncodedQuad} :
    q.canonical = q ↔ ∀ p, -1 ∉ (q.term p).timezoneOffsets := by
  simp only [← EncodedTerm.canonical_eq_iff, ← term_canonical]
  constructor
  · intro h p
    rw [h]
  · intro h
    have hs := h .subject
    have hp := h .predicate
    have ho := h .object
    have hg := h .graphName
    simp only [term] at hs hp ho hg
    cases q
    simp_all [canonical]

-- What is written is read back unless an offset is -1 minutes, whose bytes stand for a missing
-- offset.
theorem readTerm_identical_iff (t : EncodedTerm) (e : QuadEncoding) (q : EncodedQuad) :
    (t.IsTerm → ((∀ rest, TermReader.readTerm (writeTerm t ++ rest) = .ok (t, rest)) ↔
      -1 ∉ t.timezoneOffsets)) ∧
    (e.Indexes q → (e.decode (e.writer q) = .ok q ↔ ∀ p, -1 ∉ (q.term p).timezoneOffsets)) := by
  refine ⟨fun ht => ?_, fun hq => ?_⟩
  · simp [TermReader.readTerm_writeTerm ht, EncodedTerm.canonical_eq_iff]
  · simp [hq.decode_writer, EncodedQuad.canonical_eq_iff]

-- The start of the year 1 in UTC, in a timezone that is one minute behind.
def minuteBehind : EncodedTerm := .dateTimeLiteral ⟨0, some (-1)⟩

theorem readTerm_minuteBehind :
    TermReader.readTerm (writeTerm minuteBehind) = .ok (.dateTimeLiteral ⟨0, none⟩, []) ∧
    minuteBehind ≠ .dateTimeLiteral ⟨0, none⟩ :=
  ⟨rfl, by decide⟩

theorem readTerm_identical_sample :
    let t : EncodedTerm := .triple (.namedNode ⟨⟨.replicate 16 0, rfl⟩⟩)
      (.namedNode ⟨⟨.replicate 16 1, rfl⟩⟩) (.dateTimeLiteral ⟨0, some 60⟩)
    t.IsTerm ∧ TermReader.readTerm (writeTerm t ++ [7]) = .ok (t, [7]) :=
  ⟨by simp [EncodedTerm.IsTerm],
    (readTerm_identical_iff _ .spog ⟨.defaultGraph, .defaultGraph, .defaultGraph, .defaultGraph⟩).1
      (by simp [EncodedTerm.IsTerm]) |>.mpr (by decide) [7]⟩
