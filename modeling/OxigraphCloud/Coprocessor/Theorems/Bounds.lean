import OxigraphCloud.Coprocessor.Theorems.Filter
import OxigraphCloud.Objects.TermLayout

-- Which byte strings the plugin can be asked about without indexing out of their bounds.
namespace Coprocessor

namespace Checked

variable {x : Checked ε α} {f : α → Checked ε β}

def Panics (x : Checked ε α) : Prop := x.run = none

def Returns (x : Checked ε α) (a : α) : Prop := x.run = some (.ok a)

@[simp]
theorem panics_bind_iff : (x >>= f).Panics ↔ x.Panics ∨ ∃ a, x.Returns a ∧ (f a).Panics := by
  rcases x with - | ⟨- | a⟩
  case none => exact iff_of_true rfl (.inl rfl)
  case some.error => exact iff_of_false (by rintro ⟨⟩) (by rintro (⟨⟨⟩⟩ | ⟨_, ⟨⟩, -⟩))
  case some.ok =>
    constructor
    · exact fun h => .inr ⟨a, rfl, h⟩
    · rintro (⟨⟨⟩⟩ | ⟨_, ⟨⟩, h⟩)
      exact h

@[simp]
theorem returns_bind_iff : (x >>= f).Returns b ↔ ∃ a, x.Returns a ∧ (f a).Returns b := by
  rcases x with - | ⟨- | a⟩
  case none => exact iff_of_false (by rintro ⟨⟩) (by rintro ⟨_, ⟨⟩, -⟩)
  case some.error => exact iff_of_false (by rintro ⟨⟩) (by rintro ⟨_, ⟨⟩, -⟩)
  case some.ok =>
    constructor
    · exact fun h => ⟨a, rfl, h⟩
    · rintro ⟨_, ⟨⟩, h⟩
      exact h

@[simp]
theorem not_panics_pure : ¬(pure a : Checked ε α).Panics := by
  rintro ⟨⟩

@[simp]
theorem returns_pure_iff : (pure a : Checked ε α).Returns b ↔ a = b := by
  constructor
  · rintro ⟨⟩
    rfl
  · rintro rfl
    rfl

@[simp]
theorem not_panics_throw {e : ε} : ¬(throw e : Checked ε α).Panics := by
  rintro ⟨⟩

@[simp]
theorem not_returns_throw {e : ε} : ¬(throw e : Checked ε α).Returns a := by
  rintro ⟨⟩

@[simp]
theorem panics_sliceFrom_iff :
    (sliceFrom data start : Checked ε Bytes).Panics ↔ data.length < start := by
  unfold sliceFrom
  split
  case isTrue h => simpa using h
  case isFalse h => exact iff_of_true rfl (not_le.mp h)

@[simp]
theorem returns_sliceFrom_iff :
    (sliceFrom data start : Checked ε Bytes).Returns rest ↔
      start ≤ data.length ∧ data.drop start = rest := by
  unfold sliceFrom
  split
  case isTrue h => simp [h]
  case isFalse h => exact iff_of_false (by rintro ⟨⟩) (h ·.1)

@[simp]
theorem panics_slice_iff :
    (slice data start (start + n) : Checked ε Bytes).Panics ↔ data.length < start + n := by
  unfold slice
  split
  case isTrue h => simpa using h.2
  case isFalse h =>
    refine iff_of_true rfl ?_
    simpa using h

@[simp]
theorem returns_slice_iff :
    (slice data start (start + n) : Checked ε Bytes).Returns part ↔
      start + n ≤ data.length ∧ (data.drop start).take n = part := by
  unfold slice
  split
  case isTrue h => simp [h.2, List.drop_take]
  case isFalse h => exact iff_of_false (by rintro ⟨⟩) (fun hr => h ⟨by omega, hr.1⟩)

end Checked

-- The data starts with a term of `n` bytes, by what its types say. The data may end before.
inductive Announces : Bytes → ℕ → Prop
  | plain :
    TermType.ofId tag = some type → type.fields = some fs →
    Announces (tag :: data) (1 + TermType.width fs)
  | triple :
    TermType.ofId tag = some type → type.fields = none →
    Announces data i → Announces (data.drop i) j → Announces (data.drop (i + j)) k →
    Announces (tag :: data) (1 + i + j + k)

-- The data ends inside of the subject or the predicate of a triple.
inductive Broken : Bytes → Prop
  | subject :
    TermType.ofId tag = some type → type.fields = none →
    Broken data → Broken (tag :: data)
  | afterSubject :
    TermType.ofId tag = some type → type.fields = none →
    Announces data i → data.length < i → Broken (tag :: data)
  | predicate :
    TermType.ofId tag = some type → type.fields = none →
    Announces data i → Broken (data.drop i) → Broken (tag :: data)
  | afterPredicate :
    TermType.ofId tag = some type → type.fields = none →
    Announces data i → Announces (data.drop i) j → data.length < i + j → Broken (tag :: data)
  | object :
    TermType.ofId tag = some type → type.fields = none →
    Announces data i → Announces (data.drop i) j → Broken (data.drop (i + j)) →
    Broken (tag :: data)

theorem encodedTermLenFuel_cons (fuel : ℕ) (tag : UInt8) (data : Bytes) :
    encodedTermLenFuel (fuel + 1) (tag :: data) =
      match (TermType.ofId tag).map TermType.fields with
      | none           => throw "unknown term type byte"
      | some (some fs) => pure (1 + TermType.width fs)
      | some none      =>
        (List.range 3).foldlM (fun offset _ => do
          return offset + (← encodedTermLenFuel fuel (← .sliceFrom (tag :: data) offset))) 1 := by
  rw [encodedTermLenFuel]
  split
  all_goals
    rename_i h
    simp only [TermType.ofId, h]
    rfl

-- What the fuel suffices for.
structure Measures (len : Checked String ℕ) (data : Bytes) : Prop where
  returns_iff : ∀ n, len.Returns n ↔ Announces data n
  panics_iff  : len.Panics ↔ Broken data

theorem drop_one_add_cons (tag : UInt8) (data : Bytes) (n : ℕ) :
    (tag :: data).drop (1 + n) = data.drop n := by
  rw [Nat.add_comm, List.drop_succ_cons]

theorem announces_triple_iff (ht : TermType.ofId tag = some type) (hf : type.fields = none) :
    Announces (tag :: data) n ↔ ∃ i, Announces data i ∧ ∃ j, Announces (data.drop i) j ∧
      ∃ k, Announces (data.drop (i + j)) k ∧ 1 + (i + j) + k = n := by
  constructor
  case mp =>
    intro h
    cases h
    case plain hf' ht' =>
      obtain rfl := Option.some.inj (ht.symm.trans ht')
      rw [hf] at hf'
      cases hf'
    case triple i j k _ _ hi hj hk => exact ⟨i, hi, j, hj, k, hk, by omega⟩
  case mpr =>
    rintro ⟨i, hi, j, hj, k, hk, rfl⟩
    exact Nat.add_assoc 1 i j ▸ .triple ht hf hi hj hk

theorem broken_triple_iff (ht : TermType.ofId tag = some type) (hf : type.fields = none) :
    Broken (tag :: data) ↔ Broken data ∨ ∃ i, Announces data i ∧
      ((data.length < i ∨ i ≤ data.length ∧ Broken (data.drop i)) ∨
        ∃ j, Announces (data.drop i) j ∧
          (data.length < i + j ∨ i + j ≤ data.length ∧ Broken (data.drop (i + j)))) := by
  -- Nothing is broken behind the end of the data.
  have hn {n} : Broken (data.drop n) → n ≤ data.length := by
    intro hb
    by_contra hl
    rw [List.drop_of_length_le (by omega)] at hb
    cases hb
  constructor
  case mp =>
    intro h
    cases h
    case subject hb => exact .inl hb
    case afterSubject i _ _ hi hl => exact .inr ⟨i, hi, .inl (.inl hl)⟩
    case predicate i _ _ hi hb => exact .inr ⟨i, hi, .inl (.inr ⟨hn hb, hb⟩)⟩
    case afterPredicate i j _ _ hi hj hl => exact .inr ⟨i, hi, .inr ⟨j, hj, .inl hl⟩⟩
    case object i j _ _ hi hj hb => exact .inr ⟨i, hi, .inr ⟨j, hj, .inr ⟨hn hb, hb⟩⟩⟩
  case mpr =>
    rintro (hb | ⟨i, hi, (hl | ⟨-, hb⟩) | ⟨j, hj, hl | ⟨-, hb⟩⟩⟩)
    · exact .subject ht hf hb
    · exact .afterSubject ht hf hi hl
    · exact .predicate ht hf hi hb
    · exact .afterPredicate ht hf hi hj hl
    · exact .object ht hf hi hj hb

section

variable {len : Bytes → Checked String ℕ}

-- The term behind `offset` is skipped.
def child (len : Bytes → Checked String ℕ) (data : Bytes) (offset : ℕ) : Checked String ℕ := do
  return offset + (← len (← .sliceFrom data offset))

theorem returns_child_iff (tag : UInt8) (h : Measures (len (data.drop i)) (data.drop i)) :
    (child len (tag :: data) (1 + i)).Returns n ↔
      ∃ j, Announces (data.drop i) j ∧ 1 + (i + j) = n := by
  have hl (j) : Announces (data.drop i) j → 1 + i ≤ (tag :: data).length := by
    intro ha
    by_contra hl
    rw [List.length_cons] at hl
    rw [List.drop_of_length_le (by omega)] at ha
    cases ha
  simp only [child, Checked.returns_bind_iff, Checked.returns_sliceFrom_iff,
    Checked.returns_pure_iff, drop_one_add_cons, and_assoc, exists_and_left, exists_eq_left',
    h.returns_iff, Nat.add_assoc]
  exact ⟨And.right, fun hj => ⟨hl _ hj.choose_spec.1, hj⟩⟩

theorem panics_child_iff (tag : UInt8) (h : Measures (len (data.drop i)) (data.drop i)) :
    (child len (tag :: data) (1 + i)).Panics ↔
      data.length < i ∨ i ≤ data.length ∧ Broken (data.drop i) := by
  simp only [child, Checked.panics_bind_iff, Checked.panics_sliceFrom_iff,
    Checked.returns_sliceFrom_iff, Checked.not_panics_pure, and_false, exists_false, or_false,
    drop_one_add_cons, and_assoc, exists_and_left, exists_eq_left', h.panics_iff]
  rw [List.length_cons, Nat.add_comm 1 i, Nat.add_lt_add_iff_right, Nat.add_le_add_iff_right]

-- The loop over the nested terms.
theorem measures_triple (ht : TermType.ofId tag = some type) (hf : type.fields = none)
    (h : ∀ start, Measures (len (data.drop start)) (data.drop start)) :
    Measures ((List.range 3).foldlM (fun offset _ => child len (tag :: data) offset) 1)
      (tag :: data) := by
  have h₁ {n} : (child len (tag :: data) 1).Returns n ↔ ∃ i, Announces data i ∧ 1 + i = n := by
    simpa using returns_child_iff tag (h 0)
  have h₂ : (child len (tag :: data) 1).Panics ↔ Broken data := by
    simpa using panics_child_iff tag (h 0)
  constructor
  case returns_iff =>
    intro n
    rw [announces_triple_iff ht hf]
    simp only [List.range, List.range.loop, List.foldlM_cons, List.foldlM_nil, bind_pure,
      Checked.returns_bind_iff, h₁, exists_exists_and_eq_and, returns_child_iff tag (h _),
      Nat.add_assoc]
  case panics_iff =>
    rw [broken_triple_iff ht hf]
    simp only [List.range, List.range.loop, List.foldlM_cons, List.foldlM_nil, bind_pure,
      Checked.panics_bind_iff, h₁, h₂, exists_exists_and_eq_and, returns_child_iff tag (h _),
      panics_child_iff tag (h _)]

end

-- One more than the length of the data suffices as fuel.
theorem measures_encodedTermLenFuel (h : data.length < fuel) :
    Measures (encodedTermLenFuel fuel data) data := by
  induction fuel generalizing data
  case zero => omega
  case succ fuel hi =>
    cases data
    case nil =>
      refine ⟨fun n => ?_, ?_⟩
      · exact iff_of_false (by rintro ⟨⟩) (by rintro ⟨⟩)
      · exact iff_of_false (by rintro ⟨⟩) (by rintro ⟨⟩)
    case cons tag data =>
      have hc (start) : Measures (encodedTermLenFuel fuel (data.drop start)) (data.drop start) := by
        apply hi
        simp only [List.length_drop, List.length_cons] at h ⊢
        omega
      rw [encodedTermLenFuel_cons]
      cases ht : TermType.ofId tag
      case none =>
        refine ⟨fun n => ?_, ?_⟩
        · exact iff_of_false Checked.not_returns_throw fun ha => by cases ha <;> simp_all
        · exact iff_of_false Checked.not_panics_throw fun ha => by cases ha <;> simp_all
      case some type =>
        cases hf : type.fields
        case none =>
          simp only [Option.map_some, hf]
          exact measures_triple ht hf hc
        case some fs =>
          simp only [Option.map_some, hf]
          refine ⟨fun n => ?_, ?_⟩
          · rw [Checked.returns_pure_iff]
            constructor
            · rintro rfl
              exact .plain ht hf
            · intro ha
              cases ha <;> simp_all
          · exact iff_of_false Checked.not_panics_pure fun ha => by cases ha <;> simp_all

theorem measures_encodedTermLen (data : Bytes) : Measures (encodedTermLen data) data :=
  measures_encodedTermLenFuel (Nat.lt_succ_self _)

-- The term that is `position` terms behind the start of a key, if the key has all of it.
def TermAt : (position : ℕ) → (key term : Bytes) → Prop
  | 0, key, term            => Announces key term.length ∧ term <+: key
  | position + 1, key, term => ∃ n, Announces key n ∧ TermAt position (key.drop n) term

-- The key ends inside of this term, or inside of a triple before it.
def CutAt : (position : ℕ) → (key : Bytes) → Prop
  | 0, key            => Broken key ∨ ∃ n, Announces key n ∧ key.length < n
  | position + 1, key => Broken key ∨ ∃ n, Announces key n ∧ CutAt position (key.drop n)

theorem not_announces_nil : ¬Announces [] n := by
  rintro ⟨⟩

theorem not_broken_nil : ¬Broken [] := by
  rintro ⟨⟩

theorem not_cutAt_nil : ¬CutAt position [] := by
  cases position <;> simp [CutAt, not_announces_nil, not_broken_nil]

theorem not_termAt_nil : ¬TermAt position [] term := by
  cases position <;> simp [TermAt, not_announces_nil]

theorem extractTermBytesFrom_spec (key : Bytes) (offset position : ℕ) :
    ((extractTermBytesFrom key offset position).Panics ↔ CutAt position (key.drop offset)) ∧
    ∀ term, (extractTermBytesFrom key offset position).Returns term ↔
      TermAt position (key.drop offset) term := by
  induction position generalizing offset
  all_goals
    rw [extractTermBytesFrom]
    split
  case zero.isTrue hl | succ.isTrue hl =>
    rw [List.drop_of_length_le hl]
    exact ⟨iff_of_false Checked.not_panics_throw not_cutAt_nil,
      fun _ => iff_of_false Checked.not_returns_throw not_termAt_nil⟩
  case zero.isFalse hl =>
    have hm := measures_encodedTermLen (key.drop offset)
    simp only [Checked.panics_bind_iff, Checked.returns_bind_iff, Checked.panics_slice_iff,
      Checked.returns_slice_iff, hm.panics_iff, hm.returns_iff, CutAt, TermAt]
    refine ⟨or_congr_right <| exists_congr fun n => and_congr_right fun _ => ?_, fun term => ?_⟩
    · rw [List.length_drop]
      omega
    constructor
    · rintro ⟨n, hn, hb, rfl⟩
      have ht : (List.take n (key.drop offset)).length = n := by
        rw [List.length_take, List.length_drop]
        omega
      exact ⟨ht.symm ▸ hn, List.take_prefix ..⟩
    · rintro ⟨hn, hp⟩
      have hb := hp.length_le
      rw [List.length_drop] at hb
      exact ⟨term.length, hn, by omega, (List.prefix_iff_eq_take.mp hp).symm⟩
  case succ.isFalse hi hl =>
    have hm := measures_encodedTermLen (key.drop offset)
    simp only [Checked.panics_bind_iff, Checked.returns_bind_iff, hm.panics_iff,
      hm.returns_iff, CutAt, TermAt, (hi _).1, (hi _).2, List.drop_drop, implies_true, and_self]

theorem panics_extractTermBytes_iff {key : Bytes} :
    (extractTermBytes key position).Panics ↔ CutAt position key :=
  (extractTermBytesFrom_spec key 0 position).1

theorem returns_extractTermBytes_iff {key : Bytes} :
    (extractTermBytes key position).Returns term ↔ TermAt position key term :=
  (extractTermBytesFrom_spec key 0 position).2 term

-- The terms at several positions, one behind the other.
def TermsAt (key : Bytes) : (positions : List ℕ) → (terms : Bytes) → Prop
  | [], terms                    => terms = []
  | position :: positions, terms =>
    ∃ term, TermAt position key term ∧ ∃ rest, TermsAt key positions rest ∧ terms = term ++ rest

-- The first of the positions at which there is no term is one at which the key is cut.
def CutIn (key : Bytes) : (positions : List ℕ) → Prop
  | []                    => False
  | position :: positions =>
    CutAt position key ∨ (∃ term, TermAt position key term) ∧ CutIn key positions

theorem extractConcatTermBytes_spec (key : Bytes) (positions : List ℕ) :
    ((extractConcatTermBytes key positions).Panics ↔ CutIn key positions) ∧
    ∀ terms, (extractConcatTermBytes key positions).Returns terms ↔
      TermsAt key positions terms := by
  suffices hs : ∀ result : Bytes,
      let concat : Checked String Bytes := positions.foldlM (fun result position => do
        return result ++ (← extractTermBytes key position)) result
      (concat.Panics ↔ CutIn key positions) ∧
      ∀ terms, concat.Returns terms ↔ ∃ rest, TermsAt key positions rest ∧ result ++ rest = terms by
    refine ⟨(hs []).1, fun terms => ((hs []).2 terms).trans ?_⟩
    simp
  induction positions
  case nil =>
    intro result
    simp [CutIn, TermsAt]
  case cons position positions hi =>
    intro result
    simp only [List.foldlM_cons, Checked.panics_bind_iff, Checked.returns_bind_iff,
      Checked.not_panics_pure, Checked.returns_pure_iff, panics_extractTermBytes_iff,
      returns_extractTermBytes_iff, exists_exists_and_eq_and, (hi _).1, (hi _).2, CutIn, TermsAt,
      and_false, exists_false, or_false, exists_and_right, true_and]
    intro terms
    constructor
    · rintro ⟨term, ht, rest, hr, rfl⟩
      exact ⟨term ++ rest, ⟨term, ht, rest, hr, rfl⟩, by rw [List.append_assoc]⟩
    · rintro ⟨_, ⟨term, ht, rest, hr, rfl⟩, rfl⟩
      exact ⟨term, ht, rest, hr, by rw [List.append_assoc]⟩

-- What a filter says about a key, and the positions at which its evaluation looks.
mutual

def FilterPredicate.Accepts (key : Bytes) : FilterPredicate → Prop
  | .termEquals position value        => TermAt position key value
  | .termTypeEquals position typeByte => ∃ term, TermAt position key term ∧
    term.head? = some typeByte
  | .and preds => FilterPredicate.AcceptsAll key preds
  | .or preds  => FilterPredicate.AcceptsAny key preds

def FilterPredicate.AcceptsAll (key : Bytes) : List FilterPredicate → Prop
  | []         => True
  | p :: preds => p.Accepts key ∧ FilterPredicate.AcceptsAll key preds

def FilterPredicate.AcceptsAny (key : Bytes) : List FilterPredicate → Prop
  | []         => False
  | p :: preds => p.Accepts key ∨ FilterPredicate.AcceptsAny key preds

end

mutual

def FilterPredicate.LooksAt (key : Bytes) (i : ℕ) : FilterPredicate → Prop
  | .termEquals position _     => position = i
  | .termTypeEquals position _ => position = i
  | .and preds                 => FilterPredicate.AllLookAt key i preds
  | .or preds                  => FilterPredicate.AnyLookAt key i preds

-- Behind a predicate that does not hold, nothing is looked at.
def FilterPredicate.AllLookAt (key : Bytes) (i : ℕ) : List FilterPredicate → Prop
  | []         => False
  | p :: preds => p.LooksAt key i ∨ p.Accepts key ∧ FilterPredicate.AllLookAt key i preds

def FilterPredicate.AnyLookAt (key : Bytes) (i : ℕ) : List FilterPredicate → Prop
  | []         => False
  | p :: preds => p.LooksAt key i ∨ ¬p.Accepts key ∧ FilterPredicate.AnyLookAt key i preds

end

theorem extractTermAt_run_eq (key : Bytes) (position : ℕ) :
    (extractTermAt key position).run = (extractTermBytes key position).run.map Except.toOption := by
  rw [extractTermAt_eq]
  rfl

-- A result is given exactly if no position is cut, and says whether the filter accepts the key.
structure Evaluates (result : Option Bool) (looksAt : ℕ → Prop) (accepts : Prop) (key : Bytes) :
    Prop where
  eq_none_iff : result = none ↔ ∃ i, looksAt i ∧ CutAt i key
  accepts_iff : ∀ b, result = some b → (b = true ↔ accepts)

theorem evaluates_term (key : Bytes) (position : ℕ) (test : Option Bytes → Bool)
    (hn : test none = false) :
    Evaluates (do return test (← (extractTermAt key position).run)) (position = ·)
      (∃ term, TermAt position key term ∧ test (some term) = true) key := by
  rw [extractTermAt_run_eq]
  have hp : (extractTermBytes key position).run = none ↔ CutAt position key :=
    panics_extractTermBytes_iff
  have hr (term) : (extractTermBytes key position).run = some (.ok term) ↔
      TermAt position key term :=
    returns_extractTermBytes_iff
  rcases hx : (extractTermBytes key position).run with - | ⟨e | term⟩
  case none =>
    refine ⟨iff_of_true rfl ⟨position, rfl, hp.mp hx⟩, fun b h => by cases h⟩
  case some.error =>
    refine ⟨iff_of_false (by rintro ⟨⟩) ?_, fun b h => ?_⟩
    · rintro ⟨i, rfl, hc⟩
      rw [hp.mpr hc] at hx
      cases hx
    · obtain rfl : test none = b := Option.some.inj h
      refine iff_of_false (by simp [hn]) ?_
      rintro ⟨term, ht, -⟩
      rw [(hr term).mpr ht] at hx
      cases hx
  case some.ok =>
    refine ⟨iff_of_false (by rintro ⟨⟩) ?_, fun b h => ?_⟩
    · rintro ⟨i, rfl, hc⟩
      rw [hp.mpr hc] at hx
      cases hx
    · obtain rfl : test (some term) = b := Option.some.inj h
      constructor
      · exact fun ht => ⟨term, (hr term).mp hx, ht⟩
      · rintro ⟨term', ht, h'⟩
        obtain rfl : term = term' := by simpa [hx] using (hr term').mpr ht
        exact h'

namespace Evaluates

variable {x y : Option Bool} {l₁ l₂ : ℕ → Prop} {a₁ a₂ : Prop} {key : Bytes}

theorem pure (b : Bool) : Evaluates (Pure.pure b) (fun _ => False) (b = true) key where
  eq_none_iff := iff_of_false (by rintro ⟨⟩) (by rintro ⟨_, ⟨⟩, -⟩)
  accepts_iff := by
    rintro _ ⟨⟩
    rfl

-- A failure of the first step is one of both. Otherwise the second step depends on the result.
theorem bind {k : Bool → Option Bool} (h₁ : Evaluates x l₁ a₁ key)
    (h₂ : ∀ b : Bool, (b = true ↔ a₁) → Evaluates (k b) l₂ a₂ key) :
    Evaluates (x >>= k) (fun i => l₁ i ∨ l₂ i) a₂ key := by
  rcases x with - | b
  case none =>
    obtain ⟨i, hl, hc⟩ := h₁.eq_none_iff.mp rfl
    exact ⟨iff_of_true rfl ⟨i, .inl hl, hc⟩, fun b h => by cases h⟩
  case some =>
    have hn : ¬∃ i, l₁ i ∧ CutAt i key := fun h => by cases h₁.eq_none_iff.mpr h
    have h₂ := h₂ b (h₁.accepts_iff b rfl)
    refine ⟨h₂.eq_none_iff.trans ?_, h₂.accepts_iff⟩
    constructor
    · rintro ⟨i, hl, hc⟩
      exact ⟨i, .inr hl, hc⟩
    · rintro ⟨i, hl | hl, hc⟩
      · exact absurd ⟨i, hl, hc⟩ hn
      · exact ⟨i, hl, hc⟩

-- The second result is not needed if the first one is false.
theorem and (h₁ : Evaluates x l₁ a₁ key) (h₂ : Evaluates y l₂ a₂ key) :
    Evaluates (do if ← x then y else return false) (fun i => l₁ i ∨ a₁ ∧ l₂ i) (a₁ ∧ a₂) key := by
  refine h₁.bind fun b ha => ?_
  cases b
  case false => simpa [← ha] using pure false
  case true => simpa [← ha] using h₂

theorem or (h₁ : Evaluates x l₁ a₁ key) (h₂ : Evaluates y l₂ a₂ key) :
    Evaluates (do if ← x then return true else y) (fun i => l₁ i ∨ ¬a₁ ∧ l₂ i) (a₁ ∨ a₂) key := by
  refine h₁.bind fun b ha => ?_
  cases b
  case false => simpa [← ha] using h₂
  case true => simpa [← ha] using pure true

end Evaluates

mutual

theorem evaluateFilter_evaluates (key : Bytes) (p : FilterPredicate) :
    Evaluates (evaluateFilter key p) (p.LooksAt key) (p.Accepts key) key := by
  cases p
  case termEquals position value =>
    have h := evaluates_term key position (fun term => decide (term = some value)) (by simp)
    simp only [decide_eq_true_iff, Option.some.injEq, exists_eq_right] at h
    simpa only [evaluateFilter, FilterPredicate.LooksAt, FilterPredicate.Accepts] using h
  case termTypeEquals position typeByte =>
    have h := evaluates_term key position
      (fun term => term.any fun t => decide (t.head? = some typeByte)) rfl
    simpa only [evaluateFilter, FilterPredicate.LooksAt, FilterPredicate.Accepts, Option.any_some,
      decide_eq_true_iff] using h
  case and preds =>
    simpa only [evaluateFilter, FilterPredicate.LooksAt, FilterPredicate.Accepts] using
      evaluateAll_evaluates key preds
  case or preds =>
    simpa only [evaluateFilter, FilterPredicate.LooksAt, FilterPredicate.Accepts] using
      evaluateAny_evaluates key preds

theorem evaluateAll_evaluates (key : Bytes) (preds : List FilterPredicate) :
    Evaluates (evaluateAll key preds) (FilterPredicate.AllLookAt key · preds)
      (FilterPredicate.AcceptsAll key preds) key := by
  cases preds
  case nil => simpa only [evaluateAll, FilterPredicate.AllLookAt, FilterPredicate.AcceptsAll] using
    Evaluates.pure true
  case cons p preds =>
    rw [evaluateAll, FilterPredicate.AcceptsAll]
    exact (evaluateFilter_evaluates key p).and (evaluateAll_evaluates key preds)

theorem evaluateAny_evaluates (key : Bytes) (preds : List FilterPredicate) :
    Evaluates (evaluateAny key preds) (FilterPredicate.AnyLookAt key · preds)
      (FilterPredicate.AcceptsAny key preds) key := by
  cases preds
  case nil => simpa only [evaluateAny, FilterPredicate.AnyLookAt, FilterPredicate.AcceptsAny,
    Bool.false_eq_true] using Evaluates.pure false
  case cons p preds =>
    rw [evaluateAny, FilterPredicate.AcceptsAny]
    exact (evaluateFilter_evaluates key p).or (evaluateAny_evaluates key preds)

end

namespace IndexScanParams

variable (params : IndexScanParams)

-- The join terms of the key are cut.
def Cuts (key : Bytes) : Prop :=
  params.fullPrefix <+: key ∧ params.bloomFilter.isSome ∧
    CutIn (key.drop 1) params.bloomPositions

-- The join terms of the key are not in the filter.
def Prunes (key : Bytes) : Prop :=
  ∃ filter ∈ params.bloomFilter, ∃ terms,
    TermsAt (key.drop 1) params.bloomPositions terms ∧ bloomCheck filter terms = false

def Keeps (key : Bytes) : Prop := params.fullPrefix <+: key ∧ ¬params.Prunes key

open Classical in
-- A scan gets behind these pairs unless they fill it up.
def Passes (kept : ℕ) (pairs : List KvPair) : Prop :=
  params.limit = 0 ∨ kept + pairs.countP (fun pair => params.Keeps pair.1) < params.limit

variable {params}

theorem prunes_eq_none_iff (hp : params.fullPrefix <+: key) :
    params.prunes key = none ↔ params.Cuts key := by
  have hs := (extractConcatTermBytes_spec (key.drop 1) params.bloomPositions).1
  unfold prunes Cuts
  cases params.bloomFilter
  case none => simp
  case some bloomBytes =>
    rw [← hs, Checked.Panics]
    rcases (extractConcatTermBytes (key.drop 1) params.bloomPositions).run with - | ⟨e | terms⟩
    all_goals simp [hp]

theorem prunes_eq_some_iff (h : params.prunes key = some b) : b = true ↔ params.Prunes key := by
  have hs := (extractConcatTermBytes_spec (key.drop 1) params.bloomPositions).2
  unfold prunes at h
  unfold Prunes
  cases hf : params.bloomFilter
  case none =>
    rw [hf] at h
    cases h
    simp
  case some bloomBytes =>
    simp only [← hs, Checked.Returns]
    rw [hf] at h
    rcases hx : (extractConcatTermBytes (key.drop 1) params.bloomPositions).run with
      - | ⟨e | terms⟩
    all_goals
      simp only [hx] at h
      cases h
    case some.error => simp
    case some.ok => simp

theorem passes_cons_iff (hk : params.Keeps pair.1) :
    params.Passes kept (pair :: pairs) ↔ params.Passes (kept + 1) pairs := by
  rw [Passes, Passes, List.countP_cons_of_pos (by simpa using hk)]
  omega

theorem passes_cons_iff_of_not (hk : ¬params.Keeps pair.1) :
    params.Passes kept (pair :: pairs) ↔ params.Passes kept pairs := by
  rw [Passes, Passes, List.countP_cons_of_neg (by simpa using hk)]

theorem exists_split_cons_iff {P : List α → α → Prop} {a : α} {l : List α} :
    (∃ before b after, a :: l = before ++ b :: after ∧ P before b) ↔
      P [] a ∨ ∃ before b after, l = before ++ b :: after ∧ P (a :: before) b := by
  constructor
  · rintro ⟨before, b, after, he, h⟩
    cases before
    case nil =>
      cases he
      exact .inl h
    case cons c before =>
      cases he
      exact .inr ⟨before, b, after, rfl, h⟩
  · rintro (h | ⟨before, b, after, rfl, h⟩)
    · exact ⟨[], a, l, rfl, h⟩
    · exact ⟨a :: before, b, after, rfl, h⟩

-- A scan panics at the first pair that it gets to whose join terms are cut.
theorem scanFrom_eq_none_iff (result : ScanResult) (pairs : List KvPair)
    (hl : params.limit = 0 ∨ result.pairs.length < params.limit) :
    params.scanFrom result pairs = none ↔ ∃ before pair after, pairs = before ++ pair :: after ∧
      params.Passes result.pairs.length before ∧ params.Cuts pair.1 := by
  induction pairs generalizing result
  case nil => simp [scanFrom]
  case cons pair pairs hi =>
    have h₀ : params.Passes result.pairs.length [] := by simpa [Passes] using hl
    rw [exists_split_cons_iff, scanFrom]
    cases hp : params.fullPrefix.isPrefixOf pair.1
    case false =>
      have hp' : ¬params.fullPrefix <+: pair.1 := by simp [← List.isPrefixOf_iff_prefix, hp]
      have hc : ¬params.Cuts pair.1 := (hp' ·.1)
      have hk : ¬params.Keeps pair.1 := (hp' ·.1)
      simpa [hc, passes_cons_iff_of_not hk] using hi result hl
    case true =>
      have hp' := List.isPrefixOf_iff_prefix.mp hp
      cases hr : params.prunes pair.1
      case none =>
        have hc := (prunes_eq_none_iff hp').mp hr
        exact iff_of_true (by simp) (.inl ⟨h₀, hc⟩)
      case some b =>
        have hc : ¬params.Cuts pair.1 := by
          rw [← prunes_eq_none_iff hp', hr]
          simp
        have hb := prunes_eq_some_iff hr
        cases b
        case true =>
          have hk : ¬params.Keeps pair.1 := (·.2 (hb.mp rfl))
          simpa [hc, passes_cons_iff_of_not hk] using
            hi ⟨result.pairs, result.scannedKeys + 1⟩ hl
        case false =>
          have hk : params.Keeps pair.1 := ⟨hp', fun h => by cases hb.mpr h⟩
          simp only [hc, and_false, false_or, passes_cons_iff hk]
          by_cases hf : 0 < params.limit ∧ params.limit ≤ result.pairs.length + 1
          case pos =>
            -- The scan is full.
            have hn (before) : ¬params.Passes (result.pairs.length + 1) before := by
              rw [Passes]
              omega
            simp [hf, hn]
          case neg =>
            have hi := hi ⟨result.pairs ++ [(pair.1, pair.2)], result.scannedKeys + 1⟩ (by
              simp only [List.length_append, List.length_singleton]
              omega)
            simpa [hf] using hi

end IndexScanParams

theorem executeIndexScan_eq_none_iff (params : IndexScanParams) (pairs : List KvPair) :
    executeIndexScan params pairs = none ↔
      ∃ before pair after, pairs = before ++ pair :: after ∧
        params.Passes 0 before ∧ params.Cuts pair.1 :=
  IndexScanParams.scanFrom_eq_none_iff ⟨[], 0⟩ pairs (by simp only [List.length_nil]; omega)

theorem bitPos_div_lt {filter : Bytes} (hn : filter ≠ []) (h : BitVec 64 × BitVec 64) (i : ℕ) :
    bitPos h (filter.length * 8) i / 8 < filter.length := by
  have hp : 0 < filter.length * 8 := by
    have := List.length_pos_iff.mpr hn
    omega
  have := Nat.mod_lt (h.1 + BitVec.ofNat 64 i * h.2).toNat hp
  rw [bitPos]
  omega

-- Filtering looks at the keys behind the byte of the table.
theorem filterScanResults_eq_none_iff {predicate : FilterPredicate} {pairs : List KvPair} :
    filterScanResults predicate pairs = none ↔ ∃ pair ∈ pairs, ∃ table key,
      pair.1 = table :: key ∧ evaluateFilter key predicate = none := by
  induction pairs
  case nil => simp [filterScanResults]
  case cons pair pairs hi =>
    rw [List.exists_mem_cons_iff, ← hi, filterScanResults]
    rcases pair with ⟨_ | ⟨table, key⟩, value⟩
    case nil => cases filterScanResults predicate pairs <;> simp
    case cons =>
      rcases h : evaluateFilter key predicate with - | _ <;>
        cases filterScanResults predicate pairs <;> simp [h]

-- Navigation, filters and scans return if and only if the terms that they look at are not cut off.
theorem returns_iff (key : Bytes) (position : ℕ) (positions : List ℕ) (predicate : FilterPredicate)
    (params : IndexScanParams) (pairs : List KvPair) :
    ((encodedTermLen key).run ≠ none ↔ ¬Broken key) ∧
    ((extractTermBytes key position).run ≠ none ↔ ¬CutAt position key) ∧
    ((extractTermAt key position).run ≠ none ↔ ¬CutAt position key) ∧
    ((extractConcatTermBytes key positions).run ≠ none ↔ ¬CutIn key positions) ∧
    (evaluateFilter key predicate ≠ none ↔
      ∀ i, predicate.LooksAt key i → ¬CutAt i key) ∧
    (filterScanResults predicate pairs ≠ none ↔ ∀ pair ∈ pairs, ∀ table key,
      pair.1 = table :: key → ∀ i, predicate.LooksAt key i → ¬CutAt i key) ∧
    (executeIndexScan params pairs ≠ none ↔
      ∀ before pair after, pairs = before ++ pair :: after → params.Passes 0 before →
        ¬params.Cuts pair.1) ∧
    ∀ filter : Bytes, filter ≠ [] → ∀ h i, bitPos h (filter.length * 8) i / 8 < filter.length := by
  refine ⟨(measures_encodedTermLen key).panics_iff.not, panics_extractTermBytes_iff.not, ?_,
    (extractConcatTermBytes_spec key positions).1.not, ?_, ?_, ?_, fun _ => bitPos_div_lt⟩
  · rw [extractTermAt_run_eq, Ne, Option.map_eq_none_iff]
    exact panics_extractTermBytes_iff.not
  · rw [Ne, (evaluateFilter_evaluates key predicate).eq_none_iff]
    simp only [not_exists, not_and]
  · simp only [Ne, filterScanResults_eq_none_iff, (evaluateFilter_evaluates _ _).eq_none_iff,
      not_exists, not_and]
  · rw [Ne, executeIndexScan_eq_none_iff]
    simp only [not_exists, not_and]

-- A named node of which only the type is there, and a triple with such a subject.
theorem panics_cut :
    (extractTermBytes [1] 0).run = none ∧
    (encodedTermLen [48, 1]).run = none ∧
    evaluateFilter [1] (.termTypeEquals 0 1) = none ∧
    executeIndexScan ⟨2, [], 0, some [0], [0]⟩ [([2, 1], [])] = none := by
  decide

end Coprocessor
