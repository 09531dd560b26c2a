import OxigraphCloud.Sparql.Theorems.DurationOrder

-- The order of terms as a preorder.
open Rdf Datatypes
open Std (OrientedCmp TransCmp)

namespace Datatypes

theorem Float.partialCmp_swap (a b : BitVec 32) :
    Float.partialCmp b a = (Float.partialCmp a b).map .swap := by
  unfold partialCmp
  cases key a <;> cases key b
  case some.some => exact congrArg some OrientedCmp.eq_swap
  all_goals rfl

theorem Double.partialCmp_swap (a b : BitVec 64) :
    Double.partialCmp b a = (Double.partialCmp a b).map .swap := by
  unfold partialCmp
  cases key a <;> cases key b
  case some.some => exact congrArg some OrientedCmp.eq_swap
  all_goals rfl

end Datatypes

namespace Timestamp

-- What is fourteen hours before and after a point can be represented.
def HasBounds (t : Timestamp) : Prop :=
  -2 ^ 127 ≤ t.value.toInt - maxOffset ∧ t.value.toInt + maxOffset < 2 ^ 127

-- Points with a timezone can be told from points without one if they are more than fourteen hours
-- apart.
def Comparable (a b : Timestamp) : Prop :=
  match a.timezoneOffset, b.timezoneOffset with
  | some _, some _ | none, none => True
  | some _, none => b.HasBounds ∧ maxOffset < |a.value.toInt - b.value.toInt|
  | none, some _ => a.HasBounds ∧ maxOffset < |a.value.toInt - b.value.toInt|

theorem comparable_comm (a b : Timestamp) : a.Comparable b ↔ b.Comparable a := by
  unfold Comparable
  rw [abs_sub_comm]
  cases a.timezoneOffset <;> cases b.timezoneOffset <;> rfl

theorem partialCmp_eq_some_iff {a b : Timestamp} : a.partialCmp b = some ord ↔
    a.Comparable b ∧ compare a.value.toInt b.value.toInt = ord := by
  have hm : 0 < maxOffset := by decide
  have ha₁ := a.value.le_toInt
  have ha₂ := a.value.toInt_lt
  have hb₁ := b.value.le_toInt
  have hb₂ := b.value.toInt_lt
  unfold partialCmp Comparable HasBounds
  cases a.timezoneOffset <;> cases b.timezoneOffset
  case none.none | some.some => simp
  all_goals
    simp only [Option.bind_eq_bind, Decimal.checkedAdd, Decimal.checkedSub, Decimal.checked,
      DateTime.checked_bind_eq_some_iff, ne_eq, Int.checked_eq_none_iff, not_not, lt_abs, compare,
      compareOfLessAndEq]
    grind

theorem partialCmp_swap (a b : Timestamp) : b.partialCmp a = (a.partialCmp b).map .swap := by
  apply Option.eq_map_swap
  intro ord
  rw [partialCmp_eq_some_iff, partialCmp_eq_some_iff, comparable_comm, Int.compare_eq_iff_swap]

end Timestamp

namespace ExpressionTerm

variable (ops : ValueOps) (print : Printer)

theorem partialCmpLiterals_swap (a b : ExpressionTerm) :
    partialCmpLiterals ops b a = (partialCmpLiterals ops a b).map .swap := by
  cases a <;> cases b
  case langStringLiteral.langStringLiteral va la vb lb =>
    simp only [partialCmpLiterals, eq_comm (a := lb)]
    split
    · exact congrArg some OrientedCmp.eq_swap
    · rfl
  case dirLangStringLiteral.dirLangStringLiteral va la da vb lb db =>
    simp only [partialCmpLiterals, eq_comm (a := lb), eq_comm (a := db)]
    split
    · exact congrArg some OrientedCmp.eq_swap
    · rfl
  all_goals first
    | rfl
    | exact congrArg some OrientedCmp.eq_swap
    | exact Float.partialCmp_swap ..
    | exact Double.partialCmp_swap ..
    | exact Timestamp.partialCmp_swap ..
    | exact Duration.partialCmp_swap ..

instance : TransCmp cmpLexical :=
  inferInstanceAs (TransCmp (compareLex (compareOn Literal.value)
    (compareLex (compareOn Literal.datatype) (compareOn Literal.language))))

theorem cmpLiterals_swap (a b : ExpressionTerm) :
    cmpLiterals ops print b a = (cmpLiterals ops print a b).swap := by
  unfold cmpLiterals
  rw [partialCmpLiterals_swap]
  cases partialCmpLiterals ops a b
  case some => rfl
  case none =>
    simp only [Option.map_none]
    cases a.toLiteral print <;> cases b.toLiteral print
    case some.some a b =>
      have h : cmpLexical b a = (cmpLexical a b).swap := OrientedCmp.eq_swap
      exact h
    all_goals rfl

-- The positions of the kinds of terms.
def rank : ExpressionTerm → ℕ
  | blankNode _ => 0
  | namedNode _ => 1
  | triple ..   => 3
  | _           => 2

theorem cmp_of_rank_lt (h : rank a < rank b) : cmp ops print a b = .lt := by
  unfold cmp
  split
  case h_1 =>
    split
    case h_1 => exact absurd h (lt_irrefl _)
    case h_2 => rfl
  case h_2 =>
    split
    case h_1 => exact absurd h (Nat.not_lt_zero _)
    case h_2 => exact absurd h (lt_irrefl _)
    case h_3 => rfl
  case h_3 =>
    have hb : rank b ≤ 3 := by unfold rank; split <;> decide
    exact absurd h (not_lt.mpr hb)
  case h_4 _ h₁ h₂ h₃ =>
    rw [rank.eq_4 _ h₁ h₂ h₃] at h
    split
    case h_1 | h_2 => simp [rank] at h
    case h_3 => rfl
    case h_4 _ h₁ h₂ h₃ => exact absurd h (by rw [rank.eq_4 _ h₂ h₁ h₃]; exact lt_irrefl _)

theorem cmp_of_rank_gt (h : rank b < rank a) : cmp ops print a b = .gt := by
  unfold cmp
  split
  case h_1 => exact absurd h (Nat.not_lt_zero _)
  case h_2 =>
    split
    case h_1 => rfl
    case h_2 => exact absurd h (lt_irrefl _)
    case h_3 hb hn =>
      have hb : 2 ≤ rank b := by
        unfold rank
        split
        case h_1 => exact (hb _ rfl).elim
        case h_2 => exact (hn _ rfl).elim
        case h_3 | h_4 => decide
      exact absurd h (not_lt.mpr (le_of_lt hb))
  case h_3 =>
    split
    case h_1 => exact absurd h (lt_irrefl _)
    case h_2 => rfl
  case h_4 _ h₁ h₂ h₃ =>
    rw [rank.eq_4 _ h₁ h₂ h₃] at h
    split
    case h_1 | h_2 => rfl
    case h_3 => simp [rank] at h
    case h_4 _ h₁ h₂ h₃ => exact absurd h (by rw [rank.eq_4 _ h₂ h₁ h₃]; exact lt_irrefl _)

-- Kinds of terms are compared first.
theorem cmp_eq_then (a b : ExpressionTerm) :
    cmp ops print a b = (compare (rank a) (rank b)).then (cmp ops print a b) := by
  rcases lt_trichotomy (rank a) (rank b) with h | h | h
  case inl => rw [cmp_of_rank_lt ops print h, compare_lt_iff_lt.mpr h]; rfl
  case inr.inl => rw [compare_eq_iff_eq.mpr h]; rfl
  case inr.inr => rw [cmp_of_rank_gt ops print h, compare_gt_iff_gt.mpr h]; rfl

theorem cmp_literals (ha : rank a = 2) (hb : rank b = 2) :
    cmp ops print a b = cmpLiterals ops print a b := by
  unfold cmp
  split
  case h_1 | h_2 | h_3 => cases ha
  case h_4 =>
    split
    case h_1 | h_2 | h_3 => cases hb
    case h_4 => rfl

theorem cmp_triple (s s' : NamedOrBlankNode) (p p' : NamedNode) (o o' : ExpressionTerm) :
    cmp ops print (triple s p o) (triple s' p' o') =
      (cmpSubjects s s').then ((compare p p').then (cmp ops print o o')) := by
  rw [cmp]

theorem cmpSubjects_eq : cmpSubjects = compareLex
    (compareOn fun | .blankNode _ => 0 | .namedNode _ => 1)
    (compareOn fun | .blankNode b => b.asStr | .namedNode n => n) := by
  funext a b
  cases a <;> cases b <;> rfl

instance : TransCmp cmpSubjects := cmpSubjects_eq ▸ inferInstance

theorem cmp_swap_of_rank_ne (h : rank a ≠ rank b) :
    cmp ops print b a = (cmp ops print a b).swap := by
  rcases lt_or_gt_of_ne h with h | h
  all_goals
    rw [cmp_of_rank_lt ops print h, cmp_of_rank_gt ops print h]
    rfl

theorem cmp_swap_literal (h : rank a = 2) (b : ExpressionTerm) :
    cmp ops print b a = (cmp ops print a b).swap := by
  by_cases hb : rank b = 2
  case pos => rw [cmp_literals ops print h hb, cmp_literals ops print hb h, cmpLiterals_swap]
  case neg => exact cmp_swap_of_rank_ne ops print (h ▸ Ne.symm hb)

theorem cmp_swap (a b : ExpressionTerm) : cmp ops print b a = (cmp ops print a b).swap := by
  induction a generalizing b
  case blankNode =>
    cases b
    case blankNode =>
      rw [cmp, cmp]
      exact OrientedCmp.eq_swap
    all_goals exact cmp_swap_of_rank_ne ops print nofun
  case namedNode =>
    cases b
    case namedNode =>
      rw [cmp, cmp]
      exact OrientedCmp.eq_swap
    all_goals exact cmp_swap_of_rank_ne ops print nofun
  case triple s p o hi =>
    cases b
    case triple s' p' o' =>
      have hs : cmpSubjects s' s = (cmpSubjects s s').swap := OrientedCmp.eq_swap
      have hp : compare p' p = (compare p p').swap := OrientedCmp.eq_swap
      rw [cmp_triple, cmp_triple, hs, hp, hi o', Ordering.swap_then, Ordering.swap_then]
    all_goals exact cmp_swap_of_rank_ne ops print nofun
  all_goals exact cmp_swap_literal ops print rfl b

theorem cmpTerms_swap (a b : Option ExpressionTerm) :
    cmpTerms ops print b a = (cmpTerms ops print a b).swap := by
  cases a <;> cases b
  case some.some => exact cmp_swap ..
  all_goals rfl

-- The order of lexical forms.
def cmpText (a b : ExpressionTerm) : Ordering :=
  match a.toLiteral print, b.toLiteral print with
  | some a, some b => cmpLexical a b
  | _, _           => .eq

theorem cmpLiterals_eq (a b : ExpressionTerm) :
    cmpLiterals ops print a b = (partialCmpLiterals ops a b).getD (cmpText print a b) := by
  unfold cmpLiterals
  cases partialCmpLiterals ops a b <;> rfl

def IsLiteral (t : ExpressionTerm) : Prop := t.rank = 2

theorem IsLiteral.toLiteral {t : ExpressionTerm} (h : t.IsLiteral) :
    ∃ literal, t.toLiteral print = some literal := by
  cases t
  case blankNode | namedNode | triple => cases h
  all_goals exact ⟨_, rfl⟩

section Values

-- Numbers are compared with the precision of the less exact one.
def precision : ExpressionTerm → Option ℕ
  | integerLiteral _ | decimalLiteral _ => some 0
  | floatLiteral _                      => some 1
  | doubleLiteral _                     => some 2
  | _                                   => none

-- The position of a number among those of a precision.
def promote : ℕ → ExpressionTerm → Option ℤ
  | 0, integerLiteral value => some (Decimal.ofInteger value)
  | 0, decimalLiteral value => some value.toInt
  | 1, integerLiteral value => Float.key (ops.floatOfInteger value)
  | 1, decimalLiteral value => Float.key (ops.floatOfDecimal value)
  | 1, floatLiteral value   => Float.key value
  | 2, integerLiteral value => Double.key (ops.doubleOfInteger value)
  | 2, decimalLiteral value => Double.key (ops.doubleOfDecimal value)
  | 2, floatLiteral value   => Double.key (ops.doubleOfFloat value)
  | 2, doubleLiteral value  => Double.key value
  | _, _                    => none

inductive PointKind
  | dateTime | time | date | gYearMonth | gYear | gMonthDay | gDay | gMonth

def point : ExpressionTerm → Option (PointKind × Timestamp)
  | dateTimeLiteral value   => some (.dateTime, value)
  | timeLiteral value       => some (.time, value)
  | dateLiteral value       => some (.date, value)
  | gYearMonthLiteral value => some (.gYearMonth, value)
  | gYearLiteral value      => some (.gYear, value)
  | gMonthDayLiteral value  => some (.gMonthDay, value)
  | gDayLiteral value       => some (.gDay, value)
  | gMonthLiteral value     => some (.gMonth, value)
  | _                       => none

def duration : ExpressionTerm → Option Duration
  | durationLiteral value          => some value
  | yearMonthDurationLiteral value => some (.ofYearMonth value)
  | dayTimeDurationLiteral value   => some (.ofDayTime value)
  | _                              => none

def months : ExpressionTerm → Option (BitVec 64)
  | yearMonthDurationLiteral value => some value
  | _                              => none

def seconds : ExpressionTerm → Option (BitVec 128)
  | dayTimeDurationLiteral value => some value
  | _                            => none

-- The order of the values of two literals.
inductive ByValue (a b : ExpressionTerm) : Ordering → Prop
  | numbers : precision a = some p → precision b = some q → promote ops (max p q) a = some x →
    promote ops (max p q) b = some y → ByValue a b (compare x y)
  | points : point a = some (kind, t) → point b = some (kind, u) → t.Comparable u →
    ByValue a b (compare t.value.toInt u.value.toInt)
  | months : months a = some m → months b = some n → ByValue a b (compare m.toInt n.toInt)
  | seconds : seconds a = some s → seconds b = some t → ByValue a b (compare s.toInt t.toInt)
  -- Other durations have to lead to the same order from all four months.
  | durations : duration a = some d → duration b = some e → ¬(a.months.isSome ∧ b.months.isSome) →
    ¬(a.seconds.isSome ∧ b.seconds.isSome) →
    (∀ start ∈ Duration.starts, (d.Reaches start ∧ e.Reaches start) ∧
      compare (d.reached start.1 start.2) (e.reached start.1 start.2) = ord) → ByValue a b ord

variable {ops}

theorem partialCmpLiterals_numbers (ha : precision a = some p) (hb : precision b = some q) :
    partialCmpLiterals ops a b = do
      return compare (← promote ops (max p q) a) (← promote ops (max p q) b) := by
  have hp : 0 < (Decimal.decimalPartPow : ℤ) := by decide
  cases a <;> cases ha <;> cases b <;> cases hb
  case integerLiteral.refl.integerLiteral.refl =>
    refine congrArg some (Int.compare_congr ?_ ?_ ?_).symm
    · exact fun h => Int.mul_lt_mul_of_pos_right h hp
    · exact congrArg (· * _)
    · exact fun h => Int.mul_lt_mul_of_pos_right h hp
  all_goals rfl

theorem partialCmpLiterals_points (ha : point a = some (kind, t)) (hb : point b = some (kind, u)) :
    partialCmpLiterals ops a b = t.partialCmp u := by
  cases a <;> cases ha <;> cases b <;> cases hb <;> rfl

theorem partialCmpLiterals_durations (ha : duration a = some d) (hb : duration b = some e)
    (hm : ¬(a.months.isSome ∧ b.months.isSome)) (hs : ¬(a.seconds.isSome ∧ b.seconds.isSome)) :
    partialCmpLiterals ops a b = d.partialCmp e := by
  cases a <;> cases ha <;> cases b <;> cases hb
  case yearMonthDurationLiteral.refl.yearMonthDurationLiteral.refl => exact absurd ⟨rfl, rfl⟩ hm
  case dayTimeDurationLiteral.refl.dayTimeDurationLiteral.refl => exact absurd ⟨rfl, rfl⟩ hs
  all_goals rfl

theorem ByValue.partialCmpLiterals (h : ByValue ops a b ord) :
    partialCmpLiterals ops a b = some ord := by
  cases h
  case numbers ha hb hx hy => simp [partialCmpLiterals_numbers ha hb, hx, hy]
  case points ha hb h =>
    rw [partialCmpLiterals_points ha hb, Timestamp.partialCmp_eq_some_iff]
    exact ⟨h, rfl⟩
  case months ha hb | seconds ha hb =>
    cases a <;> cases ha
    cases b <;> cases hb
    rfl
  case durations ha hb hm hs h =>
    rw [partialCmpLiterals_durations ha hb hm hs, Duration.partialCmp_eq_some_iff]
    exact h

theorem byValue_numbers (ha : precision a = some p) (hb : precision b = some q)
    (h : ExpressionTerm.partialCmpLiterals ops a b = some ord) : ByValue ops a b ord := by
  rw [partialCmpLiterals_numbers ha hb] at h
  simp only [Option.bind_eq_bind, Option.bind_eq_some_iff] at h
  obtain ⟨x, hx, y, hy, h⟩ := h
  cases h
  exact .numbers ha hb hx hy

theorem byValue_points (ha : point a = some (kind, t)) (hb : point b = some (kind, u))
    (h : ExpressionTerm.partialCmpLiterals ops a b = some ord) : ByValue ops a b ord := by
  rw [partialCmpLiterals_points ha hb, Timestamp.partialCmp_eq_some_iff] at h
  exact h.2 ▸ .points ha hb h.1

theorem byValue_durations (ha : duration a = some d) (hb : duration b = some e)
    (hm : ¬(a.months.isSome ∧ b.months.isSome)) (hs : ¬(a.seconds.isSome ∧ b.seconds.isSome))
    (h : ExpressionTerm.partialCmpLiterals ops a b = some ord) : ByValue ops a b ord := by
  rw [partialCmpLiterals_durations ha hb hm hs, Duration.partialCmp_eq_some_iff] at h
  exact .durations ha hb hm hs h

theorem cmpLexical_of_eq {a b : Literal} (hd : a.datatype = b.datatype)
    (hl : a.language = b.language) : cmpLexical a b = compare a.value b.value := by
  simp [cmpLexical, compareLex, compareOn, hd, hl]

-- Strings with the same tags are compared like lexical forms.
theorem byValue_or_cmpText (h : ExpressionTerm.partialCmpLiterals ops a b = some ord) :
    ByValue ops a b ord ∨ cmpText print a b = ord := by
  cases a <;> cases b
  case stringLiteral.stringLiteral va vb =>
    cases h
    exact .inr (cmpLexical_of_eq rfl rfl)
  case langStringLiteral.langStringLiteral =>
    obtain ⟨rfl, h'⟩ := Option.ite_none_right_eq_some.mp h
    cases h'
    exact .inr (cmpLexical_of_eq rfl rfl)
  case dirLangStringLiteral.dirLangStringLiteral =>
    obtain ⟨⟨rfl, rfl⟩, h'⟩ := Option.ite_none_right_eq_some.mp h
    cases h'
    exact .inr (cmpLexical_of_eq rfl rfl)
  case yearMonthDurationLiteral.yearMonthDurationLiteral =>
    cases h
    exact .inl (.months rfl rfl)
  case dayTimeDurationLiteral.dayTimeDurationLiteral =>
    cases h
    exact .inl (.seconds rfl rfl)
  all_goals first
    | cases h; done
    | exact .inl (byValue_numbers rfl rfl h)
    | exact .inl (byValue_points rfl rfl h)
    | exact .inl (byValue_durations rfl rfl nofun nofun h)

theorem ByValue.cmpLiterals (h : ByValue ops a b ord) : cmpLiterals ops print a b = ord := by
  rw [cmpLiterals_eq, h.partialCmpLiterals, Option.getD_some]

theorem cmpLiterals_of_not_byValue (h : ∀ ord, ¬ByValue ops a b ord) :
    cmpLiterals ops print a b = cmpText print a b := by
  rw [cmpLiterals_eq]
  cases hp : partialCmpLiterals ops a b
  case none => rfl
  case some => exact ((byValue_or_cmpText print hp).resolve_left (h _)).symm

variable (ops) in
-- Literals are ordered by lexical forms if their values cannot be compared.
inductive Ordered (a b : ExpressionTerm) : Ordering → Prop
  | values : ByValue ops a b ord → Ordered a b ord
  | texts  : (∀ ord, ¬ByValue ops a b ord) → Ordered a b (cmpText print a b)

theorem ordered_iff : Ordered ops print a b ord ↔ cmpLiterals ops print a b = ord := by
  constructor
  · rintro (h | h)
    · exact h.cmpLiterals print
    · exact cmpLiterals_of_not_byValue print h
  · rintro rfl
    by_cases h : ∃ ord, ByValue ops a b ord
    case pos =>
      obtain ⟨ord, h⟩ := h
      exact h.cmpLiterals print ▸ .values h
    case neg =>
      rw [cmpLiterals_of_not_byValue print (not_exists.mp h)]
      exact .texts (not_exists.mp h)

theorem ByValue.of_precision (h : ByValue ops a b ord) (ha : precision a = some p) :
    ∃ q x y, precision b = some q ∧ promote ops (max p q) a = some x ∧
      promote ops (max p q) b = some y ∧ compare x y = ord := by
  cases h
  case numbers ha' hb hx hy =>
    cases ha.symm.trans ha'
    exact ⟨_, _, _, hb, hx, hy, rfl⟩
  all_goals
    cases a <;> cases ha <;> contradiction

theorem ByValue.of_point (h : ByValue ops a b ord) (ha : point a = some (kind, t)) :
    ∃ u, point b = some (kind, u) ∧ compare t.value.toInt u.value.toInt = ord := by
  cases h
  case points ha' hb _ =>
    cases ha.symm.trans ha'
    exact ⟨_, hb, rfl⟩
  all_goals
    cases a <;> cases ha <;> contradiction

theorem duration_of_months (h : months a = some m) : duration a = some (.ofYearMonth m) := by
  cases a <;> cases h
  rfl

theorem duration_of_seconds (h : seconds a = some s) : duration a = some (.ofDayTime s) := by
  cases a <;> cases h
  rfl

-- The order is also that of what is reached from a month, unless that is the first of a year.
theorem ByValue.of_duration (h : ByValue ops a b ord) (ha : duration a = some d) :
    ∃ e, duration b = some e ∧ ∀ start ∈ Duration.starts, 1 ≤ start.2 ∧ start.2 ≤ 12 →
      start.2 + d.allMonths ≠ 0 → start.2 + e.allMonths ≠ 0 →
      compare (d.reached start.1 start.2) (e.reached start.1 start.2) = ord := by
  cases h
  case months hm hn =>
    cases ha.symm.trans (duration_of_months hm)
    exact ⟨_, duration_of_months hn, fun _ _ hs h h' => Duration.compare_reached_months hs h h'⟩
  case seconds hs ht =>
    cases ha.symm.trans (duration_of_seconds hs)
    exact ⟨_, duration_of_seconds ht, fun _ _ _ _ _ => Duration.compare_reached_seconds ..⟩
  case durations ha' hb _ _ h =>
    cases ha.symm.trans ha'
    exact ⟨_, hb, fun start hs _ _ _ => (h start hs).2⟩
  all_goals
    cases a <;> cases ha <;> contradiction

-- One of three numbers is less exact than the others.
def Rounded (a b c : ExpressionTerm) : Prop :=
  ∃ p q r, precision a = some p ∧ precision b = some q ∧ precision c = some r ∧
    (max q r < p ∨ max p r < q ∨ max p q < r)

-- Values that can be compared with each other are in order, but for rounding.
theorem rounded_of_byValue (hab : ByValue ops a b ab) (hbc : ByValue ops b c bc)
    (hac : ByValue ops a c .gt) (h : ab.isLE) (h' : bc.isLE) : Rounded a b c := by
  have ht (x y z : ℤ) (hxy : (compare x y).isLE) (hyz : (compare y z).isLE) : compare x z ≠ .gt :=
    TransAt.of_transCmp x y z hxy hyz
  have hk : (∃ p, precision a = some p) ∨ (∃ t, point a = some t) ∨ ∃ d, duration a = some d := by
    cases hab
    case numbers ha _ _ _ => exact .inl ⟨_, ha⟩
    case points ha _ _ => exact .inr (.inl ⟨_, ha⟩)
    case months ha _ => exact .inr (.inr ⟨_, duration_of_months ha⟩)
    case seconds ha _ => exact .inr (.inr ⟨_, duration_of_seconds ha⟩)
    case durations ha _ _ _ _ => exact .inr (.inr ⟨_, ha⟩)
  rcases hk with ⟨p, ha⟩ | ⟨⟨kind, t⟩, ha⟩ | ⟨d, ha⟩
  case inl =>
    obtain ⟨q, x, y, hb, hx, hy, rfl⟩ := hab.of_precision ha
    obtain ⟨r, y', z, hc, hy', hz, rfl⟩ := hbc.of_precision hb
    obtain ⟨r', x', z', hc', hx', hz', hgt⟩ := hac.of_precision ha
    cases hc.symm.trans hc'
    refine ⟨p, q, r, ha, hb, hc, ?_⟩
    by_contra hn
    have h₁ : max p q = max p r := by omega
    have h₂ : max q r = max p r := by omega
    rw [h₁] at hx hy
    rw [h₂] at hy' hz
    cases hx.symm.trans hx'
    cases hy.symm.trans hy'
    cases hz.symm.trans hz'
    exact ht x y z h h' hgt
  case inr.inl =>
    obtain ⟨u, hb, rfl⟩ := hab.of_point ha
    obtain ⟨v, hc, rfl⟩ := hbc.of_point hb
    obtain ⟨v', hc', hgt⟩ := hac.of_point ha
    cases hc.symm.trans hc'
    exact absurd hgt (ht _ _ _ h h')
  case inr.inr =>
    obtain ⟨e, hb, hab⟩ := hab.of_duration ha
    obtain ⟨f, hc, hbc⟩ := hbc.of_duration hb
    obtain ⟨f', hc', hac⟩ := hac.of_duration ha
    cases hc.symm.trans hc'
    obtain ⟨start, hs, hm, hd, he, hf⟩ :=
      Duration.exists_start_ne d.allMonths e.allMonths f.allMonths
    have hab := hab start hs hm hd he
    have hbc := hbc start hs hm he hf
    exact absurd (hac start hs hm hd hf) (ht _ _ _ (hab ▸ h) (hbc ▸ h'))

variable (ops)

-- Values and lexical forms of three literals contradict each other.
structure Contradict (a b c : ExpressionTerm) : Prop where
  circle  : ∃ ab bc, (Ordered ops print a b ab ∧ ab.isLE) ∧ (Ordered ops print b c bc ∧ bc.isLE) ∧
    Ordered ops print a c .gt
  values  : ∃ ord, ByValue ops a b ord ∨ ByValue ops b c ord ∨ ByValue ops a c ord
  rounded : (∃ ord, ByValue ops a b ord) → (∃ ord, ByValue ops b c ord) →
    (∃ ord, ByValue ops a c ord) → Rounded a b c

theorem not_transAt_literal {a b c : ExpressionTerm} (ha : a.IsLiteral) (hb : b.IsLiteral)
    (hc : c.IsLiteral) : ¬TransAt (cmp ops print) a b c ↔ Contradict ops print a b c := by
  unfold TransAt
  rw [cmp_literals ops print ha hb, cmp_literals ops print hb hc, cmp_literals ops print ha hc]
  constructor
  case mp =>
    intro ht
    simp only [Classical.not_imp, not_not] at ht
    obtain ⟨h, h', hgt⟩ := ht
    refine ⟨⟨_, _, ⟨(ordered_iff print).mpr rfl, h⟩, ⟨(ordered_iff print).mpr rfl, h'⟩,
      (ordered_iff print).mpr hgt⟩, ?_, ?_⟩
    case refine_1 =>
      by_contra hn
      simp only [not_exists, not_or] at hn
      have ⟨la, hla⟩ := ha.toLiteral print
      have ⟨lb, hlb⟩ := hb.toLiteral print
      have ⟨lc, hlc⟩ := hc.toLiteral print
      have ht : TransAt cmpLexical la lb lc := .of_transCmp _ _ _
      rw [cmpLiterals_of_not_byValue print fun ord => (hn ord).1] at h
      rw [cmpLiterals_of_not_byValue print fun ord => (hn ord).2.1] at h'
      rw [cmpLiterals_of_not_byValue print fun ord => (hn ord).2.2] at hgt
      simp only [cmpText, hla, hlb, hlc] at h h' hgt
      exact ht h h' hgt
    case refine_2 =>
      rintro ⟨ab, hab⟩ ⟨bc, hbc⟩ ⟨ac, hac⟩
      rw [hab.cmpLiterals print] at h
      rw [hbc.cmpLiterals print] at h'
      rw [hac.cmpLiterals print] at hgt
      exact rounded_of_byValue hab hbc (hgt ▸ hac) h h'
  case mpr =>
    rintro ⟨⟨ab, bc, ⟨hab, h⟩, ⟨hbc, h'⟩, hac⟩, -, -⟩
    rw [ordered_iff] at hab hbc hac
    rw [hab, hbc, hac]
    exact fun ht => ht h h' rfl

end Values

-- The three terms are literals, or equal triples but for such objects.
inductive Breaks : ExpressionTerm → ExpressionTerm → ExpressionTerm → Prop
  | literals : a.IsLiteral → b.IsLiteral → c.IsLiteral → Contradict ops print a b c → Breaks a b c
  | objects  : cmpSubjects s s' = .eq → cmpSubjects s' s'' = .eq → Breaks o o' o'' →
    Breaks (triple s p o) (triple s' p o') (triple s'' p o'')

theorem not_transAt_triple :
    ¬TransAt (cmp ops print) (triple s p o) (triple s' p' o') (triple s'' p'' o'') ↔
      cmpSubjects s s' = .eq ∧ cmpSubjects s' s'' = .eq ∧ p = p' ∧ p' = p'' ∧
        ¬TransAt (cmp ops print) o o' o'' := by
  let rest (x y : NamedNode × ExpressionTerm) := (compare x.1 y.1).then (cmp ops print x.2 y.2)
  have h₁ : ¬TransAt (cmp ops print) (triple s p o) (triple s' p' o') (triple s'' p'' o'') ↔
      cmpSubjects s s' = .eq ∧ cmpSubjects s' s'' = .eq ∧
        ¬TransAt rest (p, o) (p', o') (p'', o'') :=
    TransAt.not_iff_of_then (cmp_triple ..) (cmp_triple ..) (cmp_triple ..)
  have h₂ : ¬TransAt rest (p, o) (p', o') (p'', o'') ↔
      compare p p' = .eq ∧ compare p' p'' = .eq ∧ ¬TransAt (cmp ops print) o o' o'' :=
    TransAt.not_iff_of_then rfl rfl rfl
  rw [h₁, h₂, compare_eq_iff_eq, compare_eq_iff_eq]

theorem transAt_blankNode (a b c : BlankNode) :
    TransAt (cmp ops print) (blankNode a) (blankNode b) (blankNode c) := by
  have h : TransAt (compareOn BlankNode.asStr) a b c := .of_transCmp _ _ _
  simpa [TransAt, cmp, compareOn] using h

theorem transAt_namedNode (a b c : NamedNode) :
    TransAt (cmp ops print) (namedNode a) (namedNode b) (namedNode c) := by
  have h : TransAt compare a b c := .of_transCmp _ _ _
  simpa [TransAt, cmp] using h

theorem rank_eq_of_not_transAt (h : ¬TransAt (cmp ops print) a b c) :
    rank a = rank b ∧ rank b = rank c := by
  have ⟨hab, hbc, _⟩ := (TransAt.not_iff_of_then (cmp_eq_then ops print a b)
    (cmp_eq_then ops print b c) (cmp_eq_then ops print a c)).mp h
  exact ⟨compare_eq_iff_eq.mp hab, compare_eq_iff_eq.mp hbc⟩

theorem breaks_of_isLiteral (ha : a.IsLiteral) (h : ¬TransAt (cmp ops print) a b c) :
    Breaks ops print a b c := by
  have ⟨hab, hbc⟩ := rank_eq_of_not_transAt ops print h
  have hb : IsLiteral b := hab.symm.trans ha
  have hc : IsLiteral c := hbc.symm.trans hb
  exact .literals ha hb hc <| (not_transAt_literal ops print ha hb hc).mp h

theorem breaks_of_not_transAt (h : ¬TransAt (cmp ops print) a b c) : Breaks ops print a b c := by
  induction a generalizing b c
  case blankNode =>
    have ⟨hab, hbc⟩ := rank_eq_of_not_transAt ops print h
    cases b
    case blankNode =>
      cases c
      case blankNode => exact absurd (transAt_blankNode ops print _ _ _) h
      all_goals cases hbc
    all_goals cases hab
  case namedNode =>
    have ⟨hab, hbc⟩ := rank_eq_of_not_transAt ops print h
    cases b
    case namedNode =>
      cases c
      case namedNode => exact absurd (transAt_namedNode ops print _ _ _) h
      all_goals cases hbc
    all_goals cases hab
  case triple hi =>
    have ⟨hab, hbc⟩ := rank_eq_of_not_transAt ops print h
    cases b
    case triple =>
      cases c
      case triple =>
        obtain ⟨hs, hs', rfl, rfl, ho⟩ := (not_transAt_triple ops print).mp h
        exact .objects hs hs' (hi ho)
      all_goals cases hbc
    all_goals cases hab
  all_goals exact breaks_of_isLiteral ops print rfl h

theorem not_transAt_iff (a b c : ExpressionTerm) :
    ¬TransAt (cmp ops print) a b c ↔ Breaks ops print a b c where
  mp  := breaks_of_not_transAt ops print
  mpr := by
    intro h
    induction h
    case literals ha hb hc h => exact (not_transAt_literal ops print ha hb hc).mpr h
    case objects hs hs' _ hi => exact (not_transAt_triple ops print).mpr ⟨hs, hs', rfl, rfl, hi⟩

end ExpressionTerm
