import OxigraphCloud.Datatypes.Theorems.DecimalFrag

-- What the fragments of `xsd:dateTime` and `xsd:time` make up together.
namespace Datatypes

open Lexical

namespace Frag

theorem bind_eq_some_iff {p : Frag α} {f : α → Frag β} : (p >>= f) input = some (b, rest) ↔
    ∃ a middle, p input = some (a, middle) ∧ f a middle = some (b, rest) where
  mp h := by
    obtain ⟨⟨a, middle⟩, ha, hb⟩ := Option.bind_eq_some_iff.mp h
    exact ⟨a, middle, ha, hb⟩
  mpr := by
    rintro ⟨a, middle, ha, hb⟩
    exact Option.bind_eq_some_iff.mpr ⟨(a, middle), ha, hb⟩

theorem guard_bind_eq_some_iff [Decidable c] {f : Unit → Frag β} :
    (guard c >>= f) input = some (b, rest) ↔ c ∧ f () input = some (b, rest) := by
  by_cases hc : c
  case pos => simp [hc]
  case neg =>
    rw [guard, if_neg hc]
    exact ⟨(by cases ·), fun h => absurd h.1 hc⟩

theorem guard_eq_some_iff [Decidable c] :
    (guard c : Frag Unit) input = some (u, rest) ↔ c ∧ input = rest := by
  by_cases hc : c
  case pos => simp [guard, hc, pure, StateT.pure]
  case neg =>
    rw [guard, if_neg hc]
    exact ⟨(by cases ·), fun h => absurd h.1 hc⟩

theorem liftM_eq_some_iff {o : Option α} :
    (liftM o : Frag α) input = some (a, rest) ↔ o = some a ∧ input = rest := by
  rw [liftM_eq]
  cases o <;> simp

theorem pure_eq_some_iff : (pure a : Frag α) input = some (b, rest) ↔ a = b ∧ input = rest := by
  simp [pure, StateT.pure]

theorem map_eq_some_iff {p : Frag α} {f : α → β} :
    (f <$> p) input = some (b, rest) ↔ ∃ a, p input = some (a, rest) ∧ f a = b := by
  simp [Functor.map, StateT.map, Option.bind_eq_some_iff]

end Frag

theorem isSome_ensureComplete_iff {p : Frag α} :
    (ensureComplete p input).isSome ↔ ∃ a, p input = some (a, []) := by
  rw [Option.isSome_iff_exists]
  refine exists_congr fun a => ?_
  simp only [ensureComplete, Option.bind_eq_bind, Option.bind_eq_some_iff]
  constructor
  · rintro ⟨⟨result, left⟩, hp, ha⟩
    simp only [Option.ite_none_right_eq_some, Option.some.injEq] at ha
    obtain ⟨rfl, rfl⟩ := ha
    exact hp
  · intro hp
    exact ⟨(a, []), hp, if_pos rfl⟩

namespace Grammar

theorem clockFrag_iff {hours : Lexical ℕ} : clockFrag hours word clock ↔
    ∃ left middle right, word = left ++ ':' :: (middle ++ ':' :: right) ∧ hours left clock.hour ∧
      minuteFrag middle clock.minute ∧ secondFrag right clock.second where
  mp := by
    rintro ⟨left, _, hour, rfl, hh, hw⟩
    obtain ⟨_, rfl, middle, _, minute, rfl, hm, hw⟩ := char_bind_iff.mp hw
    obtain ⟨_, rfl, right, _, second, rfl, hs, rfl, rfl⟩ := char_bind_iff.mp hw
    exact ⟨left, middle, right, by simp, hh, hm, hs⟩
  mpr := by
    rintro ⟨left, middle, right, rfl, hh, hm, hs⟩
    refine ⟨left, _, _, rfl, hh, char_bind_iff.mpr ⟨_, rfl, middle, _, _, rfl, hm, ?_⟩⟩
    exact char_bind_iff.mpr ⟨right, rfl, right, [], _, by simp, hs, rfl, rfl⟩

end Grammar

-- The hour, the minute and the second of a time.
def clockFields : Frag (ℕ × ℕ × ℤ) := do
  let hour ← hourFrag
  expectChar ':'
  let minute ← minuteFrag
  expectChar ':'
  let second ← secondFrag
  return (hour, minute, second)

def clockOf (fields : ℕ × ℕ × ℤ) : Grammar.Clock :=
  { hour := fields.1, minute := fields.2.1, second := Decimal.toRat fields.2.2 }

-- A time of at most 24 hours.
def clock24 : Lexical Grammar.Clock := Grammar.clockFrag (twoDigit 0 24)

theorem clockFields_reads : Reads clockFields (comap clockOf clock24) NoDecimal := by
  have h : Reads clockFields (do
      let hour ← twoDigit 0 24
      char ':'
      let minute ← twoDigit 0 59
      char ':'
      let second ← comap Decimal.toRat Grammar.secondFrag
      return (hour, minute, second)) NoDecimal := by
    refine twoDigitFrag_reads.bind (fun _ => expectChar_bind_reads <| twoDigitFrag_reads.bind
      (fun _ => expectChar_bind_reads <| secondFrag_reads.bind (fun _ => .pure _) ?_) ?_) ?_
    · simp_all
    all_goals
      intro _ word _ rest hw hr
      obtain ⟨_, rfl, -⟩ := char_bind_iff.mp hw
      exact noDigit_cons (by decide)
  apply h.congr
  intro word fields
  unfold comap clock24
  rw [Grammar.clockFrag_iff, Grammar.minuteFrag_eq]
  constructor
  · rintro ⟨left, _, hour, rfl, hh, hw⟩
    obtain ⟨_, rfl, middle, _, minute, rfl, hm, hw⟩ := char_bind_iff.mp hw
    obtain ⟨_, rfl, right, _, second, rfl, hs, rfl, rfl⟩ := char_bind_iff.mp hw
    exact ⟨left, middle, right, by simp, hh, hm, hs⟩
  · rintro ⟨left, middle, right, rfl, hh, hm, hs⟩
    refine ⟨left, _, _, rfl, hh, char_bind_iff.mpr ⟨_, rfl, middle, _, _, rfl, hm, ?_⟩⟩
    exact char_bind_iff.mpr ⟨right, rfl, right, [], _, by simp, hs, rfl, rfl⟩

theorem secondFrag_stops (h : secondFrag input = some (second, rest)) : NoDigit rest := by
  obtain ⟨digits, middle, hd, h⟩ := Frag.bind_eq_some_iff.mp h
  obtain ⟨_, h⟩ := Frag.guard_bind_eq_some_iff.mp h
  obtain ⟨number, middle', hn, h⟩ := Frag.bind_eq_some_iff.mp h
  obtain ⟨-, rfl⟩ := Frag.liftM_eq_some_iff.mp hn
  obtain ⟨_, h⟩ := Frag.guard_bind_eq_some_iff.mp h
  obtain ⟨_, h⟩ := Frag.guard_bind_eq_some_iff.mp h
  obtain ⟨-, rfl⟩ := Frag.pure_eq_some_iff.mp h
  obtain ⟨_, _, _, _, _, hr⟩ := splitDecimal_false_sound (Option.some.inj hd)
  exact hr

theorem clockFields_stops (h : clockFields input = some (fields, rest)) : NoDigit rest := by
  obtain ⟨_, _, -, h⟩ := Frag.bind_eq_some_iff.mp h
  obtain ⟨_, _, -, h⟩ := Frag.bind_eq_some_iff.mp h
  obtain ⟨_, _, -, h⟩ := Frag.bind_eq_some_iff.mp h
  obtain ⟨_, _, -, h⟩ := Frag.bind_eq_some_iff.mp h
  obtain ⟨_, _, hs, h⟩ := Frag.bind_eq_some_iff.mp h
  obtain ⟨-, rfl⟩ := Frag.pure_eq_some_iff.mp h
  exact secondFrag_stops hs

-- A time and the offset of its timezone.
def timeFields : Frag ((ℕ × ℕ × ℤ) × Option ℤ) := do
  let clock ← clockFields
  let timezoneOffset ← optionalEnd timezoneFrag
  return (clock, timezoneOffset)

-- The first character of an offset.
theorem timezoneLang_cons (h : timezoneLang word offset) :
    ∃ c right, word = c :: right ∧ c ≠ '.' := by
  rcases h with ⟨rfl, rfl⟩ | ⟨left, negative, right, rfl, hs, a, b, c, d, rfl, ho⟩
  · exact ⟨'Z', [], rfl, by decide⟩
  · cases negative
    case true =>
      cases hs
      exact ⟨'-', _, rfl, by decide⟩
    case false =>
      rcases hs with rfl | rfl
      · exact ⟨'+', _, rfl, by decide⟩
      · refine ⟨a.digitChar, _, rfl, fun hd => ?_⟩
        have h₉ := ho.le_nine.1
        have := Nat.isDigit_digitChar (n := a)
        simp [hd] at this
        omega

theorem optionalEnd_sound (hd : NoDigit input)
    (h : optionalEnd timezoneFrag input = some (offset, rest)) :
    ∃ word, input = word ++ rest ∧ opt Grammar.timezoneFrag word offset := by
  unfold optionalEnd at h
  split at h
  case isTrue hi =>
    cases h
    exact ⟨[], hi, rfl⟩
  case isFalse =>
    obtain ⟨offset, ho, rfl⟩ := Frag.map_eq_some_iff.mp h
    obtain ⟨word, rfl, hw⟩ := timezoneFrag_reads.sound ho
    obtain ⟨c, right, rfl, -⟩ := timezoneLang_cons hw
    exact ⟨_, rfl, Grammar.timezoneFrag_iff.mpr ⟨hw, hd⟩⟩

theorem noDecimal_of_timezone (h : opt Grammar.timezoneFrag word offset) : NoDecimal word := by
  rcases offset with _ | offset
  case none =>
    cases h
    exact ⟨rfl, by simp⟩
  case some =>
    obtain ⟨hw, hd⟩ := Grammar.timezoneFrag_iff.mp h
    obtain ⟨c, right, rfl, hc⟩ := timezoneLang_cons hw
    exact ⟨hd, by simpa using hc⟩

theorem optionalEnd_complete (h : opt Grammar.timezoneFrag word offset) :
    optionalEnd timezoneFrag word = some (offset, []) := by
  rcases offset with _ | offset
  case none =>
    cases h
    rfl
  case some =>
    obtain ⟨hw, -⟩ := Grammar.timezoneFrag_iff.mp h
    have hp := (timezoneFrag_reads.eq_some_nil_iff rfl).mpr hw
    obtain ⟨c, right, rfl, -⟩ := timezoneLang_cons hw
    rw [optionalEnd, if_neg (by simp)]
    exact Frag.map_eq_some_iff.mpr ⟨offset, hp, rfl⟩

theorem timeFields_reads : Reads timeFields (do
    let clock ← comap clockOf clock24
    let timezoneOffset ← opt Grammar.timezoneFrag
    return (clock, timezoneOffset)) (· = []) := by
  refine clockFields_reads.bind_of_stops (fun _ _ _ => clockFields_stops) ?_ ?_
  · intro clock input fields rest hd h
    obtain ⟨offset, _, ho, h⟩ := Frag.bind_eq_some_iff.mp h
    obtain ⟨rfl, rfl⟩ := Frag.pure_eq_some_iff.mp h
    obtain ⟨word, rfl, hw⟩ := optionalEnd_sound hd ho
    exact ⟨word, rfl, word, [], offset, by simp, hw, rfl, rfl⟩
  · rintro clock _ _ rest ⟨word, _, offset, rfl, hw, rfl, rfl⟩ rfl
    simp only [List.append_nil]
    exact ⟨noDecimal_of_timezone hw, Frag.bind_eq_some_iff.mpr ⟨_, _, optionalEnd_complete hw, rfl⟩⟩

namespace Grammar

-- A date and time whose day need not exist.
def dateTimeWord (timeFrag : Lexical Clock) : Lexical Moment := fun word m =>
  ∃ y mo d c z, word = y ++ '-' :: (mo ++ '-' :: (d ++ 'T' :: (c ++ z))) ∧ yearFrag y m.year ∧
    monthFrag mo m.month ∧ dayFrag d m.day ∧ timeFrag c m.toClock ∧
    opt timezoneFrag z m.timezoneOffset

theorem dateTimeRep_iff {T : Lexical Clock} : dateTimeRep T word m ↔
    dateTimeWord T word m ∧ m.day ≤ lastDay m.year m.month where
  mp := by
    rintro ⟨y, _, year, rfl, hy, hw⟩
    obtain ⟨_, rfl, mo, _, month, rfl, hm, hw⟩ := char_bind_iff.mp hw
    obtain ⟨_, rfl, d, _, day, rfl, hd, hw⟩ := char_bind_iff.mp hw
    obtain ⟨_, rfl, c, _, clock, rfl, hc, z, _, offset, rfl, hz, hw⟩ := char_bind_iff.mp hw
    obtain ⟨hl, rfl, rfl⟩ := require_bind_iff.mp hw
    exact ⟨⟨y, mo, d, c, z, by simp, hy, hm, hd, hc, hz⟩, hl⟩
  mpr := by
    rintro ⟨⟨y, mo, d, c, z, rfl, hy, hm, hd, hc, hz⟩, hl⟩
    refine ⟨y, _, _, rfl, hy, char_bind_iff.mpr ⟨_, rfl, mo, _, _, rfl, hm, ?_⟩⟩
    refine char_bind_iff.mpr ⟨_, rfl, d, _, _, rfl, hd, ?_⟩
    refine char_bind_iff.mpr ⟨_, rfl, c, _, _, rfl, hc, z, [], _, by simp, hz, ?_⟩
    exact require_bind_iff.mpr ⟨hl, rfl, rfl⟩

theorem timeRep_iff {T : Lexical Clock} : timeRep T word m ↔
    ∃ c z, word = c ++ z ∧ T c m.toClock ∧ opt timezoneFrag z m.timezoneOffset ∧
      m.year = 1972 ∧ m.month = 12 ∧ m.day = 31 where
  mp := by
    rintro ⟨c, _, clock, rfl, hc, z, _, offset, rfl, hz, rfl, rfl⟩
    exact ⟨c, z, by simp, hc, hz, rfl, rfl, rfl⟩
  mpr := by
    rintro ⟨c, z, rfl, hc, hz, hy, hm, hd⟩
    refine ⟨c, z, _, rfl, hc, z, [], _, by simp, hz, rfl, ?_⟩
    rw [← hy, ← hm, ← hd]

end Grammar

-- The year, the month, the day, the time and the offset of the timezone.
def dateTimeFields : Frag (ℤ × ℕ × ℕ × (ℕ × ℕ × ℤ) × Option ℤ) := do
  let year ← yearFrag
  expectChar '-'
  let month ← monthFrag
  expectChar '-'
  let day ← dayFrag
  expectChar 'T'
  let (clock, timezoneOffset) ← timeFields
  return (year, month, day, clock, timezoneOffset)

def momentOf (fields : ℤ × ℕ × ℕ × (ℕ × ℕ × ℤ) × Option ℤ) : Grammar.Moment :=
  { clockOf fields.2.2.2.1 with
    year           := fields.1
    month          := fields.2.1
    day            := fields.2.2.1
    timezoneOffset := fields.2.2.2.2 }

theorem dateTimeFields_reads : Reads dateTimeFields (fun word fields =>
    Grammar.dateTimeWord clock24 word (momentOf fields) ∧ |fields.1| < 2 ^ 63) (· = []) := by
  have h : Reads dateTimeFields (do
      let year ← (fun word y => Grammar.yearFrag word y ∧ |y| < 2 ^ 63 : Lexical ℤ)
      char '-'
      let month ← twoDigit 1 12
      char '-'
      let day ← twoDigit 1 31
      char 'T'
      let time ← (do
        let clock ← comap clockOf clock24
        let timezoneOffset ← opt Grammar.timezoneFrag
        return (clock, timezoneOffset))
      return (year, month, day, time.1, time.2)) (· = []) := by
    refine yearFrag_reads.bind (fun _ => expectChar_bind_reads <| twoDigitFrag_reads.bind
      (fun _ => expectChar_bind_reads <| twoDigitFrag_reads.bind (fun _ => expectChar_bind_reads <|
        timeFields_reads.bind (fun _ => .pure _) ?_) ?_) ?_) ?_
    · rintro _ _ _ _ ⟨rfl, -⟩ rfl
      rfl
    all_goals
      intro _ word _ rest hw hr
      obtain ⟨_, rfl, -⟩ := char_bind_iff.mp hw
      exact noDigit_cons (by decide)
  apply h.congr
  intro word fields
  unfold Grammar.dateTimeWord
  rw [Grammar.monthFrag_eq, Grammar.dayFrag_eq]
  constructor
  · rintro ⟨y, _, year, rfl, hy, hw⟩
    obtain ⟨_, rfl, mo, _, month, rfl, hm, hw⟩ := char_bind_iff.mp hw
    obtain ⟨_, rfl, d, _, day, rfl, hd, hw⟩ := char_bind_iff.mp hw
    obtain ⟨_, rfl, _, _, time, rfl, ⟨c, _, clock, rfl, hc, z, _, offset, rfl, hz, rfl, rfl⟩,
      rfl, rfl⟩ := char_bind_iff.mp hw
    exact ⟨⟨y, mo, d, c, z, by simp, hy.1, hm, hd, hc, hz⟩, hy.2⟩
  · rintro ⟨⟨y, mo, d, c, z, rfl, hy, hm, hd, hc, hz⟩, hb⟩
    refine ⟨y, _, _, rfl, ⟨hy, hb⟩, char_bind_iff.mpr ⟨_, rfl, mo, _, _, rfl, hm, ?_⟩⟩
    refine char_bind_iff.mpr ⟨_, rfl, d, _, _, rfl, hd, ?_⟩
    refine char_bind_iff.mpr ⟨_, rfl, c ++ z, [], _, by simp, ?_, rfl, rfl⟩
    exact ⟨c, z, _, rfl, hc, z, [], _, by simp, hz, rfl, rfl⟩

end Datatypes
