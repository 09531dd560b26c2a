import OxigraphCloud.Primitives.Gregorian
import OxigraphCloud.Server.Timestamp

-- The date of a number of days.

open Gregorian

namespace UInt64

theorem toNat_add_of_lt {a b : UInt64} (h : a.toNat + b.toNat < 2 ^ 64) :
    (a + b).toNat = a.toNat + b.toNat := by
  rw [UInt64.toNat_add, Nat.mod_eq_of_lt h]

theorem toNat_mul_of_lt {a b : UInt64} (h : a.toNat * b.toNat < 2 ^ 64) :
    (a * b).toNat = a.toNat * b.toNat := by
  rw [UInt64.toNat_mul, Nat.mod_eq_of_lt h]

theorem toNat_sub_of_toNat_le {a b : UInt64} (h : b.toNat ≤ a.toNat) :
    (a - b).toNat = a.toNat - b.toNat :=
  UInt64.toNat_sub_of_le _ _ h

end UInt64

-- The number of days in an era of 400 years, without its leap days.
def commonDays (doe : ℕ) : ℕ := doe - doe / 1460 + doe / 36524 - doe / 146096

theorem commonDays_mono : Monotone commonDays := by
  refine monotone_nat_of_le_succ fun doe => ?_
  unfold commonDays
  omega

-- The first and the last day of each year.
theorem commonDays_ends : ∀ y < 400,
    365 * y ≤ commonDays (marchStart y) ∧ commonDays (marchStart (y + 1) - 1) < 365 * (y + 1) := by
  decide +kernel

def yearOfEra (doe : ℕ) : ℕ := commonDays doe / 365

theorem yearOfEra_spec (h : doe < 146097) : yearOfEra doe < 400 ∧
    marchStart (yearOfEra doe) ≤ doe ∧ doe < marchStart (yearOfEra doe + 1) := by
  have hlt : yearOfEra doe < 400 := by
    refine (Nat.div_lt_iff_lt_mul (by decide)).mpr ?_
    exact (commonDays_mono (Nat.le_of_lt_succ h)).trans_lt (by decide)
  have hdiv : 365 * yearOfEra doe ≤ commonDays doe := Nat.mul_div_le ..
  have hmod : commonDays doe < 365 * (yearOfEra doe + 1) := Nat.lt_mul_div_succ _ (by decide)
  refine ⟨hlt, ?_, ?_⟩
  · by_contra! hs
    cases hy : yearOfEra doe
    case zero =>
      rw [hy] at hs
      exact absurd hs (Nat.not_lt_zero _)
    case succ y =>
      rw [hy] at hs hdiv hlt
      have hm := commonDays_mono (Nat.le_sub_one_of_lt hs)
      have he := (commonDays_ends y (by omega)).2
      omega
  · by_contra! hs
    have hm := commonDays_mono hs
    rcases Nat.lt_or_ge (yearOfEra doe + 1) 400
    case inl hl =>
      have he := (commonDays_ends _ hl).1
      omega
    case inr hl =>
      have hy : yearOfEra doe + 1 = 400 := by omega
      rw [hy] at hs
      exact absurd h (not_lt.mpr hs)

-- An era has 146097 days.
theorem marchStart_add_era (h : y < 400) (era : ℕ) :
    marchStart (y + 400 * era) = marchStart y + 146097 * era := by
  unfold marchStart
  omega

theorem marchLength_add_era (y era : ℕ) : marchLength (y + 400 * era) = marchLength y := by
  have h : IsLeap (y + 400 * era + 1) ↔ IsLeap (y + 1) := by
    unfold IsLeap
    omega
  rw [marchLength, marchLength, if_congr h rfl rfl]

-- The year that starts in March and the day of it, from the number of days since the year 0.
def marchYear (z : ℕ) : ℕ := yearOfEra (z % 146097) + 400 * (z / 146097)

theorem marchYear_spec (z : ℕ) : marchStart (marchYear z) ≤ z ∧
    z < marchStart (marchYear z) + marchLength (marchYear z) := by
  obtain ⟨hlt, hle, hl⟩ := yearOfEra_spec (Nat.mod_lt z (by decide : 146097 > 0))
  have hz := Nat.mod_add_div z 146097
  have hs := marchStart_succ (yearOfEra (z % 146097))
  rw [marchYear, marchStart_add_era hlt, marchLength_add_era]
  omega

theorem marchYear_unique (h : marchStart y ≤ z) (h' : z < marchStart y + marchLength y) :
    marchYear z = y := by
  obtain ⟨hle, hl⟩ := marchYear_spec z
  rw [← marchStart_succ] at h' hl
  refine Nat.le_antisymm ?_ ?_
  · exact Nat.lt_succ_iff.mp <| marchStart_mono.reflect_lt <| hle.trans_lt h'
  · exact Nat.lt_succ_iff.mp <| marchStart_mono.reflect_lt <| h.trans_lt hl

-- The date of a day.
def dateOf (z : ℕ) : Date := .ofMarch (marchYear z) (z - marchStart (marchYear z))

theorem dateOf_succ (z : ℕ) : dateOf (z + 1) = (dateOf z).next := by
  obtain ⟨hle, hl⟩ := marchYear_spec z
  rw [dateOf, dateOf, next_ofMarch (by omega)]
  split
  case isTrue h =>
    rw [marchYear_unique (y := marchYear z) (by omega) (by omega), Nat.sub_add_comm hle]
  case isFalse h =>
    have hs := marchStart_succ (marchYear z)
    have hp : 0 < marchLength (marchYear z + 1) := by
      unfold marchLength
      split <;> decide
    rw [marchYear_unique (y := marchYear z + 1) (by omega) (by omega)]
    congr 1
    omega

theorem dateOf_add (z n : ℕ) : dateOf (z + n) = Date.next^[n] (dateOf z) := by
  induction n
  case zero => rfl
  case succ n hi => rw [← Nat.add_assoc, dateOf_succ, hi, Function.iterate_succ_apply']

-- Nothing overflows, as the steps are the same on numbers.
theorem toNat_yearOfEra {doe : UInt64} (h : doe.toNat < 146097) :
    ((doe - doe / 1460 + doe / 36524 - doe / 146096) / 365).toNat = yearOfEra doe.toNat := by
  have h₁ : (doe / 1460).toNat = doe.toNat / 1460 := UInt64.toNat_div ..
  have h₂ : (doe / 36524).toNat = doe.toNat / 36524 := UInt64.toNat_div ..
  have h₃ : (doe / 146096).toNat = doe.toNat / 146096 := UInt64.toNat_div ..
  have ha : (doe - doe / 1460).toNat = doe.toNat - doe.toNat / 1460 := by
    rw [UInt64.toNat_sub_of_toNat_le (h₁ ▸ Nat.div_le_self ..), h₁]
  have hb : (doe - doe / 1460 + doe / 36524).toNat =
      doe.toNat - doe.toNat / 1460 + doe.toNat / 36524 := by
    rw [UInt64.toNat_add_of_lt, ha, h₂]
    rw [ha, h₂]
    have : doe.toNat / 36524 ≤ doe.toNat := Nat.div_le_self ..
    omega
  rw [UInt64.toNat_div, UInt64.toNat_sub_of_toNat_le, hb, h₃]
  · rfl
  · rw [hb, h₃]
    exact (Nat.div_le_div_left (by decide) (by decide)).trans (Nat.le_add_left ..)

theorem toNat_dayOfEra (z : UInt64) : (z - z / 146097 * 146097).toNat = z.toNat % 146097 := by
  have hm : (z / 146097 * 146097).toNat = z.toNat / 146097 * 146097 := by
    have hd : (z / 146097).toNat = z.toNat / 146097 := UInt64.toNat_div ..
    rw [UInt64.toNat_mul_of_lt, hd]
    · rfl
    · rw [hd]
      exact (Nat.div_mul_le_self ..).trans_lt z.toNat_lt
  rw [UInt64.toNat_sub_of_toNat_le (hm ▸ Nat.div_mul_le_self ..), hm]
  omega

theorem toNat_year {yoe era : UInt64} (h : yoe.toNat < 400) (he : era.toNat ≤ 2 ^ 48) :
    (yoe + era * 400).toNat = yoe.toNat + 400 * era.toNat := by
  have hm : (era * 400).toNat = era.toNat * 400 :=
    UInt64.toNat_mul_of_lt ((Nat.mul_le_mul_right 400 he).trans_lt (by decide))
  rw [UInt64.toNat_add_of_lt, hm, Nat.mul_comm]
  rw [hm]
  omega

theorem toNat_dayOfYear {doe yoe : UInt64} (h : yoe.toNat < 400)
    (hle : marchStart yoe.toNat ≤ doe.toNat) :
    (doe - (365 * yoe + yoe / 4 - yoe / 100)).toNat = doe.toNat - marchStart yoe.toNat := by
  have h₁ : (365 * yoe).toNat = 365 * yoe.toNat :=
    UInt64.toNat_mul_of_lt ((Nat.mul_lt_mul_of_pos_left h (by decide)).trans (by decide))
  have h₂ : (yoe / 4).toNat = yoe.toNat / 4 := UInt64.toNat_div ..
  have h₃ : (yoe / 100).toNat = yoe.toNat / 100 := UInt64.toNat_div ..
  have ha : (365 * yoe + yoe / 4).toNat = 365 * yoe.toNat + yoe.toNat / 4 := by
    rw [UInt64.toNat_add_of_lt, h₁, h₂]
    rw [h₁, h₂]
    omega
  have hs : (365 * yoe + yoe / 4 - yoe / 100).toNat = marchStart yoe.toNat := by
    rw [UInt64.toNat_sub_of_toNat_le, ha, h₃, marchStart, Nat.div_eq_of_lt h, Nat.add_zero]
    rw [ha, h₃]
    omega
  rw [UInt64.toNat_sub_of_toNat_le (hs ▸ hle), hs]

-- The month and the day from the day of the year, as they are computed.
def monthOf (doy : UInt64) : UInt64 :=
  if (5 * doy + 2) / 153 < 10 then (5 * doy + 2) / 153 + 3 else (5 * doy + 2) / 153 - 9

def dayOf (doy : UInt64) : UInt64 := doy - (153 * ((5 * doy + 2) / 153) + 2) / 5 + 1

theorem toNat_marchDay (doy : UInt64) (h : doy.toNat < 366) :
    (monthOf doy).toNat = (marchDay doy.toNat).1 ∧ (dayOf doy).toNat = (marchDay doy.toNat).2 := by
  have hall : ∀ n < 366, (monthOf (.ofNat n)).toNat = (marchDay n).1 ∧
      (dayOf (.ofNat n)).toNat = (marchDay n).2 := by
    decide +kernel
  have hd := hall doy.toNat h
  rwa [UInt64.ofNat_toNat] at hd

-- The date that is returned.
def Gregorian.Date.ofYmd (ymd : UInt64 × UInt64 × UInt64) : Date :=
  ⟨ymd.1.toNat, ymd.2.1.toNat, ymd.2.2.toNat⟩

theorem ofYmd_daysToYmd {days : UInt64} (h : days.toNat ≤ 2 ^ 63) :
    Date.ofYmd (daysToYmd days) = dateOf (days.toNat + 719468) := by
  have hz : (days + 719468).toNat = days.toNat + 719468 :=
    UInt64.toNat_add_of_lt (Nat.lt_of_le_of_lt (Nat.add_le_add_right h _) (by decide))
  rw [daysToYmd, ← hz]
  generalize days + 719468 = z at hz
  have hdoe := toNat_dayOfEra z
  have hera : (z / 146097).toNat = z.toNat / 146097 := UInt64.toNat_div ..
  generalize z - z / 146097 * 146097 = doe at *
  generalize z / 146097 = era at *
  have hmod : doe.toNat < 146097 := hdoe ▸ Nat.mod_lt _ (by decide)
  obtain ⟨hlt, hle, hl⟩ := yearOfEra_spec hmod
  have hyoe := toNat_yearOfEra hmod
  generalize (doe - doe / 1460 + doe / 36524 - doe / 146096) / 365 = yoe at *
  rw [← hyoe] at hlt hle hl
  have hdoy := toNat_dayOfYear hlt hle
  generalize doe - (365 * yoe + yoe / 4 - yoe / 100) = doy at *
  have hlen := marchStart_succ yoe.toNat
  have hlast : marchLength yoe.toNat ≤ 366 := by
    unfold marchLength
    split <;> decide
  obtain ⟨hm, hd⟩ := toNat_marchDay doy (by omega)
  have hle48 : era.toNat ≤ 2 ^ 48 := by omega
  have hy : (yoe + era * 400).toNat = yoe.toNat + 400 * era.toNat := toNat_year hlt hle48
  have hmarch : marchYear z.toNat = (yoe + era * 400).toNat := by
    rw [marchYear, ← hdoe, ← hera, ← hyoe, hy]
  have hday : z.toNat - marchStart (marchYear z.toNat) = doy.toNat := by
    rw [hmarch, hy, marchStart_add_era hlt]
    omega
  have hmonth : monthOf doy ≤ 2 ↔ (marchDay doy.toNat).1 ≤ 2 := by
    rw [UInt64.le_iff_toNat_le, hm]
    rfl
  have hyear : (if monthOf doy ≤ 2 then yoe + era * 400 + 1 else yoe + era * 400).toNat =
      if (marchDay doy.toNat).1 ≤ 2 then (yoe + era * 400).toNat + 1
      else (yoe + era * 400).toNat := by
    rw [if_congr hmonth rfl rfl]
    split
    case isTrue =>
      refine UInt64.toNat_add_of_lt ?_
      rw [hy, UInt64.toNat_one]
      omega
    case isFalse => rfl
  rw [dateOf, hday, hmarch, Date.ofMarch, ← hyear, ← hm, ← hd]
  rfl

def epoch : Date := ⟨1970, 1, 1⟩

theorem dateOf_epoch : dateOf 719468 = epoch := by decide

theorem ofYmd_daysToYmd_eq_iterate {days : UInt64} (h : days.toNat ≤ 2 ^ 63) :
    Date.ofYmd (daysToYmd days) = Date.next^[days.toNat] epoch := by
  rw [ofYmd_daysToYmd h, Nat.add_comm, dateOf_add, dateOf_epoch]

theorem formatTimestamp_eq (secs : UInt64) : ∃ time, formatTimestamp secs =
    let date := Date.next^[secs.toNat / 86400] epoch
    .ofList (Nat.padded 4 date.year ++ '-' :: Nat.padded 2 date.month ++
      '-' :: Nat.padded 2 date.day ++ 'T' :: time) := by
  have hd : (secs / 86400).toNat = secs.toNat / 86400 := UInt64.toNat_div ..
  have hl : (secs / 86400).toNat ≤ 2 ^ 63 := by
    have := secs.toNat_lt
    omega
  rw [← hd, ← ofYmd_daysToYmd_eq_iterate hl, formatTimestamp]
  generalize daysToYmd (secs / 86400) = ymd
  obtain ⟨year, month, day⟩ := ymd
  refine ⟨Nat.padded 2 (secs % 86400 / 3600).toNat ++
    (':' :: Nat.padded 2 (secs % 86400 % 3600 / 60).toNat ++
      (':' :: Nat.padded 2 (secs % 86400 % 60).toNat ++ ['Z'])), congrArg String.ofList ?_⟩
  simp only [List.append_assoc, List.cons_append, Date.ofYmd]

-- The date of a number of days is the one that is reached by going from day to day. It is after
-- the dates of all smaller numbers of days. Timestamps start with it.
theorem daysToYmd_spec (days : UInt64) (h : days.toNat ≤ 2 ^ 63) (secs : UInt64) :
    Date.ofYmd (daysToYmd days) = Date.next^[days.toNat] ⟨1970, 1, 1⟩ ∧
    (∀ earlier < days,
      (Date.ofYmd (daysToYmd earlier)).order < (Date.ofYmd (daysToYmd days)).order) ∧
    ∃ time, formatTimestamp secs =
      let date := Date.next^[secs.toNat / 86400] ⟨1970, 1, 1⟩
      .ofList (Nat.padded 4 date.year ++ '-' :: Nat.padded 2 date.month ++
        '-' :: Nat.padded 2 date.day ++ 'T' :: time) := by
  refine ⟨ofYmd_daysToYmd_eq_iterate h, fun earlier he => ?_, formatTimestamp_eq secs⟩
  have he := UInt64.lt_iff_toNat_lt.mp he
  rw [ofYmd_daysToYmd_eq_iterate h, ofYmd_daysToYmd_eq_iterate (he.le.trans h)]
  exact Date.strictMono_iterate_next epoch he

theorem daysToYmd_leapDay :
    (11016 : UInt64).toNat ≤ 2 ^ 63 ∧
      Date.ofYmd (daysToYmd 11016) = Date.next^[(11016 : UInt64).toNat] ⟨1970, 1, 1⟩ :=
  ⟨by decide, (daysToYmd_spec 11016 (by decide) 0).1⟩
