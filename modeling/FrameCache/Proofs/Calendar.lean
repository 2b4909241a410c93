import Mathlib
import FrameCache.Time.Civil

/-!
# Days and dates

`Civil.ofDays` and `Civil.toDays` are inverse: every count of days names a date of the
calendar, and counting the days to that date gives the count back (`toDays_ofDays`,
`isValid_ofDays`).

The count is cut into eras of 400 years that start on 1 March of a year divisible by 400,
an era's day into a year of the era and a day of that year, and a day of a March year into a
month and a day (`ofDays_eq_marchDate`). The year of an era is found from centuries of 36524
days, four-year cycles of 1461 days and years of 365 days (`yearOfEra_eq`), which places the
year's last day on a 29 February exactly in the leap years (`yearOfEra_spec`).
-/

namespace FrameCache.Civil

/-- The year of an era's day, counted from 1 March of the era's first year. -/
def yearOfEra (doe : Int) : Int := (doe - doe / 1460 + doe / 36524 - doe / 146096) / 365

/-- The day of an era on which its year `yoe` starts, on 1 March. -/
def startOfYear (yoe : Int) : Int := 365 * yoe + yoe / 4 - yoe / 100

/-- The date of day `doy` (from 0) of the year that starts on 1 March of `y`: March to
December belong to `y`, January and February to the year after. -/
def marchDate (y doy : Int) : Civil :=
  let mp := (5 * doy + 2) / 153
  let d := doy - (153 * mp + 2) / 5 + 1
  let m := if mp < 10 then mp + 3 else mp - 9
  { year := y + (if m ≤ 2 then 1 else 0), month := m.toNat, day := d.toNat }

/-- The count of days is cut into eras of 400 years from 1 March of year 0, the day of the
era into a year and a day of that year. -/
theorem ofDays_eq_marchDate (z : Int) :
    ofDays z = marchDate
      (yearOfEra ((z + epochShift) % eraDays) + (z + epochShift) / eraDays * 400)
      ((z + epochShift) % eraDays - startOfYear (yearOfEra ((z + epochShift) % eraDays))) := by
  have h : (z + epochShift) % eraDays =
      z + epochShift - (z + epochShift) / eraDays * eraDays := by
    rw [Int.emod_def, Int.mul_comm]
  rw [h]
  rfl

/-- Inside an era the year is found from centuries of 36524 days, four-year cycles of 1461
days and years of 365 days; only the era's last day is left out, the extra leap day of its
fourth century. -/
theorem yearOfEra_eq {doe : Int} (h0 : 0 ≤ doe) (h1 : doe < 146096) :
    yearOfEra doe = 100 * (doe / 36524) + 4 * ((doe - 36524 * (doe / 36524)) / 1461) +
      min (((doe - 36524 * (doe / 36524)) % 1461) / 365) 3 := by
  unfold yearOfEra
  generalize hC : doe / 36524 = C
  have hC0 : 0 ≤ C ∧ C ≤ 3 := by omega
  generalize hq : (doe - 36524 * C) / 1461 = q
  have hq0 : 0 ≤ q ∧ q ≤ 24 := by omega
  generalize hs : (doe - 36524 * C) % 1461 = s
  have hdec : doe = 36524 * C + 1461 * q + s := by omega
  have hs0 : 0 ≤ s ∧ s ≤ 1460 := by omega
  -- the leap days counted by `doe / 1460` run one ahead only on the last day of a cycle
  have h1460 : doe / 1460 = 25 * C + q + (24 * C + q + s) / 1460 := by omega
  omega

/-- The year of an era's day lies in `0..399`, the day lies in its year, and the year's last
day, 365, is a leap day: the year after is divisible by 4 and not by 100 unless it ends the
era. -/
theorem yearOfEra_spec {doe : Int} (h0 : 0 ≤ doe) (h1 : doe < 146097) :
    0 ≤ yearOfEra doe ∧ yearOfEra doe ≤ 399 ∧ startOfYear (yearOfEra doe) ≤ doe ∧
      doe ≤ startOfYear (yearOfEra doe) + 365 ∧
      (doe = startOfYear (yearOfEra doe) + 365 →
        (yearOfEra doe + 1) % 4 = 0 ∧ ((yearOfEra doe + 1) % 100 ≠ 0 ∨ yearOfEra doe = 399)) := by
  by_cases hlast : doe = 146096
  · subst hlast
    decide
  rw [yearOfEra_eq h0 (by omega)]
  unfold startOfYear
  generalize hC : doe / 36524 = C
  generalize hq : (doe - 36524 * C) / 1461 = q
  generalize hs : (doe - 36524 * C) % 1461 = s
  have hdec : doe = 36524 * C + 1461 * q + s := by omega
  have hC0 : 0 ≤ C ∧ C ≤ 3 := by omega
  have hq0 : 0 ≤ q ∧ q ≤ 24 := by omega
  have hs0 : 0 ≤ s ∧ s ≤ 1460 := by omega
  generalize hY : min (s / 365) 3 = Y
  have hY0 : 0 ≤ Y ∧ Y ≤ 3 ∧ 365 * Y ≤ s ∧ s ≤ 365 * Y + 365 := by omega
  have hfull : s = 365 * Y + 365 → Y = 3 ∧ q < 24 := by omega
  have h4 : (100 * C + 4 * q + Y) / 4 = 25 * C + q := by omega
  have h100 : (100 * C + 4 * q + Y) / 100 = C := by omega
  rw [h4, h100]
  omega

/-- The month index from March, `0..11`, of each day of a March year. -/
theorem monthIndex_bounds {doy : Int} (h0 : 0 ≤ doy) (h1 : doy ≤ 365) :
    0 ≤ (5 * doy + 2) / 153 ∧ (5 * doy + 2) / 153 ≤ 11 := by
  omega

/-- Counting the days of a March year back gives the day it was made from. -/
theorem toDays_marchDate (y : Int) {doy : Int} (h0 : 0 ≤ doy) (h1 : doy ≤ 365) :
    (marchDate y doy).toDays =
      y / 400 * eraDays + startOfYear (y - y / 400 * 400) + doy - epochShift := by
  have hmp := monthIndex_bounds h0 h1
  unfold toDays marchDate startOfYear eraDays epochShift
  dsimp only
  generalize hm : (5 * doy + 2) / 153 = mp at hmp ⊢
  -- the month number is positive, so it comes back unchanged from `Nat`
  by_cases hlt : mp < 10
  · have hm : ((mp + 3).toNat : Int) = mp + 3 := Int.toNat_of_nonneg (by omega)
    simp only [hlt, if_true, hm, show ¬ mp + 3 ≤ 2 by omega, show mp + 3 > 2 by omega, if_false,
      Int.add_zero, Int.sub_zero, Int.add_sub_cancel]
    omega
  · have hm : ((mp - 9).toNat : Int) = mp - 9 := Int.toNat_of_nonneg (by omega)
    simp only [hlt, if_false, hm, show mp - 9 ≤ 2 by omega, show ¬ mp - 9 > 2 by omega, if_true,
      Int.add_sub_cancel, Int.sub_add_cancel]
    omega

/-- Every day of a March year is a date of the calendar, the leap day included when the
year after is a leap year. -/
theorem isValid_marchDate (y : Int) {doy : Int} (h0 : 0 ≤ doy) (h1 : doy ≤ 365)
    (hleap : doy = 365 → isLeapYear (y + 1) = true) : (marchDate y doy).isValid = true := by
  have hmp := monthIndex_bounds h0 h1
  unfold isValid marchDate
  dsimp only
  generalize hm : (5 * doy + 2) / 153 = mp at hmp ⊢
  obtain ⟨hlo, hhi⟩ := hmp
  simp only [Bool.and_eq_true, decide_eq_true_eq]
  -- one case per month index, with its month number and length worked out
  interval_cases mp <;> simp only [daysInMonth, Int.reduceLT, Int.reduceAdd, Int.reduceSub,
    Int.reduceMul, Int.reduceDiv, Int.reduceToNat, Int.reduceLE, if_true, if_false]
  -- March to January have fixed lengths
  any_goals omega
  -- February has a 29th day only in a leap year
  split_ifs with hl
  · omega
  · have h365 : doy ≠ 365 := fun h => hl (hleap h)
    omega

/-- The day of its era that a count of days falls on. -/
theorem eraDay_bounds (z : Int) : 0 ≤ (z + epochShift) % eraDays ∧ (z + epochShift) % eraDays < 146097 := by
  have hera : 0 < eraDays := by decide
  exact ⟨Int.emod_nonneg _ (Int.ne_of_gt hera), Int.emod_lt_of_pos _ hera⟩

/-- Counting the days to the date of a day gives the day back. -/
theorem toDays_ofDays (z : Int) : (ofDays z).toDays = z := by
  obtain ⟨hd0, hd1⟩ := eraDay_bounds z
  obtain ⟨hy0, hy1, hs0, hs1, -⟩ := yearOfEra_spec hd0 hd1
  rw [ofDays_eq_marchDate, toDays_marchDate _ (by omega) (by omega)]
  generalize yearOfEra ((z + epochShift) % eraDays) = yoe at *
  -- the year of the era comes back as the era and the year inside it
  have hq : (yoe + (z + epochShift) / eraDays * 400) / 400 = (z + epochShift) / eraDays := by
    omega
  rw [hq, show yoe + (z + epochShift) / eraDays * 400 - (z + epochShift) / eraDays * 400 = yoe by
    omega]
  have := Int.emod_def (z + epochShift) eraDays
  rw [Int.mul_comm] at this
  omega

/-- Every count of days names a date of the calendar. -/
theorem isValid_ofDays (z : Int) : (ofDays z).isValid = true := by
  obtain ⟨hd0, hd1⟩ := eraDay_bounds z
  obtain ⟨hy0, hy1, hs0, hs1, hleap⟩ := yearOfEra_spec hd0 hd1
  rw [ofDays_eq_marchDate]
  refine isValid_marchDate _ (by omega) (by omega) fun h365 => ?_
  obtain ⟨h4, h100⟩ := hleap (by omega)
  generalize yearOfEra ((z + epochShift) % eraDays) = yoe at *
  simp only [isLeapYear, Bool.and_eq_true, beq_iff_eq, Bool.or_eq_true, bne_iff_ne, ne_eq]
  omega

theorem daysInMonth_le (y : Int) (m : Nat) : daysInMonth y m ≤ 31 := by
  unfold daysInMonth
  split <;> (try split) <;> omega

/-- A date of the calendar has a month `1..12` and a day `1..31`. -/
theorem isValid_bounds {c : Civil} (hc : c.isValid = true) :
    1 ≤ c.month ∧ c.month ≤ 12 ∧ 1 ≤ c.day ∧ c.day ≤ 31 := by
  simp only [isValid, Bool.and_eq_true, decide_eq_true_eq] at hc
  obtain ⟨⟨⟨hm1, hm2⟩, hd1⟩, hd2⟩ := hc
  exact ⟨hm1, hm2, hd1, hd2.trans (daysInMonth_le c.year c.month)⟩

/-- The dates of the years 0 to 9999 lie between 0000-01-01 and 9999-12-31. -/
theorem toDays_bounds {c : Civil} (hc : c.isValid = true) (hy0 : 0 ≤ c.year)
    (hy1 : c.year ≤ 9999) : -719528 ≤ c.toDays ∧ c.toDays ≤ 2932896 := by
  have hm := isValid_bounds hc
  unfold toDays eraDays epochShift
  dsimp only
  split_ifs <;> omega

end FrameCache.Civil
