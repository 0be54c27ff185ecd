/-
  Days of the Gregorian calendar and their dates.

  1. **Dates** (`civil`, `dayOf`): the date of a day, by the years that begin in March, in which the leap day is the
     last one; and the day of a date.  Days are counted from the first of the year 1, in both directions.
  2. **The year** (`yearOf_spec`): where the division by the mean length of a year stops, what is left is a day of
     that year, the leap day included.
  3. **The crux** (`dayOf_civil`): the day of the date of a day is that day.  So two days never bear one date.
-/
import Mathlib.Tactic.Common

namespace Calendar

/-! ## Dates -/

/-- Year, month and day of a day, counted from the first of the year 1. -/
def civil (day : Int) : Int × Int × Int :=
  -- in years that begin in March, from the first of March of the year 0
  let z := day + 306
  let era := z / 146097
  let doe := z % 146097
  let yoe := (doe - doe / 1460 + doe / 36524 - doe / 146096) / 365
  let doy := doe - (365 * yoe + yoe / 4 - yoe / 100)
  let mp := (5 * doy + 2) / 153
  let month := if mp < 10 then mp + 3 else mp - 9
  (yoe + era * 400 + (if month ≤ 2 then 1 else 0), month, doy - (153 * mp + 2) / 5 + 1)

example : civil 738944 = (2024, 2, 29) ∧ civil 693654 = (1900, 3, 1) := by decide

/-- The day of a date. -/
def dayOf : Int × Int × Int → Int
  | (year, month, day) =>
    let mp := if month ≤ 2 then month + 9 else month - 3
    let y := if month ≤ 2 then year - 1 else year
    let yoe := y % 400
    146097 * (y / 400) + (365 * yoe + yoe / 4 - yoe / 100) + (153 * mp + 2) / 5 + (day - 1) - 306

/-! ## The year -/

/-- The year of a day within four centuries, and the days of the year before it. -/
theorem yearOf_spec {doe yoe c d e : Int} (hlow : 0 ≤ doe) (hhigh : doe < 146097) (hc : c = doe / 1460)
    (hd : d = doe / 36524) (he : e = doe / 146096) (hyoe : yoe = (doe - c + d - e) / 365) :
    (0 ≤ yoe ∧ yoe < 400) ∧
      0 ≤ doe - (365 * yoe + yoe / 4 - yoe / 100) ∧ doe - (365 * yoe + yoe / 4 - yoe / 100) < 366 := by
  have hcentury : d = 0 ∨ d = 1 ∨ d = 2 ∨ d = 3 ∨ d = 4 := by omega
  have hlast : e = d / 4 := by omega
  -- the division by four years runs ahead by at most a year
  have hleap : yoe - 4 * c = -1 ∨ yoe - 4 * c = 0 ∨ yoe - 4 * c = 1 ∨ yoe - 4 * c = 2 ∨ yoe - 4 * c = 3 := by
    rcases hcentury with rfl | rfl | rfl | rfl | rfl <;> omega
  have hturn : yoe / 100 = d ∨ yoe / 100 = d - 1 := by
    rcases hcentury with rfl | rfl | rfl | rfl | rfl <;> omega
  refine ⟨by omega, ?_⟩
  rcases hcentury with rfl | rfl | rfl | rfl | rfl <;> rcases hleap with h | h | h | h | h <;> omega

/-- The month of a day of a year that begins in March. -/
theorem monthOf_spec {doy mp : Int} (hlow : 0 ≤ doy) (hhigh : doy < 366) (hmp : mp = (5 * doy + 2) / 153) :
    (0 ≤ mp ∧ mp < 12) ∧ 0 ≤ doy - (153 * mp + 2) / 5 ∧ doy - (153 * mp + 2) / 5 < 31 := by
  omega

/-- Month and day of a day of the year, and the year that begins in January, are undone. -/
theorem dayOf_parts {era yoe doy mp month : Int} (hyoe : 0 ≤ yoe ∧ yoe < 400) (hmp : 0 ≤ mp ∧ mp < 12)
    (hmonth : month = if mp < 10 then mp + 3 else mp - 9) :
    dayOf (yoe + era * 400 + (if month ≤ 2 then 1 else 0), month, doy - (153 * mp + 2) / 5 + 1) =
      146097 * era + (365 * yoe + yoe / 4 - yoe / 100) + doy - 306 := by
  rw [dayOf]
  split at hmonth
  · next hspring =>
    have hlate : ¬ month ≤ 2 := by omega
    simp only [hlate, if_false]
    have hera : (yoe + era * 400 + 0) / 400 = era := by omega
    have hyear : (yoe + era * 400 + 0) % 400 = yoe := by omega
    have hback : month - 3 = mp := by omega
    rw [hera, hyear, hback]
    omega
  · next hwinter =>
    have hearly : month ≤ 2 := by omega
    simp only [hearly, if_true]
    have hera : (yoe + era * 400 + 1 - 1) / 400 = era := by omega
    have hyear : (yoe + era * 400 + 1 - 1) % 400 = yoe := by omega
    have hback : month + 9 = mp := by omega
    rw [hera, hyear, hback]
    omega

/-! ## The crux -/

/-- **The date of a day determines it.** -/
theorem dayOf_civil (day : Int) : dayOf (civil day) = day := by
  obtain ⟨hyoe, hdoy⟩ := yearOf_spec (Int.emod_nonneg (day + 306) (by decide))
    (Int.emod_lt_of_pos (day + 306) (by decide)) rfl rfl rfl rfl
  obtain ⟨hmp, -⟩ := monthOf_spec hdoy.1 hdoy.2 rfl
  exact (dayOf_parts hyoe hmp rfl).trans (by omega)

/-- **Two days never bear one date.** -/
theorem civil_injective {day day' : Int} (h : civil day = civil day') : day = day' := by
  calc
    day = dayOf (civil day) := (dayOf_civil day).symm
    _ = dayOf (civil day') := congrArg dayOf h
    _ = day' := dayOf_civil day'

/-- The month of a date is one of twelve, and its day one of at most 31. -/
theorem civil_bounds (day : Int) :
    (1 ≤ (civil day).2.1 ∧ (civil day).2.1 ≤ 12) ∧ 1 ≤ (civil day).2.2 ∧ (civil day).2.2 ≤ 31 := by
  obtain ⟨-, hdoy⟩ := yearOf_spec (Int.emod_nonneg (day + 306) (by decide))
    (Int.emod_lt_of_pos (day + 306) (by decide)) rfl rfl rfl rfl
  obtain ⟨hmp, hday⟩ := monthOf_spec hdoy.1 hdoy.2 rfl
  refine ⟨?_, by simp only [civil]; omega⟩
  simp only [civil]
  split <;> omega

/-- The years are counted from 1. -/
theorem civil_year {day : Int} (hday : 0 ≤ day) : 1 ≤ (civil day).1 := by
  obtain ⟨hyoe, hdoy⟩ := yearOf_spec (Int.emod_nonneg (day + 306) (by decide))
    (Int.emod_lt_of_pos (day + 306) (by decide)) rfl rfl rfl rfl
  simp only [civil]
  split <;> split <;> omega

end Calendar
