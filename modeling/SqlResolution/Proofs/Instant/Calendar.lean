import SqlResolution.Instant.Calendar

/-!
# Days and dates

`dayNumber` counts the days of the proleptic Gregorian calendar one after another, and `civilDate`
gives the date of each day. A day is found by its place in an era of 400 years that starts in March:
the centuries, cycles of four years, years and days before it.
-/
namespace SqlResolution.Instant

/-- A day of a month of a year. -/
def CivilDate.IsDate (d : CivilDate) : Prop :=
  1 ≤ d.month ∧ d.month ≤ 12 ∧ 1 ≤ d.day ∧ d.day ≤ daysInMonth d.year d.month

instance (d : CivilDate) : Decidable d.IsDate := inferInstanceAs (Decidable (_ ∧ _))

/-- The day after a date. -/
def CivilDate.next (d : CivilDate) : CivilDate :=
  if d.day < daysInMonth d.year d.month then ⟨d.year, d.month, d.day + 1⟩
  else if d.month < 12 then ⟨d.year, d.month + 1, 1⟩
  else ⟨d.year + 1, 1, 1⟩

/-! ### Counting days -/

theorem isLeapYear_iff (year : Int) :
    isLeapYear year = true ↔ year % 4 = 0 ∧ (year % 100 ≠ 0 ∨ year % 400 = 0) := by
  simp [isLeapYear]

/-- The days of the years up to one that starts in March. -/
def daysBeforeYear (year : Int) : Int := 365 * year + year / 4 - year / 100 + year / 400

/-- The year in which a date lies when years start in March. -/
def CivilDate.marchYear (d : CivilDate) : Int := if d.month ≤ 2 then d.year - 1 else d.year

theorem dayNumber_eq (d : CivilDate) :
    dayNumber d = daysBeforeYear d.marchYear +
      (daysBeforeMonth ((d.month + 9) % 12) + d.day : Nat) - 719469 := by
  unfold dayNumber daysBeforeYear CivilDate.marchYear
  simp only [Int.fdiv_eq_ediv_of_nonneg _ (by decide : (0 : Int) ≤ 4),
    Int.fdiv_eq_ediv_of_nonneg _ (by decide : (0 : Int) ≤ 100),
    Int.fdiv_eq_ediv_of_nonneg _ (by decide : (0 : Int) ≤ 400)]

/-- The leap day is the last of the year that starts in the March before it. -/
theorem daysBeforeYear_eq (year : Int) :
    daysBeforeYear year =
      daysBeforeYear (year - 1) + 365 + if isLeapYear year then 1 else 0 := by
  unfold daysBeforeYear isLeapYear
  split
  · rename_i hleap
    simp only [Bool.and_eq_true, Bool.or_eq_true, beq_iff_eq, bne_iff_ne] at hleap
    omega
  · rename_i hleap
    simp only [Bool.and_eq_true, Bool.or_eq_true, beq_iff_eq, bne_iff_ne] at hleap
    omega

theorem daysInMonth_february (year : Int) :
    daysInMonth year 2 = 28 + if isLeapYear year then 1 else 0 := by
  cases h : isLeapYear year <;> simp [daysInMonth, h]

theorem daysInMonth_of_ne {month : Nat} (hpos : 1 ≤ month) (hle : month ≤ 12) (hne : month ≠ 2)
    (year : Int) :
    daysBeforeMonth ((month + 9) % 12) + daysInMonth year month =
      daysBeforeMonth ((month + 9) % 12 + 1) := by
  match month with
  | 1 | 3 | 4 | 5 | 6 | 7 | 8 | 9 | 10 | 11 | 12 => rfl

theorem daysInMonth_le (year : Int) (month : Nat) : daysInMonth year month ≤ 31 := by
  unfold daysInMonth
  split <;> (try split) <;> decide

/-- Days are counted one after another. -/
theorem dayNumber_next {d : CivilDate} (h : d.IsDate) : dayNumber d.next = dayNumber d + 1 := by
  obtain ⟨year, month, day⟩ := d
  obtain ⟨hmonth, hmonth', -, hday⟩ := h
  dsimp only at hmonth hmonth' hday
  unfold CivilDate.next
  dsimp only
  split
  · simp only [dayNumber_eq, CivilDate.marchYear]
    omega
  · rename_i hlast
    obtain rfl : day = daysInMonth year month := by omega
    by_cases hfebruary : month = 2
    · subst hfebruary
      have hyear := daysBeforeYear_eq year
      simp only [dayNumber_eq, CivilDate.marchYear, daysInMonth_february, daysBeforeMonth]
      cases hleap : isLeapYear year <;> simp [hleap] at hyear ⊢ <;> omega
    · have hlength := daysInMonth_of_ne hmonth hmonth' hfebruary year
      split
      · have hfromMarch : (month + 1 + 9) % 12 = (month + 9) % 12 + 1 := by omega
        simp only [dayNumber_eq, CivilDate.marchYear, hfromMarch, ← hlength]
        split <;> split <;> omega
      · obtain rfl : month = 12 := by omega
        simp only [dayNumber_eq, CivilDate.marchYear, daysBeforeMonth, daysInMonth]
        simp
        omega

/-! ### Finding the date of a day -/

/-- Where a day stands among the 400 years of an era: after whole centuries, whole cycles of four
years and whole years. Only the last year of a cycle may have a day more, and of the last cycles of
the centuries only that of the last. -/
structure EraDay where
  century : Nat
  cycle : Nat
  year : Nat
  day : Nat
  century_lt : century < 4
  cycle_lt : cycle < 25
  year_lt : year < 4
  day_lt : day < 365 ∨ day = 365 ∧ year = 3 ∧ (cycle < 24 ∨ century = 3)

namespace EraDay

/-- The days of the era before the day. -/
def daysBefore (p : EraDay) : Nat :=
  36524 * p.century + 1461 * p.cycle + 365 * p.year + p.day

/-- The years of the era before the day. -/
def yearsBefore (p : EraDay) : Nat := 100 * p.century + 4 * p.cycle + p.year

theorem exists_daysBefore {n : Nat} (h : n < 146097) : ∃ p : EraDay, p.daysBefore = n := by
  let century := min (n / 36524) 3
  let ofCentury := n - 36524 * century
  let cycle := ofCentury / 1461
  let ofCycle := ofCentury - 1461 * cycle
  let year := min (ofCycle / 365) 3
  refine ⟨⟨century, cycle, year, ofCycle - 365 * year, ?_, ?_, ?_, ?_⟩, ?_⟩
  · omega
  · omega
  · omega
  · omega
  · dsimp only [daysBefore]
    omega

theorem daysBefore_lt (p : EraDay) : p.daysBefore < 146097 := by
  obtain ⟨century, cycle, year, day, hcentury, hcycle, hyear, hday⟩ := p
  dsimp only [daysBefore]
  omega

theorem yearsBefore_lt (p : EraDay) : p.yearsBefore < 400 := by
  obtain ⟨century, cycle, year, day, hcentury, hcycle, hyear, hday⟩ := p
  dsimp only [yearsBefore]
  omega

/-- The years before a day are found by taking the leap days out and dividing. -/
theorem yearsBefore_eq (p : EraDay) :
    (p.daysBefore - p.daysBefore / 1460 + p.daysBefore / 36524 - p.daysBefore / 146096) / 365 =
      p.yearsBefore := by
  obtain ⟨century, cycle, year, day, hcentury, hcycle, hyear, hday⟩ := p
  simp only [yearsBefore]
  generalize hn : (EraDay.mk century cycle year day hcentury hcycle hyear hday).daysBefore = n
  simp only [daysBefore] at hn
  obtain hlast | rfl : n / 146096 = 0 ∨ n = 146096 := by omega
  · have hcenturies : n / 36524 = century := by omega
    have hcycles : n / 1460 = 25 * century + cycle ∨ n / 1460 = 25 * century + cycle + 1 := by
      omega
    rw [hlast, hcenturies]
    omega
  · omega

/-- The days before the year of a day. -/
theorem daysBefore_eq (p : EraDay) :
    p.daysBefore = 365 * p.yearsBefore + p.yearsBefore / 4 - p.yearsBefore / 100 + p.day := by
  obtain ⟨century, cycle, year, day, hcentury, hcycle, hyear, hday⟩ := p
  simp only [daysBefore, yearsBefore]
  omega

/-- A day of the year is in the month that starts last before it. -/
theorem div_153_eq_iff {day fromMarch : Nat} :
    (5 * day + 2) / 153 = fromMarch ↔
      daysBeforeMonth fromMarch ≤ day ∧ day < daysBeforeMonth (fromMarch + 1) := by
  unfold daysBeforeMonth
  omega

/-- The month of a day, counted from March. -/
def fromMarch (p : EraDay) : Nat := (5 * p.day + 2) / 153

theorem fromMarch_spec (p : EraDay) :
    p.fromMarch < 12 ∧ daysBeforeMonth p.fromMarch ≤ p.day ∧
      p.day < daysBeforeMonth (p.fromMarch + 1) := by
  have hday : p.day ≤ 365 := by
    have := p.day_lt
    omega
  refine ⟨?_, div_153_eq_iff.mp rfl⟩
  unfold fromMarch
  omega

/-- The month of a day, counted from January. -/
def month (p : EraDay) : Nat := if p.fromMarch < 10 then p.fromMarch + 3 else p.fromMarch - 9

theorem month_spec (p : EraDay) :
    1 ≤ p.month ∧ p.month ≤ 12 ∧ (p.month + 9) % 12 = p.fromMarch := by
  obtain ⟨hlt, -, -⟩ := p.fromMarch_spec
  unfold month
  split <;> omega

/-- The date of a day of an era. -/
def date (era : Int) (p : EraDay) : CivilDate :=
  ⟨p.yearsBefore + era * 400 + (if p.month ≤ 2 then 1 else 0), p.month,
    p.day - daysBeforeMonth p.fromMarch + 1⟩

theorem marchYear_date (era : Int) (p : EraDay) :
    (p.date era).marchYear = p.yearsBefore + era * 400 := by
  dsimp only [CivilDate.marchYear, date]
  split <;> omega

theorem civilDate_eq (era : Int) (p : EraDay) :
    civilDate (era * 146097 + p.daysBefore - 719468) = p.date era := by
  have hlt := p.daysBefore_lt
  have hera : (era * 146097 + p.daysBefore - 719468 + 719468).fdiv 146097 = era := by
    rw [Int.fdiv_eq_ediv_of_nonneg _ (by decide)]
    omega
  have hday : (era * 146097 + p.daysBefore - 719468 + 719468 - era * 146097).toNat =
      p.daysBefore := by omega
  have hyear : p.daysBefore -
      (365 * p.yearsBefore + p.yearsBefore / 4 - p.yearsBefore / 100) = p.day := by
    have := p.daysBefore_eq
    omega
  unfold civilDate
  simp only [hera, hday, p.yearsBefore_eq, hyear]
  rfl

theorem dayNumber_date (era : Int) (p : EraDay) :
    dayNumber (p.date era) = era * 146097 + p.daysBefore - 719468 := by
  have hbefore := p.daysBefore_eq
  have hyears := p.yearsBefore_lt
  obtain ⟨-, hday, -⟩ := p.fromMarch_spec
  obtain ⟨-, -, hmonth⟩ := p.month_spec
  rw [dayNumber_eq, marchYear_date, hbefore]
  dsimp only [date, daysBeforeYear]
  rw [hmonth]
  omega

/-- The year after one that has a day more is a leap year. -/
theorem isLeapYear_of_day {era : Int} (p : EraDay) (h : p.day = 365) :
    isLeapYear (p.yearsBefore + era * 400 + 1) = true := by
  obtain ⟨century, cycle, year, day, hcentury, hcycle, hyear, hday⟩ := p
  dsimp only at h
  rw [isLeapYear_iff]
  dsimp only [yearsBefore]
  omega

theorem isDate_date (era : Int) (p : EraDay) : (p.date era).IsDate := by
  obtain ⟨-, hday, hday'⟩ := p.fromMarch_spec
  obtain ⟨hpos, hle, hmonth⟩ := p.month_spec
  refine ⟨hpos, hle, Nat.le_add_left .., ?_⟩
  dsimp only [date]
  by_cases hfebruary : p.month = 2
  · have hlast : p.fromMarch = 11 := by rw [← hmonth, hfebruary]
    rw [hfebruary, daysInMonth_february, hlast]
    rw [hlast] at hday
    obtain hcommon | ⟨hlong, -⟩ := p.day_lt
    · dsimp only [daysBeforeMonth] at hday ⊢
      omega
    · have hleap : isLeapYear (p.yearsBefore + era * 400 + 1) = true := p.isLeapYear_of_day hlong
      rw [if_pos (Nat.le_refl 2), hleap, hlong]
      decide
  · have hlength := daysInMonth_of_ne hpos hle hfebruary
      (p.yearsBefore + era * 400 + if p.month ≤ 2 then 1 else 0)
    rw [hmonth] at hlength
    omega

/-- A date is no more than a year of 365 days after the start of its year in March, or that much
where the next year is a leap year. -/
theorem day_of_isDate {d : CivilDate} (h : d.IsDate) :
    let day := daysBeforeMonth ((d.month + 9) % 12) + d.day - 1
    day < daysBeforeMonth ((d.month + 9) % 12 + 1) ∧
      (day < 365 ∨ day = 365 ∧ isLeapYear (d.marchYear + 1) = true) := by
  obtain ⟨hpos, hle, hday, hday'⟩ := h
  by_cases hfebruary : d.month = 2
  · have hyear : d.marchYear + 1 = d.year := by
      rw [CivilDate.marchYear, hfebruary, if_pos (Nat.le_refl 2)]
      omega
    rw [hfebruary, daysInMonth_february] at hday'
    rw [hyear, hfebruary]
    cases hleap : isLeapYear d.year <;> simp [hleap, daysBeforeMonth] at hday' ⊢ <;> omega
  · have hlength := daysInMonth_of_ne hpos hle hfebruary d.year
    dsimp only [daysBeforeMonth] at hlength ⊢
    omega

/-- Every date is that of a day of an era. -/
theorem exists_date {d : CivilDate} (h : d.IsDate) : ∃ era p, EraDay.date era p = d := by
  obtain ⟨hbound, hyear⟩ := day_of_isDate h
  obtain ⟨hpos, hle, hday, -⟩ := h
  rw [isLeapYear_iff] at hyear
  let ofEra := (d.marchYear % 400).toNat
  let p : EraDay := ⟨ofEra / 100, ofEra % 100 / 4, ofEra % 4,
    daysBeforeMonth ((d.month + 9) % 12) + d.day - 1, by omega, by omega, by omega, by omega⟩
  have hyears : (p.yearsBefore : Int) + d.marchYear / 400 * 400 = d.marchYear := by
    dsimp only [p, yearsBefore]
    omega
  have hfromMarch : p.fromMarch = (d.month + 9) % 12 :=
    div_153_eq_iff.mpr ⟨by dsimp only [p]; omega, hbound⟩
  have hmonth : p.month = d.month := by
    obtain ⟨hpos', hle', hmonth⟩ := p.month_spec
    omega
  refine ⟨d.marchYear / 400, p, ?_⟩
  obtain ⟨year, month, day⟩ := d
  rw [date, hyears, hfromMarch, hmonth, CivilDate.mk.injEq]
  refine ⟨?_, rfl, ?_⟩
  · dsimp only [CivilDate.marchYear]
    split <;> omega
  · dsimp only [p] at hday ⊢
    omega

end EraDay

theorem exists_eraDay (n : Int) : ∃ (era : Int) (p : EraDay),
    n = era * 146097 + p.daysBefore - 719468 := by
  obtain ⟨p, hp⟩ := EraDay.exists_daysBefore (n := ((n + 719468) % 146097).toNat) (by omega)
  exact ⟨(n + 719468) / 146097, p, by omega⟩

theorem dayNumber_civilDate (n : Int) : dayNumber (civilDate n) = n := by
  obtain ⟨era, p, rfl⟩ := exists_eraDay n
  rw [p.civilDate_eq, p.dayNumber_date]

theorem isDate_civilDate (n : Int) : (civilDate n).IsDate := by
  obtain ⟨era, p, rfl⟩ := exists_eraDay n
  rw [p.civilDate_eq]
  exact p.isDate_date era

theorem civilDate_dayNumber {d : CivilDate} (h : d.IsDate) : civilDate (dayNumber d) = d := by
  obtain ⟨era, p, rfl⟩ := EraDay.exists_date h
  rw [p.dayNumber_date, p.civilDate_eq]

end SqlResolution.Instant
