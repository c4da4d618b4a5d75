import Mathlib.Order.Bounds.Defs
import Mathlib.Order.Monotone.Basic
import SqlResolution.Proofs.Instant.Calendar

/-!
# Units of time

Years, months and steps of a fixed length follow one another without a gap. So an instant lies
between two starts in a row, and the first of them is the greatest start that is not after it.
-/
namespace SqlResolution.Instant

/-- What an instant may be cut down to: its year, its month, or a step of some microseconds. -/
inductive TimeUnit where
  | year
  | month
  | steps (micros : Nat)
  deriving DecidableEq, Repr

/-- The first day of a month. Months are counted from the January of the year 0. -/
def firstOfMonth (n : Int) : CivilDate := ⟨n / 12, (n % 12).toNat + 1, 1⟩

/-- The start of the `n`-th unit, in microseconds from the start of 1970. Steps are counted from
there. -/
def TimeUnit.start : TimeUnit → Int → Int
  | .year, n => dayNumber ⟨n, 1, 1⟩ * 86400000000
  | .month, n => dayNumber (firstOfMonth n) * 86400000000
  | .steps micros, n => n * micros

/-! ### Months follow one another -/

theorem dayNumber_day (year : Int) (month day : Nat) :
    dayNumber ⟨year, month, day⟩ = dayNumber ⟨year, month, 1⟩ + (day - 1) := by
  simp only [dayNumber_eq, CivilDate.marchYear]
  omega

theorem one_le_daysInMonth (year : Int) (month : Nat) : 1 ≤ daysInMonth year month := by
  unfold daysInMonth
  split <;> (try split) <;> decide

/-- A month starts where the days of the one before it end. -/
theorem dayNumber_firstOfMonth_succ (n : Int) :
    dayNumber (firstOfMonth (n + 1)) =
      dayNumber (firstOfMonth n) + daysInMonth (n / 12) ((n % 12).toNat + 1) := by
  have hdays := one_le_daysInMonth (n / 12) ((n % 12).toNat + 1)
  let last : CivilDate :=
    ⟨n / 12, (n % 12).toNat + 1, daysInMonth (n / 12) ((n % 12).toNat + 1)⟩
  have hlast : last.IsDate := by
    refine ⟨?_, ?_, hdays, Nat.le_refl _⟩ <;> dsimp only [last] <;> omega
  have hnext : last.next = firstOfMonth (n + 1) := by
    simp only [CivilDate.next, last, firstOfMonth, Nat.lt_irrefl, if_false]
    by_cases hmonth : (n % 12).toNat + 1 < 12
    · have hyear : (n + 1) / 12 = n / 12 := by omega
      have hmod : ((n + 1) % 12).toNat = (n % 12).toNat + 1 := by omega
      rw [if_pos hmonth, hyear, hmod]
    · have hyear : (n + 1) / 12 = n / 12 + 1 := by omega
      have hmod : ((n + 1) % 12).toNat = 0 := by omega
      rw [if_neg hmonth, hyear, hmod]
  rw [← hnext, dayNumber_next hlast, dayNumber_day]
  simp only [firstOfMonth]
  omega

theorem firstOfMonth_january (year : Int) : firstOfMonth (12 * year) = ⟨year, 1, 1⟩ := by
  have hyear : 12 * year / 12 = year := by omega
  have hmonth : (12 * year % 12).toNat = 0 := by omega
  rw [firstOfMonth, hyear, hmonth]

/-- The months between the January of the year 0 and that of a date. -/
def CivilDate.monthNumber (d : CivilDate) : Int := 12 * d.year + d.month - 1

theorem CivilDate.IsDate.firstOfMonth_eq {d : CivilDate} (h : d.IsDate) :
    firstOfMonth d.monthNumber = ⟨d.year, d.month, 1⟩ := by
  obtain ⟨hpos, hle, -⟩ := h
  have hyear : d.monthNumber / 12 = d.year := by
    unfold CivilDate.monthNumber
    omega
  have hmonth : (d.monthNumber % 12).toNat + 1 = d.month := by
    unfold CivilDate.monthNumber
    omega
  rw [firstOfMonth, hyear, hmonth]

/-- A date lies between the first day of its month and that of the next one. -/
theorem CivilDate.IsDate.dayNumber_bounds {d : CivilDate} (h : d.IsDate) :
    dayNumber (firstOfMonth d.monthNumber) ≤ dayNumber d ∧
      dayNumber d < dayNumber (firstOfMonth (d.monthNumber + 1)) := by
  have hfirst := h.firstOfMonth_eq
  have hday : dayNumber d = dayNumber ⟨d.year, d.month, 1⟩ + (d.day - 1) :=
    dayNumber_day d.year d.month d.day
  have hnext := dayNumber_firstOfMonth_succ d.monthNumber
  obtain ⟨hyear, hmonth, -⟩ := CivilDate.mk.inj hfirst
  rw [hfirst, hyear, hmonth] at hnext
  obtain ⟨-, -, hpos, hle⟩ := h
  rw [hfirst]
  omega

theorem firstOfMonth_lt {n k : Int} (h : n < k) :
    dayNumber (firstOfMonth n) < dayNumber (firstOfMonth k) := by
  have hmono : StrictMono fun n => dayNumber (firstOfMonth n) := by
    refine strictMono_int_of_lt_succ fun n => ?_
    have hdays := one_le_daysInMonth (n / 12) ((n % 12).toNat + 1)
    rw [dayNumber_firstOfMonth_succ]
    omega
  exact hmono h

theorem firstOfMonth_le {n k : Int} (h : n ≤ k) :
    dayNumber (firstOfMonth n) ≤ dayNumber (firstOfMonth k) := by
  obtain hlt | rfl := Int.lt_or_eq_of_le h
  · exact Int.le_of_lt (firstOfMonth_lt hlt)
  · exact Int.le_refl _

/-- A date lies between the first day of its year and that of the next one. -/
theorem CivilDate.IsDate.dayNumber_bounds_year {d : CivilDate} (h : d.IsDate) :
    dayNumber ⟨d.year, 1, 1⟩ ≤ dayNumber d ∧ dayNumber d < dayNumber ⟨d.year + 1, 1, 1⟩ := by
  obtain ⟨hlo, hhi⟩ := h.dayNumber_bounds
  obtain ⟨hpos, hle, -⟩ := h
  have hfirst : dayNumber (firstOfMonth (12 * d.year)) ≤
      dayNumber (firstOfMonth d.monthNumber) := by
    apply firstOfMonth_le
    unfold CivilDate.monthNumber
    omega
  have hlast : dayNumber (firstOfMonth (d.monthNumber + 1)) ≤
      dayNumber (firstOfMonth (12 * (d.year + 1))) := by
    apply firstOfMonth_le
    unfold CivilDate.monthNumber
    omega
  rw [firstOfMonth_january] at hfirst hlast
  exact ⟨le_trans hfirst hlo, lt_of_lt_of_le hhi hlast⟩

/-! ### Starts -/

namespace TimeUnit

theorem start_lt {u : TimeUnit} (hu : u ≠ .steps 0) {n k : Int} (h : n < k) :
    u.start n < u.start k := by
  cases u with
  | month =>
    have hstart := firstOfMonth_lt h
    simp only [start]
    omega
  | year =>
    have hyear : 12 * n < 12 * k := by omega
    have hstart := firstOfMonth_lt hyear
    simp only [start, firstOfMonth_january] at hstart ⊢
    omega
  | steps micros =>
    have hpos : 0 < micros := Nat.pos_of_ne_zero fun hzero => hu (hzero ▸ rfl)
    exact Int.mul_lt_mul_of_pos_right h (Int.natCast_pos.mpr hpos)

theorem start_le {u : TimeUnit} (hu : u ≠ .steps 0) {n k : Int} (h : n ≤ k) :
    u.start n ≤ u.start k := by
  obtain hlt | rfl := Int.lt_or_eq_of_le h
  · exact Int.le_of_lt (start_lt hu hlt)
  · exact Int.le_refl _

/-- Of two starts in a row around an instant, the first is the greatest that is not after it. -/
theorem isGreatest_start {u : TimeUnit} (hu : u ≠ .steps 0) {n t : Int} (hlo : u.start n ≤ t)
    (hhi : t < u.start (n + 1)) : IsGreatest {x | x ∈ Set.range u.start ∧ x ≤ t} (u.start n) := by
  refine ⟨⟨⟨n, rfl⟩, hlo⟩, ?_⟩
  rintro _ ⟨⟨k, rfl⟩, hk⟩
  have hstep : k ≤ n ∨ n + 1 ≤ k := by omega
  obtain hle | hge := hstep
  · exact start_le hu hle
  · have hnext := start_le hu hge
    omega

/-- A multiple of the length of a step starts one, and the instants of it are those before the next
multiple. -/
theorem exists_step {micros : Nat} {x t : Int} (hdvd : (micros : Int) ∣ x) (hlo : x ≤ t)
    (hhi : t < x + micros) : ∃ n, x = (steps micros).start n ∧ (steps micros).start n ≤ t ∧
      t < (steps micros).start (n + 1) := by
  obtain ⟨n, rfl⟩ := hdvd
  simp only [start, Int.add_mul, Int.one_mul]
  rw [Int.mul_comm] at hlo hhi
  exact ⟨n, Int.mul_comm _ _, hlo, hhi⟩

end TimeUnit
end SqlResolution.Instant
