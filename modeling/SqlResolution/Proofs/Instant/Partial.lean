import Mathlib.Data.List.Infix
import SqlResolution.Proofs.Instant.Stamp
import SqlResolution.Proofs.Instant.Unit

/-!
# Partial timestamps

A stamp stands for the start of the unit of time that is written last. A longer stamp stands for an
instant of this unit, so the start is the greatest of its kind that is not after that instant.
-/
namespace SqlResolution.Instant

-- Powers are the core ones, also where another instance is in scope.
attribute [local instance (high)] instPowNat

/-- The unit of time that is written last. -/
def Stamp.unit (p : Stamp) : TimeUnit :=
  match p.fields.length with
  | 0 => .year
  | 1 => .month
  | 2 => .steps 86400000000
  | 3 => .steps 3600000000
  | 4 => .steps 60000000
  | _ => .steps (10 ^ (6 - p.fraction.length))

variable {p q : Stamp}

/-! ### Longer stamps -/

theorem padded_inj {width n k : Nat} (h : padded width n = padded width k) : n = k := by
  rw [← digitsValue_padded width n, h, digitsValue_padded]

/-- Fields that another text goes on from are the first of its fields. -/
theorem prefix_of_fieldsText_append {ms ms' : List Char} {fields fields' : List Nat}
    {rest rest' : List Char} (hms : ms.length = ms'.length) (hle : fields.length ≤ ms.length)
    (hrest : fields'.length < ms'.length → rest' = [])
    (h : fieldsText ms fields ++ rest = fieldsText ms' fields' ++ rest')
    (hfields : ∀ n ∈ fields, n < 100) (hfields' : ∀ n ∈ fields', n < 100) :
    fields <+: fields' ∧ (fields.length = ms.length → rest = rest') := by
  induction fields generalizing ms ms' fields' with
  | nil =>
    refine ⟨List.nil_prefix, fun hzero => ?_⟩
    obtain rfl : ms = [] := List.length_eq_zero_iff.mp hzero.symm
    obtain rfl : ms' = [] := List.length_eq_zero_iff.mp hms.symm
    simpa [fieldsText] using h
  | cons n fields ih =>
    obtain _ | ⟨mark, ms⟩ := ms
    · simp at hle
    obtain _ | ⟨mark', ms'⟩ := ms'
    · simp at hms
    obtain _ | ⟨n', fields'⟩ := fields'
    · rw [hrest (by simp)] at h
      simp [fieldsText] at h
    obtain ⟨hn, hfields⟩ := List.forall_mem_cons.mp hfields
    obtain ⟨hn', hfields'⟩ := List.forall_mem_cons.mp hfields'
    simp only [fieldsText_cons, List.cons_append, List.append_assoc, List.cons.injEq] at h
    have hlength : (padded 2 n).length = (padded 2 n').length := by
      rw [length_padded (by decide) hn, length_padded (by decide) hn']
    obtain ⟨hfield, hlater⟩ := List.append_inj h.2 hlength
    obtain ⟨hfront, heq⟩ := ih (Nat.succ.inj hms) (Nat.le_of_succ_le_succ hle)
      (fun hlt => hrest (Nat.succ_lt_succ hlt)) hlater hfields hfields'
    rw [padded_inj hfield, List.cons_prefix_cons]
    exact ⟨⟨rfl, hfront⟩, fun hfull => heq (Nat.succ.inj hfull)⟩

namespace Stamp

/-- A stamp with a longer text has the fields of the shorter one and may have more, and where both
have a second the same goes for the digits after it. -/
theorem prefix_of_text (h : p.text <+: q.text) : q.year = p.year ∧ p.fields <+: q.fields ∧
    (p.fields.length = 5 → p.fraction <+: q.fraction) := by
  obtain ⟨more, htext⟩ := h
  have hyear : (padded 4 p.year).length = (padded 4 q.year).length := by
    rw [length_padded (by decide) (Nat.lt_succ_of_le p.year_le),
      length_padded (by decide) (Nat.lt_succ_of_le q.year_le)]
  simp only [text, List.append_assoc] at htext
  obtain ⟨hyears, hafter⟩ := List.append_inj htext hyear
  obtain ⟨hfields, hend⟩ := prefix_of_fieldsText_append (by rfl) p.length_fields
    (fun hlt => by simp [endText, q.fraction_eq_nil hlt]) hafter p.fields_lt q.fields_lt
  refine ⟨(padded_inj hyears).symm, hfields, fun hfull => ?_⟩
  have hrest := hend hfull
  by_cases hp : p.fraction = []
  · simp [hp]
  · by_cases hq : q.fraction = []
    · simp [endText, hp, hq] at hrest
    · simp only [endText, if_neg hp, if_neg hq, List.cons_append, List.cons.injEq] at hrest
      exact ⟨more, hrest.2⟩

end Stamp

/-- What follows a number below its last place changes a multiple of it by less than one step. -/
theorem mul_div_append {v w a u : Nat} (hw : w < a) (hu : 0 < u) :
    v * u ≤ (v * a + w) * u / a ∧ (v * a + w) * u / a < v * u + u := by
  have ha : 0 < a := Nat.zero_lt_of_lt hw
  have hsum : (v * a + w) * u = v * u * a + w * u := by rw [Nat.add_mul, Nat.mul_right_comm]
  have hstep : w * u < u * a := by
    rw [Nat.mul_comm u]
    exact Nat.mul_lt_mul_of_pos_right hw hu
  rw [hsum]
  constructor
  · rw [Nat.le_div_iff_mul_le ha]
    omega
  · rw [Nat.div_lt_iff_lt_mul ha, Nat.add_mul]
    omega

/-- More digits after a fraction of `k` digits raise what is kept of it by less than a unit of the
last of these places. -/
theorem places_append {v w k j places : Nat} (hw : w < 10 ^ j) :
    10 ^ (places - k) ∣ v * 10 ^ places / 10 ^ k ∧
      v * 10 ^ places / 10 ^ k ≤ (v * 10 ^ j + w) * 10 ^ places / 10 ^ (k + j) ∧
      (v * 10 ^ j + w) * 10 ^ places / 10 ^ (k + j) <
        v * 10 ^ places / 10 ^ k + 10 ^ (places - k) := by
  have hj : 0 < 10 ^ j := Nat.pow_pos (by decide)
  have hk : 0 < 10 ^ k := Nat.pow_pos (by decide)
  have hplaces : 0 < 10 ^ places := Nat.pow_pos (by decide)
  rw [Nat.pow_add]
  obtain hle | hge := Nat.le_total k places
  · have hpow : 10 ^ places = 10 ^ k * 10 ^ (places - k) := by
      rw [← Nat.pow_add, Nat.add_sub_cancel' hle]
    have hshort : v * 10 ^ places / 10 ^ k = v * 10 ^ (places - k) := by
      rw [hpow, Nat.mul_left_comm, Nat.mul_div_cancel_left _ hk]
    have hlong : (v * 10 ^ j + w) * 10 ^ places / (10 ^ k * 10 ^ j) =
        (v * 10 ^ j + w) * 10 ^ (places - k) / 10 ^ j := by
      rw [hpow, Nat.mul_left_comm, Nat.mul_div_mul_left _ _ hk]
    rw [hshort, hlong]
    exact ⟨Nat.dvd_mul_left _ _, mul_div_append hw (Nat.pow_pos (by decide))⟩
  · have hpow : 10 ^ k = 10 ^ (k - places) * 10 ^ places := by
      rw [← Nat.pow_add, Nat.sub_add_cancel hge]
    have hshort : v * 10 ^ places / 10 ^ k = v / 10 ^ (k - places) := by
      rw [hpow, Nat.mul_div_mul_right _ _ hplaces]
    have hlong : (v * 10 ^ j + w) * 10 ^ places / (10 ^ k * 10 ^ j) = v / 10 ^ (k - places) := by
      rw [hpow, Nat.mul_right_comm, Nat.mul_div_mul_right _ _ hplaces,
        Nat.mul_comm (10 ^ (k - places)), ← Nat.div_div_eq_div_mul, Nat.mul_comm v,
        Nat.mul_add_div hj, Nat.div_eq_of_lt hw, Nat.add_zero]
    rw [hshort, hlong, Nat.sub_eq_zero_of_le hge]
    exact ⟨Nat.one_dvd _, Nat.le_refl _, Nat.lt_add_one _⟩

namespace Stamp

theorem fractionMicros_of_nil (h : p.fraction = []) : p.fractionMicros = 0 := by
  simp [fractionMicros, h]

/-- A fraction ends in a whole number of units of its last place, and one with more digits is less
than one such unit greater. -/
theorem fractionMicros_bounds (h : p.fraction <+: q.fraction) :
    10 ^ (6 - p.fraction.length) ∣ p.fractionMicros ∧ p.fractionMicros ≤ q.fractionMicros ∧
      q.fractionMicros < p.fractionMicros + 10 ^ (6 - p.fraction.length) := by
  obtain ⟨more, hmore⟩ := h
  have hdigits : ∀ c ∈ more, c.isDigit = true := by
    intro c hc
    refine q.isDigit c ?_
    rw [← hmore]
    exact List.mem_append_right _ hc
  have hvalue : Nat.ofDigitChars 10 q.fraction 0 =
      Nat.ofDigitChars 10 p.fraction 0 * 10 ^ more.length + Text.digitsValue 0 more := by
    rw [← Text.digitsValue_eq, ← Text.digitsValue_eq, ← hmore, Text.digitsValue_append,
      Text.digitsValue_eq_add]
  have hlength : q.fraction.length = p.fraction.length + more.length := by
    rw [← hmore, List.length_append]
  simp only [fractionMicros, hvalue, hlength]
  exact places_append (Text.digitsValue_lt hdigits)

theorem getD_of_length_le (p : Stamp) {i : Nat} (h : p.fields.length ≤ i) (least : Nat) :
    p.fields.getD i least = least := by
  simp [List.getD_eq_getElem?_getD, List.getElem?_eq_none h]

theorem getD_of_prefix (h : p.fields <+: q.fields) {i : Nat} (hi : i < p.fields.length)
    (least : Nat) : q.fields.getD i least = p.fields.getD i least := by
  obtain ⟨more, hmore⟩ := h
  simp [List.getD_eq_getElem?_getD, ← hmore, List.getElem?_append_left hi]

/-- An instant lies in the year of its date. -/
theorem start_year_bounds (p : Stamp) :
    TimeUnit.year.start p.year ≤ p.micros ∧ p.micros < TimeUnit.year.start (p.year + 1) := by
  have hbounds := CivilDate.IsDate.dayNumber_bounds_year p.isDate
  have hclock := p.clockMicros_lt
  rw [micros_eq]
  simp only [TimeUnit.start, date] at hbounds ⊢
  omega

/-- An instant lies in the month of its date. -/
theorem start_month_bounds (p : Stamp) :
    TimeUnit.month.start p.date.monthNumber ≤ p.micros ∧
      p.micros < TimeUnit.month.start (p.date.monthNumber + 1) := by
  have hbounds := CivilDate.IsDate.dayNumber_bounds p.isDate
  have hclock := p.clockMicros_lt
  rw [micros_eq]
  simp only [TimeUnit.start, date] at hbounds ⊢
  omega

theorem clockMicros_eq_zero (h : p.fields.length ≤ 2) : p.clockMicros = 0 := by
  have hhour : p.time.hour = 0 := p.getD_of_length_le h 0
  have hminute : p.time.minute = 0 := p.getD_of_length_le (by omega) 0
  have hsecond : p.time.second = 0 := p.getD_of_length_le (by omega) 0
  have hfraction := fractionMicros_of_nil (p.fraction_eq_nil (by omega))
  simp [clockMicros, ClockTime.seconds, hhour, hminute, hsecond, hfraction]

theorem micros_eq_start_year (h : p.fields.length = 0) :
    p.micros = TimeUnit.year.start p.year := by
  rw [micros_eq, clockMicros_eq_zero (by omega), date, p.getD_of_length_le (by omega),
    p.getD_of_length_le (by omega)]
  exact Int.add_zero _

theorem micros_eq_start_month (h : p.fields.length = 1) :
    p.micros = TimeUnit.month.start p.date.monthNumber := by
  have hfirst : firstOfMonth p.date.monthNumber = ⟨p.date.year, p.date.month, 1⟩ :=
    CivilDate.IsDate.firstOfMonth_eq p.isDate
  have hday : p.date.day = 1 := p.getD_of_length_le (by omega) 1
  rw [micros_eq, clockMicros_eq_zero (by omega), TimeUnit.start, hfirst, ← hday]
  exact Int.add_zero _

/-- A stamp with a day stands for a whole number of the steps that it ends with, and a longer one
for less than a step more. -/
theorem steps_bounds (h : p.text <+: q.text) (hday : 2 ≤ p.fields.length) :
    ∃ step : Nat, p.unit = .steps step ∧ 0 < step ∧ (step : Int) ∣ p.micros ∧
      p.micros ≤ q.micros ∧ q.micros < p.micros + step := by
  obtain ⟨hyear, hfields, hfraction⟩ := prefix_of_text h
  have hdate : q.date = p.date := by
    simp only [date, hyear, getD_of_prefix hfields (show 0 < p.fields.length by omega),
      getD_of_prefix hfields (show 1 < p.fields.length by omega)]
  have hhour : 3 ≤ p.fields.length → q.time.hour = p.time.hour :=
    fun hlt => getD_of_prefix hfields hlt 0
  have hminute : 4 ≤ p.fields.length → q.time.minute = p.time.minute :=
    fun hlt => getD_of_prefix hfields hlt 0
  have hsecond : 5 ≤ p.fields.length → q.time.second = p.time.second :=
    fun hlt => getD_of_prefix hfields hlt 0
  have hfirstMinute : p.fields.length ≤ 3 → p.time.minute = 0 :=
    fun hle => p.getD_of_length_le hle 0
  have hfirstSecond : p.fields.length ≤ 4 → p.time.second = 0 :=
    fun hle => p.getD_of_length_le hle 0
  have hzero : p.fields.length < 5 → p.fractionMicros = 0 :=
    fun hlt => fractionMicros_of_nil (p.fraction_eq_nil hlt)
  have hcount := p.length_fields
  have hclock := q.clockMicros_lt
  have hlast := q.fractionMicros_lt
  have htime : q.time.isValid = true := q.isTime
  have hmicros := p.micros_eq
  have hlonger := q.micros_eq
  simp only [ClockTime.isValid, Bool.and_eq_true, decide_eq_true_eq] at htime
  simp only [clockMicros, ClockTime.seconds, hdate] at hmicros hlonger hclock
  obtain hk | hk | hk | hk : p.fields.length = 2 ∨ p.fields.length = 3 ∨ p.fields.length = 4 ∨
      p.fields.length = 5 := by omega
  · have hfirstHour : p.time.hour = 0 := p.getD_of_length_le (Nat.le_of_eq hk) 0
    refine ⟨86400000000, by simp [unit, hk], by decide, ?_⟩
    omega
  · refine ⟨3600000000, by simp [unit, hk], by decide, ?_⟩
    omega
  · refine ⟨60000000, by simp [unit, hk], by decide, ?_⟩
    omega
  · have hstep : 10 ^ (6 - p.fraction.length) ∣ 10 ^ (6 : Nat) :=
      Nat.pow_dvd_pow 10 (Nat.sub_le _ _)
    obtain ⟨hdvd, hle, hlt⟩ := fractionMicros_bounds (hfraction hk)
    refine ⟨10 ^ (6 - p.fraction.length), by simp [unit, hk], Nat.pow_pos (by decide), ?_⟩
    generalize 10 ^ (6 - p.fraction.length) = step at *
    refine ⟨?_, by omega, by omega⟩
    exact Int.dvd_add (Int.dvd_mul_of_dvd_right (Int.natCast_dvd_natCast.mpr hstep))
      (Int.natCast_dvd_natCast.mpr hdvd)

/-- A longer stamp stands for an instant of the unit that the shorter one ends with. -/
theorem exists_unit (h : p.text <+: q.text) : p.unit ≠ .steps 0 ∧ ∃ n : Int,
    p.micros = p.unit.start n ∧ p.unit.start n ≤ q.micros ∧ q.micros < p.unit.start (n + 1) := by
  obtain ⟨hyear, hfields, -⟩ := prefix_of_text h
  obtain hzero | hone | hday : p.fields.length = 0 ∨ p.fields.length = 1 ∨ 2 ≤ p.fields.length := by
    omega
  · have hbounds := q.start_year_bounds
    rw [hyear] at hbounds
    have hunit : p.unit = .year := by simp [unit, hzero]
    rw [hunit]
    exact ⟨by simp, p.year, micros_eq_start_year hzero, hbounds⟩
  · have hbounds := q.start_month_bounds
    have hmonth : q.date.monthNumber = p.date.monthNumber := by
      simp only [CivilDate.monthNumber, date, hyear,
        getD_of_prefix hfields (show 0 < p.fields.length by omega)]
    rw [hmonth] at hbounds
    have hunit : p.unit = .month := by simp [unit, hone]
    rw [hunit]
    exact ⟨by simp, p.date.monthNumber, micros_eq_start_month hone, hbounds⟩
  · obtain ⟨step, hunit, hpos, hdvd, hle, hlt⟩ := steps_bounds h hday
    rw [hunit]
    exact ⟨by simpa using Nat.ne_of_gt hpos, TimeUnit.exists_step hdvd hle hlt⟩

end Stamp

/-! ### Greatest starts -/

end SqlResolution.Instant
