import SqlResolution.Instant.Format
import SqlResolution.Instant.Partial
import SqlResolution.Proofs.Instant.Calendar
import SqlResolution.Proofs.Text.Digits
import SqlResolution.Proofs.Text.Number

/-!
# Instants as text

The text of an instant is that of the date on which it lies and of the time since the start of that
date, as long as the calendar has dates for its year.
-/
namespace SqlResolution

-- Powers are the core ones, also where another instance is in scope.
attribute [local instance (high)] instPowNat

namespace Instant

/-! ### Padded numbers -/

theorem isDigit_of_mem_padded {width n : Nat} {c : Char} (h : c ∈ padded width n) :
    c.isDigit = true := by
  obtain hzero | hdigit := List.mem_append.mp h
  · rw [List.eq_of_mem_replicate hzero]
    rfl
  · exact Text.isDigit_of_mem_toDigits hdigit

theorem padded_ne_nil (width n : Nat) : padded width n ≠ [] :=
  List.append_ne_nil_of_right_ne_nil _ Nat.toDigits_ne_nil

theorem exists_head_padded (width n : Nat) :
    ∃ c rest, padded width n = c :: rest ∧ c.isDigit = true := by
  obtain ⟨c, rest, htext⟩ := List.exists_cons_of_ne_nil (padded_ne_nil width n)
  refine ⟨c, rest, htext, isDigit_of_mem_padded (?_ : c ∈ padded width n)⟩
  rw [htext]
  exact List.mem_cons_self

theorem length_padded {width n : Nat} (hwidth : 0 < width) (hn : n < 10 ^ width) :
    (padded width n).length = width := by
  have hdigits := (Nat.length_toDigits_le_iff (by decide) hwidth).mpr hn
  rw [padded, List.length_append, List.length_replicate]
  omega

theorem digitsValue_padded (width n : Nat) : Text.digitsValue 0 (padded width n) = n := by
  rw [padded, Text.digitsValue_zeros, Text.digitsValue_eq,
    Nat.ofDigitChars_toDigits (by decide) (by decide)]

/-- Digits are the padded text of the number that they stand for. -/
theorem padded_digitsValue {ds : List Char} (h : ∀ c ∈ ds, c.isDigit = true) (hne : ds ≠ []) :
    padded ds.length (Text.digitsValue 0 ds) = ds := by
  refine Text.eq_of_digitsValue_eq (fun c hc => isDigit_of_mem_padded hc) h ?_ ?_
  · exact length_padded (List.length_pos_iff.mpr hne) (Text.digitsValue_lt h)
  · exact digitsValue_padded _ _

/-! ### The date on which an instant lies -/

def unitsPerDay (places : Nat) : Nat := 86400 * 10 ^ places

theorem unitsPerDay_pos (places : Nat) : 0 < unitsPerDay places :=
  Nat.mul_pos (by decide) (Nat.pow_pos (by decide))

/-- The instants of a date are those from its start up to the start of the next one. -/
def LiesOn (places : Nat) (instant : Int64) (d : CivilDate) : Prop :=
  d.IsDate ∧ dayNumber d * unitsPerDay places ≤ instant.toInt ∧
    instant.toInt < dayNumber d.next * unitsPerDay places

instance (places : Nat) (instant : Int64) (d : CivilDate) : Decidable (LiesOn places instant d) :=
  inferInstanceAs (Decidable (_ ∧ _))

variable {places : Nat} {instant : Int64} {d : CivilDate}

theorem liesOn_iff :
    LiesOn places instant d ↔ d = civilDate (instant.toInt / unitsPerDay places) := by
  have hpos : (0 : Int) < unitsPerDay places := Int.natCast_pos.mpr (unitsPerDay_pos places)
  have hday : d.IsDate → (LiesOn places instant d ↔
      instant.toInt / unitsPerDay places = dayNumber d) := by
    intro hdate
    rw [LiesOn, dayNumber_next hdate, Int.add_mul, Int.one_mul, Int.ediv_eq_iff_of_pos hpos]
    exact and_iff_right hdate
  constructor
  · intro h
    rw [(hday h.1).mp h, civilDate_dayNumber h.1]
  · rintro rfl
    rw [hday (isDate_civilDate _), dayNumber_civilDate]

/-- The time since the start of the date. -/
def sinceStart (places : Nat) (instant : Int64) (d : CivilDate) : Nat :=
  (instant.toInt - dayNumber d * unitsPerDay places).toNat

theorem sinceStart_spec (h : LiesOn places instant d) :
    dayNumber d * unitsPerDay places + sinceStart places instant d = instant.toInt ∧
      sinceStart places instant d < unitsPerDay places := by
  obtain ⟨hdate, hlo, hhi⟩ := h
  rw [dayNumber_next hdate, Int.add_mul, Int.one_mul] at hhi
  unfold sinceStart
  omega

/-- The text of an instant in a year that has dates. -/
theorem format_of_liesOn (h : LiesOn places instant d) :
    format places instant =
      if firstYear ≤ d.year && d.year ≤ lastYear then
        String.ofList (dateText d ++ 'T' :: timeText places (sinceStart places instant d) ++ ['Z'])
      else instant.toInt.repr := by
  have hperDay : (86400 * 10 ^ places : Int) = unitsPerDay places := by
    rw [unitsPerDay, Int.natCast_mul, Int.natCast_pow]
    rfl
  have hnonneg : (0 : Int) ≤ unitsPerDay places := Int.natCast_nonneg _
  have hdate := liesOn_iff.mp h
  have htime : (instant.toInt % unitsPerDay places).toNat = sinceStart places instant d := by
    rw [sinceStart, hdate, dayNumber_civilDate, Int.emod_def, Int.mul_comm]
  unfold format
  simp only [hperDay, Int.fdiv_eq_ediv_of_nonneg _ hnonneg, Int.fmod_eq_emod_of_nonneg _ hnonneg,
    htime, ← hdate]

/-! ### The text without its zone -/

theorem withoutZone_append {cs : List Char} (h : cs.head?.any Text.isBlank = false) :
    withoutZone (String.ofList (cs ++ ['Z'])) = cs := by
  have htrimmed : Text.IsTrimmed (cs ++ ['Z']) := by
    constructor
    · cases cs with
      | nil => rfl
      | cons c cs => exact h
    · rw [List.getLast?_concat]
      rfl
  unfold withoutZone
  dsimp only
  rw [String.toList_ofList, htrimmed.trim, Text.dropEnding?_append, Option.getD_some]

/-- A text with neither blanks nor a zone is not changed. -/
theorem withoutZone_of_plain {s : String}
    (h : ∀ c ∈ s.toList, Text.isBlank c = false ∧ c ≠ 'Z') : withoutZone s = s.toList := by
  have htrimmed : Text.IsTrimmed s.toList := Text.isTrimmed_of_forall fun c hc => (h c hc).1
  have hzone : Text.dropEnding? ['Z'] s.toList = none := by
    refine if_neg fun hsuffix => ?_
    have hmem := (List.isSuffixOf_iff_suffix.mp hsuffix).subset List.mem_cons_self
    exact (h 'Z' hmem).2 rfl
  unfold withoutZone
  dsimp only
  rw [htrimmed.trim, hzone, Option.getD_none]

/-! ### The year of a date -/

/-- The years that are written with four digits and no sign. -/
def HasFourDigits (year : Int) : Prop := 0 ≤ year ∧ year ≤ 9999

instance (year : Int) : Decidable (HasFourDigits year) := inferInstanceAs (Decidable (_ ∧ _))

/-- Month and day have two digits. -/
theorem CivilDate.IsDate.fields_lt (h : d.IsDate) : d.month < 100 ∧ d.day < 100 := by
  obtain ⟨-, hmonth, -, hday⟩ := h
  have hlast := daysInMonth_le d.year d.month
  omega

theorem HasFourDigits.toNat_lt {year : Int} (h : HasFourDigits year) :
    year.toNat < 10 ^ (4 : Nat) := by
  have hlast := h.2
  omega

/-- The calendar has dates for the years with four digits. -/
theorem hasDates_of_fourDigits {year : Int} (h : HasFourDigits year) :
    (firstYear ≤ year && year ≤ lastYear) = true := by
  obtain ⟨hlo, hhi⟩ := h
  rw [Bool.and_eq_true, decide_eq_true_iff, decide_eq_true_iff]
  exact ⟨Int.le_trans (by decide) hlo, Int.le_trans hhi (by decide)⟩

theorem isValid_of_fourDigits (h : d.IsDate) (hyear : HasFourDigits d.year) :
    d.isValid = true := by
  obtain ⟨hmonth, hmonth', hday, hday'⟩ := h
  simp [CivilDate.isValid, hasDates_of_fourDigits hyear, hmonth, hmonth', hday, hday']

theorem yearText_of_fourDigits {year : Int} (h : HasFourDigits year) :
    yearText year = padded 4 year.toNat := by
  have hyear : (0 ≤ year && year ≤ 9999) = true := by simpa [HasFourDigits] using h
  rw [yearText, hyear]
  rfl

theorem exists_sign_of_yearText {year : Int} (h : ¬HasFourDigits year) :
    ∃ sign : Char, (sign = '-' ∨ sign = '+') ∧ yearText year = sign :: padded 4 year.natAbs := by
  have hyear : (0 ≤ year && year ≤ 9999) = false := by
    rw [Bool.eq_false_iff]
    simpa [HasFourDigits] using h
  rw [yearText, hyear]
  by_cases hneg : year < 0
  · exact ⟨'-', .inl rfl, by rw [if_pos hneg]; rfl⟩
  · exact ⟨'+', .inr rfl, by rw [if_neg hneg]; rfl⟩

/-- The text of a year starts with a digit or a sign. -/
theorem exists_head_yearText (year : Int) :
    ∃ c rest, yearText year = c :: rest ∧ Text.isBlank c = false := by
  by_cases h : HasFourDigits year
  · obtain ⟨c, rest, htext, hdigit⟩ := exists_head_padded 4 year.toNat
    exact ⟨c, rest, by rw [yearText_of_fourDigits h, htext], Text.isBlank_of_isDigit hdigit⟩
  · obtain ⟨sign, rfl | rfl, htext⟩ := exists_sign_of_yearText h
    · exact ⟨'-', _, htext, rfl⟩
    · exact ⟨'+', _, htext, rfl⟩

/-- A date in a year with four digits, and what follows it. -/
theorem dateText_append (h : HasFourDigits d.year) (cs : List Char) :
    dateText d ++ cs =
      padded 4 d.year.toNat ++ '-' :: (padded 2 d.month ++ '-' :: (padded 2 d.day ++ cs)) := by
  rw [dateText, yearText_of_fourDigits h]
  simp only [List.append_assoc, List.cons_append]

theorem withoutZone_dateText (d : CivilDate) (cs : List Char) :
    withoutZone (String.ofList (dateText d ++ cs ++ ['Z'])) = dateText d ++ cs := by
  refine withoutZone_append ?_
  obtain ⟨c, rest, htext, hblank⟩ := exists_head_yearText d.year
  rw [dateText, htext]
  exact hblank

/-! ### The time of day -/

/-- The time of day after a number of units. -/
def clockTime (places units : Nat) : ClockTime :=
  let seconds := units / 10 ^ places
  ⟨seconds / 3600, seconds / 60 % 60, seconds % 60⟩

theorem clockTime_spec {places units : Nat} (h : units < unitsPerDay places) :
    (clockTime places units).isValid = true ∧
      (clockTime places units).seconds * 10 ^ places + units % 10 ^ places = units := by
  have hseconds : units / 10 ^ places < 86400 := by
    rw [Nat.div_lt_iff_lt_mul (Nat.pow_pos (by decide))]
    exact h
  constructor
  · have hhour : units / 10 ^ places / 3600 < 24 := by omega
    have hminute : units / 10 ^ places / 60 % 60 < 60 := Nat.mod_lt _ (by decide)
    have hsecond : units / 10 ^ places % 60 < 60 := Nat.mod_lt _ (by decide)
    simp [clockTime, ClockTime.isValid, hhour, hminute, hsecond]
  · have hsum : (clockTime places units).seconds = units / 10 ^ places := by
      simp only [clockTime, ClockTime.seconds]
      omega
    rw [hsum, Nat.mul_comm, Nat.div_add_mod]

theorem timeText_eq (places units : Nat) :
    timeText places units =
      padded 2 (clockTime places units).hour ++ ':' :: (padded 2 (clockTime places units).minute ++
        ':' :: (padded 2 (clockTime places units).second ++
          '.' :: padded places (units % 10 ^ places))) := by
  simp only [timeText, clockTime, List.append_assoc, List.cons_append]

end Instant
end SqlResolution
