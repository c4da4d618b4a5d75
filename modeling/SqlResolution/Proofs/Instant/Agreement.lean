import SqlResolution.Proofs.Instant.Date
import SqlResolution.Proofs.Instant.Stamp

/-!
# Dates and timestamps agree

Of the texts that read as a timestamp, those with a day and no time, and those with a second, read
as a date too. The date is the timestamp cut to milliseconds.
-/
namespace SqlResolution.Instant

-- Powers are the core ones, also where another instance is in scope.
attribute [local instance (high)] instPowNat

variable {s : String} {p : Stamp}

/-! ### The date -/

theorem takeDate?_of_short (h : p.fields.length < 2) : takeDate? p.text = none := by
  have hyear : p.year < 10 ^ (4 : Nat) := Nat.lt_succ_of_le p.year_le
  have htakeYear := takeYear?_padded hyear
  have hlt := p.fields_lt
  have hend : p.endText = [] := by simp [Stamp.endText, p.fraction_eq_nil (by omega)]
  rw [Stamp.text, hend, List.append_nil]
  obtain hfields | ⟨month, hfields⟩ : p.fields = [] ∨ ∃ month, p.fields = [month] := by
    rw [← List.length_eq_zero_iff, ← List.length_eq_one_iff]
    omega
  · have hyearOnly := htakeYear []
    rw [List.append_nil] at hyearOnly
    simp [hfields, fieldsText, takeDate?, hyearOnly, takeMark?]
  · have hmonthOnly := takeField?_padded (hlt month (by simp [hfields])) []
    rw [List.append_nil] at hmonthOnly
    simp [hfields, Stamp.marks, fieldsText, takeDate?, htakeYear, hmonthOnly, takeMark?]

/-- The month and the day of a stamp are taken off together with its year. -/
theorem takeDate?_stamp {month day : Nat} {later : List Nat}
    (h : p.fields = month :: day :: later) :
    takeDate? p.text = some (p.date, fieldsText [p.mark, ':', ':'] later ++ p.endText) := by
  have hyear : p.year < 10 ^ (4 : Nat) := Nat.lt_succ_of_le p.year_le
  have hmonth : month < 100 := p.fields_lt month (by simp [h])
  have hday : day < 100 := p.fields_lt day (by simp [h])
  simp [Stamp.text, Stamp.date, Stamp.marks, h, fieldsText_cons, takeDate?, takeMark?,
    takeYear?_padded hyear, takeField?_padded hmonth, takeField?_padded hday]

/-! ### The time of day -/

theorem takeField?_of_head {c : Char} (hblank : Text.isBlank c = false)
    (hdigit : c.isDigit = false) (cs : List Char) : takeField? (c :: cs) = none := by
  rw [takeField?, Text.trimStart_cons hblank]
  simp [takeUpTo?, hdigit]

/-- Either mark is taken off before the hour. -/
theorem findSome?_timeStarts {mark : Char} (hmark : mark = 'T' ∨ mark = ' ') (n : Nat)
    (cs : List Char) : (timeStarts (mark :: (padded 2 n ++ cs))).findSome? readTime? =
      readTime? (padded 2 n ++ cs) := by
  obtain rfl | rfl := hmark
  · have hletter : readTime? ('T' :: (padded 2 n ++ cs)) = none := by
      have hfield := takeField?_of_head (c := 'T') rfl rfl (padded 2 n ++ cs)
      simp [readTime?, takeTime?, hfield]
    have hstarts : timeStarts ('T' :: (padded 2 n ++ cs)) =
        [padded 2 n ++ cs, 'T' :: (padded 2 n ++ cs)] := by
      rw [timeStarts, Text.trimStart_cons (by decide)]
      simp [takeMark?]
    cases htime : readTime? (padded 2 n ++ cs) <;> simp [hstarts, htime, hletter]
  · have hstarts : timeStarts (' ' :: (padded 2 n ++ cs)) = [padded 2 n ++ cs] := by
      have hblank : Text.trimStart (' ' :: (padded 2 n ++ cs)) = padded 2 n ++ cs :=
        trimStart_padded 2 n cs
      simp [timeStarts, takeMark?, hblank]
    cases htime : readTime? (padded 2 n ++ cs) <;> simp [hstarts, htime]

namespace Stamp

/-- The fraction of a second in whole milliseconds is what is left of its microseconds. -/
theorem endMillis?_endText (p : Stamp) :
    endMillis? p.endText = some (p.fractionMicros / 1000) := by
  by_cases hnil : p.fraction = []
  · simp [endText, fractionMicros, hnil, endMillis?]
  · have hdigits : p.fraction.all Char.isDigit = true := List.all_eq_true.mpr p.isDigit
    have hplaces := Text.digitsValue_places p.isDigit 3
    have hmillis : p.fractionMicros / 1000 =
        Nat.ofDigitChars 10 p.fraction 0 * 10 ^ (3 : Nat) / 10 ^ p.fraction.length := by
      have hpow : 10 ^ (6 : Nat) = 10 ^ (3 : Nat) * 1000 := by decide
      rw [fractionMicros, Nat.div_div_eq_div_mul, hpow, ← Nat.mul_assoc,
        Nat.mul_div_mul_right _ _ (by decide)]
    have hend : p.endText = '.' :: p.fraction := if_neg hnil
    rw [hend, hmillis, ← Text.digitsValue_eq, ← hplaces]
    simp [endMillis?, hnil, hdigits]

/-- Of the texts of stamps with an hour, only those with a second end in a time of day. -/
theorem readTime?_fields (p : Stamp) {hour : Nat} {later : List Nat}
    (hfields : ∀ n ∈ hour :: later, n < 100) (hend : later.length < 2 → p.endText = [])
    (hle : later.length ≤ 2)
    (htime : (ClockTime.mk hour (later.getD 0 0) (later.getD 1 0)).isValid = true) :
    readTime? (padded 2 hour ++ (fieldsText [':', ':'] later ++ p.endText)) =
      if later.length = 2 then
        some ((ClockTime.mk hour (later.getD 0 0) (later.getD 1 0)).seconds * 1000 +
          p.fractionMicros / 1000)
      else none := by
  simp only [ClockTime.isValid, Bool.and_eq_true, decide_eq_true_eq] at htime
  obtain ⟨⟨hhour, hminute⟩, hsecond⟩ := htime
  have htakeHour := takeField?_padded (hfields hour (by simp))
  obtain rfl | ⟨minute, rfl⟩ | ⟨minute, second, rfl⟩ :
      later = [] ∨ (∃ minute, later = [minute]) ∨ ∃ minute second, later = [minute, second] := by
    rw [← List.length_eq_zero_iff, ← List.length_eq_one_iff, ← List.length_eq_two]
    omega
  · have hhourOnly := htakeHour []
    rw [List.append_nil] at hhourOnly
    simp [hend, fieldsText, readTime?, takeTime?, hhourOnly, takeMark?]
  · have hminuteOnly := takeField?_padded (hfields minute (by simp)) []
    rw [List.append_nil] at hminuteOnly
    simp [hend, fieldsText, readTime?, takeTime?, htakeHour, hminuteOnly, takeMark?]
  · have htakeMinute := takeField?_padded (hfields minute (by simp))
    have htakeSecond := takeField?_padded (hfields second (by simp))
    simp only [List.getD_cons_zero, List.getD_cons_succ] at hminute hsecond
    simp [fieldsText, readTime?, takeTime?, htakeHour, htakeMinute, htakeSecond, takeMark?,
      endMillis?_endText, hhour, hminute, Nat.le_of_lt hsecond]

/-! ### The texts that both read -/

/-- A stamp that stands for a date, or for a time of day down to its seconds. -/
def IsFull (p : Stamp) : Prop := p.fields.length = 2 ∨ p.fields.length = 5

instance (p : Stamp) : Decidable p.IsFull := inferInstanceAs (Decidable (_ ∨ _))

/-- The milliseconds since the start of 1970. -/
def millis (p : Stamp) : Int := p.micros.fdiv 1000

theorem millis_eq (p : Stamp) : p.millis =
    dayNumber p.date * 86400000 + (p.time.seconds * 1000 + p.fractionMicros / 1000 : Nat) := by
  rw [millis, Int.fdiv_eq_ediv_of_nonneg _ (by decide), micros, secondsAt]
  omega

theorem toInt_millis (p : Stamp) : (Int64.ofInt p.millis).toInt = p.millis := by
  obtain ⟨hlo, hhi⟩ := p.micros_bounds
  have hmillis : p.millis = p.micros / 1000 := Int.fdiv_eq_ediv_of_nonneg _ (by decide)
  apply Int64.toInt_ofInt_of_le
  · omega
  · omega

theorem isValid_date (p : Stamp) : p.date.isValid = true := by
  apply isValid_of_fourDigits p.isDate
  have hyear := p.year_le
  simp only [HasFourDigits]
  omega

end Stamp

theorem parseDate?_stamp (h : withoutZone s = p.text) :
    parseDate? s = if p.IsFull then some (Int64.ofInt p.millis) else none := by
  unfold parseDate?
  rw [h]
  have hlength := p.length_fields
  rcases hfields : p.fields with _ | ⟨month, _ | ⟨day, _ | ⟨hour, later⟩⟩⟩
  · simp [takeDate?_of_short, Stamp.IsFull, hfields]
  · simp [takeDate?_of_short, Stamp.IsFull, hfields]
  · have hend : p.endText = [] := by simp [Stamp.endText, p.fraction_eq_nil, hfields]
    have hmillis : p.millis = dayNumber p.date * 86400000 := by
      simp [p.millis_eq, Stamp.time, hfields, ClockTime.seconds, Stamp.fractionMicros,
        p.fraction_eq_nil]
    simp [takeDate?_stamp hfields, fieldsText, hend, p.isValid_date, Stamp.IsFull, hfields,
      hmillis]
  · have htime : p.time = ⟨hour, later.getD 0 0, later.getD 1 0⟩ := by
      simp [Stamp.time, hfields]
    have hread : readTime? (padded 2 hour ++ (fieldsText [':', ':'] later ++ p.endText)) =
        if later.length = 2 then
          some (p.time.seconds * 1000 + p.fractionMicros / 1000)
        else none := by
      rw [htime]
      apply p.readTime?_fields
      · intro n hn
        exact p.fields_lt n (by simp_all)
      · intro hshort
        have hlt : p.fields.length < 5 := by
          rw [hfields]
          exact Nat.add_lt_add_right hshort 3
        simp [Stamp.endText, p.fraction_eq_nil hlt]
      · simp only [hfields, List.length_cons] at hlength
        omega
      · simpa [hfields] using p.isTime
    have hstart := findSome?_timeStarts p.mark_eq hour (fieldsText [':', ':'] later ++ p.endText)
    rw [hread] at hstart
    by_cases htwo : later.length = 2
    · simp [takeDate?_stamp hfields, fieldsText_cons, hstart, htwo, p.isValid_date, Stamp.IsFull,
        hfields, p.millis_eq]
    · simp [takeDate?_stamp hfields, fieldsText_cons, hstart, htwo, Stamp.IsFull, hfields]

end SqlResolution.Instant
