import Mathlib.Data.List.TakeWhile
import SqlResolution.Instant.Date
import SqlResolution.Proofs.Instant.Format

/-!
# Dates and their texts

Reading the text of a date in a year with four digits gives the date.
-/
namespace SqlResolution.Instant

-- Powers are the core ones, also where another instance is in scope.
attribute [local instance (high)] instPowNat

/-! ### Reading fields -/

theorem takeUpTo?_padded {width n : Nat} (hwidth : 0 < width) (hn : n < 10 ^ width)
    (cs : List Char) : takeUpTo? width (padded width n ++ cs) = some (n, cs) := by
  have hlength := length_padded hwidth hn
  have htake : (padded width n ++ cs).take width = padded width n := List.take_left' hlength
  have hdigits : (padded width n).takeWhile Char.isDigit = padded width n :=
    List.takeWhile_eq_self_iff.mpr fun c hc => isDigit_of_mem_padded hc
  have hne : (padded width n).isEmpty = false := by simpa using padded_ne_nil width n
  unfold takeUpTo?
  simp only [htake, hdigits, hne, digitsValue_padded, List.drop_left]
  rfl

theorem trimStart_padded (width n : Nat) (cs : List Char) :
    Text.trimStart (padded width n ++ cs) = padded width n ++ cs := by
  obtain ⟨c, rest, htext, hdigit⟩ := exists_head_padded width n
  rw [htext]
  exact Text.trimStart_of_head (Text.isBlank_of_isDigit hdigit)

theorem takeField?_padded {n : Nat} (hn : n < 100) (cs : List Char) :
    takeField? (padded 2 n ++ cs) = some (n, cs) := by
  rw [takeField?, trimStart_padded, takeUpTo?_padded (by decide) hn]

theorem takeYear?_padded {n : Nat} (hn : n < 10 ^ (4 : Nat)) (cs : List Char) :
    takeYear? (padded 4 n ++ cs) = some ((n : Int), cs) := by
  have htake := takeUpTo?_padded (by decide : 0 < 4) hn cs
  obtain ⟨c, rest, htext, hdigit⟩ := exists_head_padded 4 n
  unfold takeYear?
  rw [trimStart_padded]
  split
  · rename_i hsign
    rw [htext] at hsign
    cases hsign
    cases hdigit
  · rename_i hsign
    rw [htext] at hsign
    cases hsign
    cases hdigit
  · rw [htake]
    rfl

theorem takeDate?_text {d : CivilDate} (hdate : d.IsDate) (hyear : HasFourDigits d.year)
    (cs : List Char) : takeDate? (dateText d ++ cs) = some (d, cs) := by
  obtain ⟨hmonth, hday⟩ := hdate.fields_lt
  rw [dateText_append hyear]
  simp only [takeDate?, takeYear?_padded hyear.toNat_lt, takeMark?, BEq.rfl, if_true,
    takeField?_padded hmonth, takeField?_padded hday, Option.bind_eq_bind, Option.bind_some,
    Option.pure_def, Int.toNat_of_nonneg hyear.1]

theorem endMillis?_padded {n : Nat} (hn : n < 10 ^ (3 : Nat)) :
    endMillis? ('.' :: padded 3 n) = some n := by
  have hlength : (padded 3 n).length = 3 := length_padded (by decide) hn
  have hdigits : (padded 3 n).all Char.isDigit = true :=
    List.all_eq_true.mpr fun c hc => isDigit_of_mem_padded hc
  simp [endMillis?, hlength, hdigits, digitsValue_padded, padded_ne_nil]

/-! ### Reading a whole text -/

theorem readTime?_text {units : Nat} (h : units < unitsPerDay 3) :
    readTime? (timeText 3 units) = some units := by
  obtain ⟨hvalid, hunits⟩ := clockTime_spec h
  simp only [ClockTime.isValid, Bool.and_eq_true, decide_eq_true_eq] at hvalid
  obtain ⟨⟨hhour, hminute⟩, hsecond⟩ := hvalid
  have hend := endMillis?_padded (Nat.mod_lt units (by decide : 0 < 10 ^ 3))
  have hclock : (decide ((clockTime 3 units).hour < 24) && decide ((clockTime 3 units).minute < 60)
      && decide ((clockTime 3 units).second ≤ 60)) = true := by
    simp [hhour, hminute, Nat.le_of_lt hsecond]
  rw [timeText_eq]
  simp only [readTime?, takeTime?, takeMark?, BEq.rfl, if_true, hend,
    takeField?_padded (Nat.lt_trans hhour (by decide)),
    takeField?_padded (Nat.lt_trans hminute (by decide)),
    takeField?_padded (Nat.lt_trans hsecond (by decide)), Option.bind_eq_bind, Option.bind_some,
    Option.pure_def, hclock]
  exact congrArg some hunits

/-- The text of a date reads as the date where the year has four digits. -/
theorem parseDate?_formatDate {millis : Int64} {d : CivilDate}
    (h : LiesOn 3 millis d) (hyear : HasFourDigits d.year) :
    parseDate? (formatDate millis) = some millis := by
  obtain ⟨hsum, hlt⟩ := sinceStart_spec h
  rw [formatDate, format_of_liesOn h, if_pos (hasDates_of_fourDigits hyear)]
  have htime : (timeStarts ('T' :: timeText 3 (sinceStart 3 millis d))).findSome? readTime? =
      some (sinceStart 3 millis d) := by
    simp [timeStarts, takeMark?, readTime?_text hlt]
  unfold parseDate?
  rw [withoutZone_dateText, takeDate?_text h.1 hyear]
  simp only [Option.bind_eq_bind, Option.bind_some, List.isEmpty_cons, htime,
    isValid_of_fourDigits h.1 hyear]
  change some (Int64.ofInt (dayNumber d * 86400000 + sinceStart 3 millis d)) = some millis
  have hinstant : dayNumber d * 86400000 + sinceStart 3 millis d = millis.toInt := hsum
  rw [hinstant, Int64.ofInt_toInt]

end SqlResolution.Instant
