import SqlResolution.Proofs.Instant.Format

/-!
# Timestamps and their texts

Reading the text of a timestamp gives the timestamp where its year has four digits, and nothing
elsewhere: a sign is no digit, and the plain number of an instant that has no date has digits left
over.
-/
namespace SqlResolution.Instant

-- Powers are the core ones, also where another instance is in scope.
attribute [local instance (high)] instPowNat

/-! ### Reading fields -/

theorem takeDigits?_append {ds : List Char} (h : ∀ c ∈ ds, c.isDigit = true) (cs : List Char) :
    takeDigits? ds.length (ds ++ cs) = some (Text.digitsValue 0 ds, cs) := by
  have hdigits : ds.all Char.isDigit = true := List.all_eq_true.mpr h
  simp [takeDigits?, hdigits]

theorem takeDigits?_padded {count n : Nat} (hcount : 0 < count) (hn : n < 10 ^ count)
    (cs : List Char) : takeDigits? count (padded count n ++ cs) = some (n, cs) := by
  have hdigits : ∀ c ∈ padded count n, c.isDigit = true := fun c hc => isDigit_of_mem_padded hc
  have htake := takeDigits?_append hdigits cs
  rwa [length_padded hcount hn, digitsValue_padded] at htake

theorem takeDigits?_of_head {c : Char} (h : c.isDigit = false) (count : Nat) (cs : List Char) :
    takeDigits? (count + 1) (c :: cs) = none := by
  simp [takeDigits?, h]

/-- A mark and two digits are taken before the fields after them. -/
theorem takeFields?_cons {marks : List Char} {mark : Char} {later : List (List Char)} {n : Nat}
    {cs rest : List Char} {fields : List Nat} (hmark : marks.contains mark = true) (hn : n < 100)
    (h : takeFields? later cs = some (fields, rest)) :
    takeFields? (marks :: later) (mark :: (padded 2 n ++ cs)) = some (n :: fields, rest) := by
  have htake : takeDigits? 2 (padded 2 n ++ cs) = some (n, cs) :=
    takeDigits?_padded (by decide) hn cs
  rw [takeFields?, if_pos hmark]
  simp only [htake, h, Option.bind_eq_bind, Option.bind_some, Option.pure_def]

theorem fractionMicros?_padded {n : Nat} (hn : n < 10 ^ (6 : Nat)) :
    fractionMicros? (padded 6 n) = some n := by
  have hlength : (padded 6 n).length = 6 := length_padded (by decide) hn
  have hdigits : (padded 6 n).all Char.isDigit = true :=
    List.all_eq_true.mpr fun c hc => isDigit_of_mem_padded hc
  simp [fractionMicros?, hlength, hdigits, digitsValue_padded, padded_ne_nil]

/-! ### Reading a whole text -/

theorem takeFields?_text {month day units : Nat} (hmonth : month < 100) (hday : day < 100)
    (h : units < unitsPerDay 6) :
    takeFields? fieldMarks
        ('-' :: (padded 2 month ++ '-' :: (padded 2 day ++ 'T' :: timeText 6 units))) =
      some ([month, day, (clockTime 6 units).hour, (clockTime 6 units).minute,
        (clockTime 6 units).second], '.' :: padded 6 (units % 10 ^ (6 : Nat))) := by
  have hvalid := (clockTime_spec h).1
  simp only [ClockTime.isValid, Bool.and_eq_true, decide_eq_true_eq] at hvalid
  obtain ⟨⟨hhour, hminute⟩, hsecond⟩ := hvalid
  rw [timeText_eq]
  refine takeFields?_cons rfl hmonth (takeFields?_cons rfl hday ?_)
  refine takeFields?_cons rfl (Nat.lt_trans hhour (by decide)) ?_
  refine takeFields?_cons rfl (Nat.lt_trans hminute (by decide)) ?_
  exact takeFields?_cons rfl (Nat.lt_trans hsecond (by decide)) rfl

theorem parsePartial?_text {d : CivilDate} (hdate : d.IsDate) (hyear : HasFourDigits d.year)
    {units : Nat} (h : units < unitsPerDay 6) :
    parsePartial? (String.ofList (dateText d ++ 'T' :: timeText 6 units ++ ['Z'])) =
      some (Int64.ofInt (dayNumber d * unitsPerDay 6 + units)) := by
  have hd : (⟨d.year.toNat, d.month, d.day⟩ : CivilDate) = d := by
    rw [Int.toNat_of_nonneg hyear.1]
  have hend : endMicros? [d.month, d.day, (clockTime 6 units).hour, (clockTime 6 units).minute,
      (clockTime 6 units).second] ('.' :: padded 6 (units % 10 ^ 6)) = some (units % 10 ^ 6) :=
    fractionMicros?_padded (Nat.mod_lt _ (by decide))
  obtain ⟨hmonth, hday⟩ := hdate.fields_lt
  obtain ⟨hclock, hunits⟩ := clockTime_spec h
  have hinstant : secondsAt d (clockTime 6 units) * 1000000 + (units % 10 ^ 6 : Nat) =
      dayNumber d * unitsPerDay 6 + units := by
    rw [secondsAt, unitsPerDay]
    omega
  unfold parsePartial?
  rw [withoutZone_dateText, dateText_append hyear,
    takeDigits?_padded (by decide) hyear.toNat_lt]
  simp only [Option.bind_eq_bind, Option.bind_some, takeFields?_text hmonth hday h, hend]
  change (if (CivilDate.isValid ⟨d.year.toNat, d.month, d.day⟩ &&
      (clockTime 6 units).isValid) = true then
    some (Int64.ofInt (secondsAt ⟨d.year.toNat, d.month, d.day⟩ (clockTime 6 units) * 1000000 +
      (units % 10 ^ 6 : Nat))) else none) = _
  rw [hd, isValid_of_fourDigits hdate hyear, hclock, hinstant]
  rfl

/-- A year with a sign is not read. -/
theorem parsePartial?_of_sign {d : CivilDate} (hyear : ¬HasFourDigits d.year) (cs : List Char) :
    parsePartial? (String.ofList (dateText d ++ cs ++ ['Z'])) = none := by
  obtain ⟨sign, hsign, htext⟩ := exists_sign_of_yearText hyear
  have hdigit : sign.isDigit = false := by
    obtain rfl | rfl := hsign
    · rfl
    · rfl
  unfold parsePartial?
  rw [withoutZone_dateText, dateText, htext]
  simp only [List.cons_append, takeDigits?_of_head hdigit]
  rfl

/-! ### The plain number of an instant without a date -/

theorem plain_of_isDigit {c : Char} (h : c.isDigit = true) : Text.isBlank c = false ∧ c ≠ 'Z' := by
  refine ⟨Text.isBlank_of_isDigit h, ?_⟩
  rintro rfl
  cases h

/-- More than four digits and nothing else are not read. -/
theorem parsePartial?_of_digits {s : String} (hdigits : ∀ c ∈ s.toList, c.isDigit = true)
    (hlength : 4 < s.toList.length) : parsePartial? s = none := by
  obtain ⟨year, c, rest, hcs, hyear⟩ : ∃ year c rest,
      s.toList = year ++ c :: rest ∧ year.length = 4 := by
    obtain ⟨c, rest, hrest⟩ : ∃ c rest, s.toList.drop 4 = c :: rest :=
      List.exists_cons_of_ne_nil (by simpa using hlength)
    refine ⟨s.toList.take 4, c, rest, ?_, ?_⟩
    · rw [← hrest, List.take_append_drop]
    · rw [List.length_take]
      omega
  have htake : takeDigits? 4 s.toList = some (Text.digitsValue 0 year, c :: rest) := by
    rw [hcs, ← hyear]
    refine takeDigits?_append (fun c' hc' => hdigits c' ?_) _
    rw [hcs]
    exact List.mem_append_left _ hc'
  have hc : c.isDigit = true := hdigits c (by simp [hcs])
  have hmark : takeFields? fieldMarks (c :: rest) = some ([], c :: rest) := by
    refine if_neg fun h => ?_
    obtain rfl : c = '-' := by simpa using h
    cases hc
  have hend : endMicros? [] (c :: rest) = none := by
    unfold endMicros?
    split
    · contradiction
    · rfl
    · rfl
  unfold parsePartial?
  rw [withoutZone_of_plain fun c hc => plain_of_isDigit (hdigits c hc), htake]
  simp only [Option.bind_eq_bind, Option.bind_some, hmark, hend, Option.bind_none]

theorem parsePartial?_repr {n : Int} (h : n < 0 ∨ 10 ^ (4 : Nat) ≤ n) :
    parsePartial? n.repr = none := by
  obtain hneg | hlarge := h
  · have hplain : ∀ c ∈ n.repr.toList, Text.isBlank c = false ∧ c ≠ 'Z' := by
      rw [Text.toList_repr_of_neg hneg]
      exact List.forall_mem_cons.mpr
        ⟨by decide, fun c hc => plain_of_isDigit (Text.isDigit_of_mem_toDigits hc)⟩
    unfold parsePartial?
    rw [withoutZone_of_plain hplain, Text.toList_repr_of_neg hneg,
      takeDigits?_of_head (by decide)]
    rfl
  · have htext : n.repr.toList = Nat.toDigits 10 n.toNat := Text.toList_repr_of_nonneg (by omega)
    have hlength := Nat.length_toDigits_le_iff (n := n.toNat) (k := 4) (by decide : 1 < 10)
      (by decide)
    refine parsePartial?_of_digits ?_ ?_
    · rw [htext]
      exact fun c hc => Text.isDigit_of_mem_toDigits hc
    · rw [htext]
      omega

/-- Only an instant long before or after the years with four digits has no date. -/
theorem bounds_of_liesOn {instant : Int64} {d : CivilDate} (h : LiesOn 6 instant d)
    (hyear : ¬(firstYear ≤ d.year ∧ d.year ≤ lastYear)) :
    instant.toInt < 0 ∨ 10 ^ (4 : Nat) ≤ instant.toInt := by
  obtain ⟨hdate, hlo, hhi⟩ := h
  have hfields := hdate.fields_lt
  rw [dayNumber_next hdate] at hhi
  simp only [dayNumber_eq, daysBeforeYear, unitsPerDay, daysBeforeMonth] at hlo hhi
  have hmarch : d.year - 1 ≤ d.marchYear ∧ d.marchYear ≤ d.year := by
    unfold CivilDate.marchYear
    omega
  simp only [firstYear, lastYear] at hyear
  omega

theorem parsePartial?_of_fourDigits {micros : Int64} {d : CivilDate} (h : LiesOn 6 micros d)
    (hyear : HasFourDigits d.year) : parsePartial? (formatTimestamp micros) = some micros := by
  obtain ⟨hsum, hlt⟩ := sinceStart_spec h
  rw [formatTimestamp, format_of_liesOn h, if_pos (hasDates_of_fourDigits hyear),
    parsePartial?_text h.1 hyear hlt, hsum, Int64.ofInt_toInt]

theorem parsePartial?_of_not_fourDigits {micros : Int64} {d : CivilDate} (h : LiesOn 6 micros d)
    (hyear : ¬HasFourDigits d.year) : parsePartial? (formatTimestamp micros) = none := by
  rw [formatTimestamp, format_of_liesOn h]
  split
  · exact parsePartial?_of_sign hyear _
  · rename_i hcalendar
    exact parsePartial?_repr (bounds_of_liesOn h (by simpa using hcalendar))

end SqlResolution.Instant
