import Mathlib.Data.List.Forall2
import SqlResolution.Proofs.Instant.Timestamp

/-!
# Stamps and their texts

A stamp is a year with as many of month, day, hour, minute and second as are written after it, and
with a fraction after the second. A text reads as a timestamp exactly where it is the text of a
stamp, up to blanks around it and a zone, and then as the instant of the stamp.
-/
namespace SqlResolution.Instant

-- Powers are the core ones, also where another instance is in scope.
attribute [local instance (high)] instPowNat

/-! ### Stamps -/

/-- A timestamp as far as it is written. -/
structure Stamp where
  year : Nat
  /-- Month, day, hour, minute and second, as many of them as are written. -/
  fields : List Nat
  /-- What stands between a day and an hour. -/
  mark : Char
  /-- The digits of the fraction of a second. -/
  fraction : List Char
  year_le : year ≤ 9999
  length_fields : fields.length ≤ 5
  isDate : CivilDate.IsDate ⟨year, fields.getD 0 1, fields.getD 1 1⟩
  isTime : ClockTime.isValid ⟨fields.getD 2 0, fields.getD 3 0, fields.getD 4 0⟩ = true
  mark_eq : mark = 'T' ∨ mark = ' '
  isDigit : ∀ c ∈ fraction, c.isDigit = true
  length_fraction : fraction.length ≤ 9
  fraction_eq_nil : fields.length < 5 → fraction = []

/-- Fields of two digits, each after its mark. -/
def fieldsText (marks : List Char) (fields : List Nat) : List Char :=
  (List.zipWith (fun mark n => mark :: padded 2 n) marks fields).flatten

namespace Stamp

/-- The date of a stamp, with the first month and the first day for those that are left out. -/
def date (p : Stamp) : CivilDate := ⟨p.year, p.fields.getD 0 1, p.fields.getD 1 1⟩

def time (p : Stamp) : ClockTime := ⟨p.fields.getD 2 0, p.fields.getD 3 0, p.fields.getD 4 0⟩

/-- The fraction of a second in whole microseconds. -/
def fractionMicros (p : Stamp) : Nat :=
  Nat.ofDigitChars 10 p.fraction 0 * 10 ^ (6 : Nat) / 10 ^ p.fraction.length

/-- The microseconds from the start of 1970 to what a stamp stands for. -/
def micros (p : Stamp) : Int := secondsAt p.date p.time * 1000000 + p.fractionMicros

def marks (p : Stamp) : List Char := ['-', '-', p.mark, ':', ':']

/-- The text after the fields. -/
def endText (p : Stamp) : List Char := if p.fraction = [] then [] else '.' :: p.fraction

def text (p : Stamp) : List Char :=
  padded 4 p.year ++ (fieldsText p.marks p.fields ++ p.endText)

/-- A text of a stamp with blanks around it and a zone or none after it. -/
def IsWrittenIn (p : Stamp) (s : String) : Prop :=
  ∃ before zone after : List Char, before.all Text.isBlank ∧ after.all Text.isBlank ∧
    (zone = [] ∨ zone = ['Z']) ∧ s.toList = before ++ (p.text ++ zone) ++ after

end Stamp

variable {s : String} {p : Stamp} {m : Int64}

/-! ### Texts of stamps -/

theorem fieldsText_cons (mark : Char) (marks : List Char) (n : Nat) (fields : List Nat) :
    fieldsText (mark :: marks) (n :: fields) = mark :: (padded 2 n ++ fieldsText marks fields) := by
  simp [fieldsText]

namespace Stamp

theorem fields_lt (p : Stamp) : ∀ n ∈ p.fields, n < 100 := by
  obtain ⟨hmonth, hday⟩ := p.isDate.fields_lt
  have htime := p.isTime
  simp only [ClockTime.isValid, Bool.and_eq_true, decide_eq_true_eq] at htime
  intro n hn
  obtain ⟨i, hi, hget⟩ := List.mem_iff_getElem.mp hn
  have hgetD : ∀ default, p.fields.getD i default = n := by
    intro default
    simp [List.getD_eq_getElem?_getD, List.getElem?_eq_getElem hi, hget]
  have hlength := p.length_fields
  obtain rfl | rfl | rfl | rfl | rfl : i = 0 ∨ i = 1 ∨ i = 2 ∨ i = 3 ∨ i = 4 := by omega
  all_goals
    simp only [hgetD] at hmonth hday htime
    omega

theorem mark_mem (p : Stamp) : List.Forall₂ (· ∈ ·) p.marks fieldMarks := by
  have hmark := p.mark_eq
  simpa [marks, fieldMarks] using hmark

theorem head_text (p : Stamp) : p.text.head?.any Text.isBlank = false := by
  obtain ⟨c, rest, htext, hdigit⟩ := exists_head_padded 4 p.year
  rw [text, htext]
  exact Text.isBlank_of_isDigit hdigit

theorem last_fieldsText (marks : List Char) (fields : List Nat) :
    ∀ c ∈ (fieldsText marks fields).getLast?, c.isDigit = true := by
  induction marks generalizing fields with
  | nil => simp [fieldsText]
  | cons mark marks ih =>
    cases fields with
    | nil => simp [fieldsText]
    | cons n fields =>
      intro c hc
      rw [fieldsText_cons, ← List.cons_append, List.getLast?_append, Option.mem_def,
        Option.or_eq_some_iff] at hc
      obtain hc | ⟨-, hc⟩ := hc
      · exact ih fields c hc
      · have hne : padded 2 n ≠ [] := padded_ne_nil 2 n
        rw [← List.singleton_append, List.getLast?_append_of_ne_nil _ hne] at hc
        exact isDigit_of_mem_padded (List.mem_of_getLast? hc)

/-- The text of a stamp ends in a digit. -/
theorem last_text (p : Stamp) : ∀ c ∈ p.text.getLast?, c.isDigit = true := by
  intro c hc
  simp only [text, List.getLast?_append, Option.mem_def, Option.or_eq_some_iff] at hc
  obtain (hc | ⟨-, hc⟩) | ⟨-, hc⟩ := hc
  · unfold endText at hc
    split at hc
    · simp at hc
    · rename_i hne
      rw [← List.singleton_append, List.getLast?_append_of_ne_nil _ hne] at hc
      exact p.isDigit c (List.mem_of_getLast? hc)
  · exact last_fieldsText _ _ c hc
  · exact isDigit_of_mem_padded (List.mem_of_getLast? hc)

end Stamp

/-! ### Blanks and zones -/

/-- What is left of a text stands in it between blanks, and before a zone or none. -/
theorem exists_of_withoutZone (s : String) : ∃ before zone after : List Char,
    before.all Text.isBlank ∧ after.all Text.isBlank ∧ (zone = [] ∨ zone = ['Z']) ∧
      s.toList = before ++ (withoutZone s ++ zone) ++ after := by
  obtain ⟨before, after, hbefore, hafter, htext⟩ := Text.exists_trim s.toList
  cases hzone : Text.dropEnding? ['Z'] (Text.trim s.toList) with
  | none =>
    refine ⟨before, [], after, hbefore, hafter, .inl rfl, ?_⟩
    simpa [withoutZone, hzone] using htext
  | some cs =>
    rw [Text.eq_of_dropEnding? hzone] at htext
    refine ⟨before, ['Z'], after, hbefore, hafter, .inr rfl, ?_⟩
    simpa [withoutZone, hzone] using htext

theorem withoutZone_eq_text_iff : withoutZone s = p.text ↔ p.IsWrittenIn s := by
  constructor
  · intro h
    rw [Stamp.IsWrittenIn, ← h]
    exact exists_of_withoutZone s
  · rintro ⟨before, zone, after, hbefore, hafter, hzone, htext⟩
    have htrim : Text.trim s.toList = Text.trim (p.text ++ zone) := by
      rw [htext, List.append_assoc, Text.trim_append_left hbefore, Text.trim_append_right hafter]
    have hlast := p.last_text
    obtain rfl | rfl := hzone
    · have htrimmed : Text.IsTrimmed p.text := by
        refine ⟨p.head_text, ?_⟩
        cases hc : p.text.getLast? with
        | none => rfl
        | some c => exact Text.isBlank_of_isDigit (hlast c hc)
      have hnone : Text.dropEnding? ['Z'] p.text = none := by
        refine if_neg fun hsuffix => ?_
        obtain ⟨front, hfront⟩ := List.isSuffixOf_iff_suffix.mp hsuffix
        have hdigit := hlast 'Z' (by simp [← hfront])
        simp at hdigit
      unfold withoutZone
      rw [htrim, List.append_nil, htrimmed.trim]
      simp only [hnone, Option.getD_none]
    · have hcut := withoutZone_append p.head_text
      unfold withoutZone at hcut ⊢
      rw [String.toList_ofList] at hcut
      rw [htrim]
      exact hcut

/-! ### Reading the text of a stamp -/

theorem takeFields?_fieldsText {marks : List (List Char)} {ms : List Char} {fields : List Nat}
    {rest : List Char} (hms : List.Forall₂ (· ∈ ·) ms marks) (hfields : ∀ n ∈ fields, n < 100)
    (hle : fields.length ≤ marks.length) (hrest : fields.length < marks.length → rest = []) :
    takeFields? marks (fieldsText ms fields ++ rest) = some (fields, rest) := by
  induction hms generalizing fields with
  | nil =>
    obtain rfl : fields = [] := List.length_eq_zero_iff.mp (Nat.le_zero.mp hle)
    simp [fieldsText, takeFields?]
  | @cons mark allowed ms marks hmark _ ih =>
    cases fields with
    | nil =>
      rw [hrest (by simp)]
      simp [fieldsText, takeFields?]
    | cons n fields =>
      obtain ⟨hn, hfields⟩ := List.forall_mem_cons.mp hfields
      have hlater := ih hfields (Nat.le_of_succ_le_succ hle)
        fun hlt => hrest (Nat.succ_lt_succ hlt)
      rw [fieldsText_cons, List.cons_append, List.append_assoc]
      exact takeFields?_cons (List.contains_iff_mem.mpr hmark) hn hlater

theorem endMicros?_endText (p : Stamp) :
    endMicros? p.fields p.endText = some p.fractionMicros := by
  have hdigits : p.fraction.all Char.isDigit = true := List.all_eq_true.mpr p.isDigit
  have hlength := p.length_fraction
  by_cases hnil : p.fraction = []
  · simp [Stamp.endText, Stamp.fractionMicros, hnil, endMicros?]
  · have hfields : p.fields.length = 5 := by
      have hle := p.length_fields
      by_contra hne
      exact hnil (p.fraction_eq_nil (by omega))
    have hplaces := Text.digitsValue_places p.isDigit 6
    rw [Text.digitsValue_eq 0 p.fraction] at hplaces
    have hend : p.endText = '.' :: p.fraction := if_neg hnil
    rw [hend, endMicros?, hfields, Stamp.fractionMicros, ← hplaces]
    simp [fieldMarks, fractionMicros?, hnil, hdigits, hlength]

theorem parsePartial?_stamp (h : withoutZone s = p.text) :
    parsePartial? s = some (Int64.ofInt p.micros) := by
  have hyear : p.year < 10 ^ (4 : Nat) := Nat.lt_succ_of_le p.year_le
  have hdate : p.date.isValid = true := by
    refine isValid_of_fourDigits p.isDate ?_
    have hle := p.year_le
    simp only [HasFourDigits, Stamp.date]
    omega
  have hfields : takeFields? fieldMarks (fieldsText p.marks p.fields ++ p.endText) =
      some (p.fields, p.endText) := by
    apply takeFields?_fieldsText p.mark_mem p.fields_lt p.length_fields
    intro hlt
    simp [Stamp.endText, p.fraction_eq_nil hlt]
  unfold parsePartial?
  rw [h, Stamp.text, takeDigits?_padded (by decide) hyear]
  simp only [Option.bind_eq_bind, Option.bind_some, hfields, endMicros?_endText]
  exact if_pos (by simpa using ⟨hdate, p.isTime⟩)

/-! ### What is read is the text of a stamp -/

theorem eq_padded_of_takeDigits? {count n : Nat} {cs rest : List Char} (hcount : 0 < count)
    (h : takeDigits? count cs = some (n, rest)) :
    cs = padded count n ++ rest ∧ n < 10 ^ count := by
  unfold takeDigits? at h
  dsimp only at h
  split at h
  · rename_i htaken
    simp only [Option.some.injEq, Prod.mk.injEq] at h
    obtain ⟨rfl, rfl⟩ := h
    simp only [Bool.and_eq_true, beq_iff_eq, List.all_eq_true] at htaken
    obtain ⟨hlength, hdigits⟩ := htaken
    have hne : cs.take count ≠ [] := List.ne_nil_of_length_pos (by omega)
    have hpadded := padded_digitsValue hdigits hne
    have hlt := Text.digitsValue_lt hdigits
    rw [hlength] at hpadded hlt
    rw [hpadded, List.take_append_drop]
    exact ⟨rfl, hlt⟩
  · simp at h

/-- The fields that are read stand in the text, each after one of its marks. -/
theorem exists_marks_of_takeFields? {marks : List (List Char)} {cs rest : List Char}
    {fields : List Nat} (hmarks : ∀ allowed ∈ marks, allowed ≠ [])
    (h : takeFields? marks cs = some (fields, rest)) :
    ∃ ms, List.Forall₂ (· ∈ ·) ms marks ∧ cs = fieldsText ms fields ++ rest ∧
      fields.length ≤ marks.length := by
  induction marks generalizing cs fields rest with
  | nil =>
    simp only [takeFields?, Option.some.injEq, Prod.mk.injEq] at h
    obtain ⟨rfl, rfl⟩ := h
    exact ⟨[], .nil, by simp [fieldsText], by simp⟩
  | cons allowed marks ih =>
    obtain ⟨hallowed, hmarks⟩ := List.forall_mem_cons.mp hmarks
    -- Where the reader stops, any marks will do for the fields that are left out.
    have hstop : fields = [] → rest = cs → ∃ ms, List.Forall₂ (· ∈ ·) ms (allowed :: marks) ∧
        cs = fieldsText ms fields ++ rest ∧ fields.length ≤ (allowed :: marks).length := by
      rintro rfl rfl
      obtain ⟨mark, hmark⟩ := List.exists_mem_of_ne_nil allowed hallowed
      have hend : takeFields? marks [] = some ([], []) := by cases marks <;> rfl
      obtain ⟨ms, hms, -⟩ := ih hmarks hend
      exact ⟨mark :: ms, .cons hmark hms, by simp [fieldsText], by simp⟩
    cases cs with
    | nil =>
      simp only [takeFields?, Option.some.injEq, Prod.mk.injEq] at h
      exact hstop h.1.symm h.2.symm
    | cons c cs =>
      by_cases hmark : allowed.contains c = true
      · rw [takeFields?, if_pos hmark] at h
        simp only [Option.bind_eq_bind, Option.bind_eq_some_iff, Option.pure_def,
          Option.some.injEq, Prod.mk.injEq, Prod.exists] at h
        obtain ⟨n, after, hn, later, left, hlater, rfl, rfl⟩ := h
        obtain ⟨ms, hms, htext, hlength⟩ := ih hmarks hlater
        obtain ⟨rfl, -⟩ := eq_padded_of_takeDigits? (by decide) hn
        refine ⟨c :: ms, .cons (List.contains_iff_mem.mp hmark) hms, ?_, by simpa using hlength⟩
        rw [fieldsText_cons, htext, List.cons_append, List.append_assoc]
      · rw [takeFields?, if_neg hmark] at h
        simp only [Option.some.injEq, Prod.mk.injEq] at h
        exact hstop h.1.symm h.2.symm

/-- What is read after the fields is nothing, or a point and digits after a second. -/
theorem exists_fraction_of_endMicros? {fields : List Nat} {cs : List Char} {micros : Nat}
    (h : endMicros? fields cs = some micros) : ∃ fraction : List Char,
      cs = (if fraction = [] then [] else '.' :: fraction) ∧
        (∀ c ∈ fraction, c.isDigit = true) ∧ fraction.length ≤ 9 ∧
        (fields.length < 5 → fraction = []) := by
  unfold endMicros? at h
  split at h
  · exact ⟨[], by simp⟩
  · rename_i fraction
    split at h
    · rename_i hfields
      unfold fractionMicros? at h
      split at h
      · simp at h
      · rename_i hdigits
        simp only [Bool.or_eq_true, not_or, Bool.not_eq_true, List.isEmpty_eq_false_iff,
          decide_eq_false_iff_not, Bool.not_eq_false'] at hdigits
        obtain ⟨⟨hne, hlength⟩, hall⟩ := hdigits
        refine ⟨fraction, by simp [hne], List.all_eq_true.mp hall, by omega, fun hlt => ?_⟩
        simp only [fieldMarks, beq_iff_eq, List.length_cons, List.length_nil] at hfields
        omega
    · simp at h
  · simp at h

theorem exists_stamp_of_parsePartial? (h : parsePartial? s = some m) :
    ∃ p : Stamp, withoutZone s = p.text := by
  unfold parsePartial? at h
  simp only [Option.bind_eq_bind, Option.bind_eq_some_iff, Prod.exists] at h
  obtain ⟨year, afterYear, hyear, fields, rest, hfields, micros, hend, h⟩ := h
  split at h
  · rename_i hvalid
    simp only [Bool.and_eq_true] at hvalid
    obtain ⟨hdate, htime⟩ := hvalid
    simp only [CivilDate.isValid, Bool.and_eq_true, decide_eq_true_eq] at hdate
    obtain ⟨htext, hlt⟩ := eq_padded_of_takeDigits? (by decide) hyear
    obtain ⟨ms, hms, hafter, hlength⟩ := exists_marks_of_takeFields? (by decide) hfields
    obtain ⟨fraction, hrest, hdigits, hle, hnil⟩ := exists_fraction_of_endMicros? hend
    obtain ⟨mark, hmark, rfl⟩ : ∃ mark, (mark = 'T' ∨ mark = ' ') ∧
        ms = ['-', '-', mark, ':', ':'] := by
      simpa [fieldMarks, List.forall₂_cons_right_iff] using hms
    let p : Stamp := {
      year, fields, mark, fraction
      year_le := Nat.le_of_lt_succ hlt
      length_fields := hlength
      isDate := ⟨hdate.1.1.1.2, hdate.1.1.2, hdate.1.2, hdate.2⟩
      isTime := htime
      mark_eq := hmark
      isDigit := hdigits
      length_fraction := hle
      fraction_eq_nil := hnil }
    exact ⟨p, by rw [htext, hafter, hrest]; rfl⟩
  · simp at h

/-! ### The instant of a stamp -/

namespace Stamp

/-- The microseconds since the start of the date. -/
def clockMicros (p : Stamp) : Nat := p.time.seconds * 1000000 + p.fractionMicros

theorem fractionMicros_lt (p : Stamp) : p.fractionMicros < 1000000 := by
  have hlt := Text.digitsValue_lt p.isDigit
  rw [Text.digitsValue_eq] at hlt
  rw [fractionMicros, Nat.div_lt_iff_lt_mul (Nat.pow_pos (by decide)), Nat.mul_comm]
  exact Nat.mul_lt_mul_of_pos_left hlt (by decide)

theorem clockMicros_lt (p : Stamp) : p.clockMicros < 86400000000 := by
  have htime := p.isTime
  have hfraction := p.fractionMicros_lt
  simp only [ClockTime.isValid, Bool.and_eq_true, decide_eq_true_eq] at htime
  simp only [clockMicros, ClockTime.seconds, time]
  omega

theorem micros_eq (p : Stamp) : p.micros = dayNumber p.date * 86400000000 + p.clockMicros := by
  simp only [micros, secondsAt, clockMicros]
  omega

/-- The instants of the years with four digits are far from the ends of a word. -/
theorem micros_bounds (p : Stamp) :
    -9223372036854775808 ≤ p.micros ∧ p.micros < 9223372036854775808 := by
  have hyear := p.year_le
  have hclock := p.clockMicros_lt
  obtain ⟨hmonth, hday⟩ := p.isDate.fields_lt
  have hmarch : p.date.year - 1 ≤ p.date.marchYear ∧ p.date.marchYear ≤ p.date.year := by
    unfold CivilDate.marchYear
    omega
  have hbounds : -1000000 < dayNumber p.date ∧ dayNumber p.date < 10000000 := by
    simp only [dayNumber_eq, daysBeforeYear, daysBeforeMonth]
    simp only [date] at hmarch hday ⊢
    omega
  rw [micros_eq]
  omega

theorem toInt_micros (p : Stamp) : (Int64.ofInt p.micros).toInt = p.micros :=
  Int64.toInt_ofInt_of_le p.micros_bounds.1 p.micros_bounds.2

end Stamp

/-- The texts of stamps are read, and no others. -/
theorem parsePartial?_eq_some_iff (s : String) (m : Int64) :
    parsePartial? s = some m ↔ ∃ p : Stamp, p.IsWrittenIn s ∧ m.toInt = p.micros := by
  constructor
  · intro h
    obtain ⟨p, hp⟩ := exists_stamp_of_parsePartial? h
    rw [parsePartial?_stamp hp, Option.some.injEq] at h
    exact ⟨p, withoutZone_eq_text_iff.mp hp, by rw [← h, p.toInt_micros]⟩
  · rintro ⟨p, hp, hm⟩
    rw [parsePartial?_stamp (withoutZone_eq_text_iff.mpr hp), ← hm, Int64.ofInt_toInt]

end SqlResolution.Instant
