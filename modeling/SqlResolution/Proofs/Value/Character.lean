import SqlResolution.Builtin.Basic
import SqlResolution.Proofs.Text.Number
import SqlResolution.Proofs.Value.Coercion

/-!
# Characters and their texts

What kernels and casts make of a character, and what they make of the text that is the character
alone. A list of texts holds the one where it holds the other. A comparison of texts compares no
characters, and neither the length nor the capital letters of a character are those of its text. A
cast reads the text as a UUID, a date or a timestamp, and the character as its code.
-/
namespace SqlResolution

/-! ### Texts of one character -/

namespace Text

theorem length_trim_le (cs : List Char) : (trim cs).length ≤ cs.length := by
  obtain ⟨front, back, -, -, hcs⟩ := exists_trim cs
  have hlength := congrArg List.length hcs
  simp only [List.length_append] at hlength
  omega

end Text

namespace Instant

theorem length_withoutZone_le (s : String) : (withoutZone s).length ≤ s.toList.length := by
  refine Nat.le_trans ?_ (Text.length_trim_le s.toList)
  unfold withoutZone Text.dropEnding?
  dsimp only
  split
  · rw [Option.getD_some, List.length_take]
    omega
  · exact Nat.le_refl _

/-- Digits that are taken are gone from the rest. -/
theorem length_of_takeUpTo? {most : Nat} {cs rest : List Char} {n : Nat}
    (h : takeUpTo? most cs = some (n, rest)) : rest.length < cs.length := by
  unfold takeUpTo? at h
  dsimp only at h
  split at h
  · cases h
  · rename_i hsome
    cases h
    cases cs with
    | nil => simp at hsome
    | cons c cs =>
      have hpos : 0 < (((c :: cs).take most).takeWhile Char.isDigit).length := by
        rw [List.length_pos_iff_ne_nil]
        simpa using hsome
      rw [List.length_drop, List.length_cons]
      omega

theorem length_of_takeYear? {cs rest : List Char} {year : Int}
    (h : takeYear? cs = some (year, rest)) : rest.length < cs.length := by
  have hle : (Text.trimStart cs).length ≤ cs.length := (List.dropWhile_sublist _).length_le
  unfold takeYear? at h
  split at h
  · rename_i digits hsign
    obtain ⟨⟨n, rest'⟩, htake, heq⟩ := Option.map_eq_some_iff.mp h
    cases heq
    have hlt := length_of_takeUpTo? htake
    rw [hsign, List.length_cons] at hle
    omega
  · rename_i digits hsign
    obtain ⟨⟨n, rest'⟩, htake, heq⟩ := Option.map_eq_some_iff.mp h
    cases heq
    have hlt := length_of_takeUpTo? htake
    rw [hsign, List.length_cons] at hle
    omega
  · obtain ⟨⟨n, rest'⟩, htake, heq⟩ := Option.map_eq_some_iff.mp h
    cases heq
    have hlt := length_of_takeUpTo? htake
    omega

/-- A single character is no date. -/
theorem parseDate?_of_length {s : String} (h : s.toList.length ≤ 1) : parseDate? s = none := by
  have hshort : (withoutZone s).length ≤ 1 := Nat.le_trans (length_withoutZone_le s) h
  have hdate : takeDate? (withoutZone s) = none := by
    unfold takeDate?
    cases hyear : takeYear? (withoutZone s) with
    | none => rfl
    | some taken =>
      obtain ⟨year, rest⟩ := taken
      have hlt := length_of_takeYear? hyear
      obtain rfl : rest = [] := List.length_eq_zero_iff.mp (by omega)
      rfl
  unfold parseDate?
  rw [hdate]
  rfl

/-- A single character is no timestamp. -/
theorem parsePartial?_of_length {s : String} (h : s.toList.length ≤ 1) :
    parsePartial? s = none := by
  have hshort : (withoutZone s).length ≤ 1 := Nat.le_trans (length_withoutZone_le s) h
  have hyear : takeDigits? 4 (withoutZone s) = none := by
    have hlength : (((withoutZone s).take 4).length == 4) = false := by
      rw [beq_eq_false_iff_ne, List.length_take]
      omega
    unfold takeDigits?
    dsimp only
    rw [hlength]
    rfl
  unfold parsePartial?
  rw [hyear]
  rfl

end Instant

/-- A single character is no UUID. -/
theorem Uuid.parse?_of_length {s : String} (h : s.toList.length ≤ 1) : parse? s = none := by
  have hdigits : digits? s.toList = none := by
    generalize s.toList = cs at h
    have hurn : ((cs.take 9).map Char.toLower == "urn:uuid:".toList) = false := by
      rw [beq_eq_false_iff_ne]
      intro heq
      have hlength := congrArg List.length heq
      have hnine : "urn:uuid:".toList.length = 9 := by decide
      rw [List.length_map, List.length_take, hnine] at hlength
      omega
    have hlengths : (cs.length == 32) = false ∧ (cs.length == 36) = false ∧
        (cs.length == 38) = false := by
      simp only [beq_eq_false_iff_ne]
      omega
    obtain ⟨hplain, hgroups, hbraces⟩ := hlengths
    unfold digits?
    rw [hplain, hgroups, hbraces, hurn]
    rfl
  unfold parse?
  rw [hdigits]
  rfl

namespace Value

theorem length_toString (ch : Char) : ch.toString.toList.length = 1 := by simp [Char.toString]

@[simp] theorem cast_string_char (scales : TextScales) (ch : Char) :
    (char ch).cast scales .string = .str ch.toString := rfl

variable (scales : TextScales) (ch : Char)

/-- As a boolean a character is whether its code is not zero, and its text is false. -/
theorem cast_boolean_char_iff :
    (char ch).cast scales .boolean = (str ch.toString).cast scales .boolean ↔
      (Binary.doubleOfInt (Int64.ofNat ch.toNat).toInt != 0) = false := by
  have hother : Text.eqIgnoringCase ch.toString "true" = false := by
    rw [Bool.eq_false_iff]
    intro heq
    rw [Text.eqIgnoringCase_iff] at heq
    have hlength := congrArg (·.toList.length) heq
    have hfour : (Text.lowerAscii "true").toList.length = 4 := by decide +kernel
    simp only [Text.toList_lowerAscii, List.length_map, length_toString] at hlength hfour
    omega
  have htext : (str ch.toString).cast scales .boolean = .boolean false := by
    rw [← hother]
    rfl
  have hchar : (char ch).cast scales .boolean =
      .boolean (Binary.doubleOfInt (Int64.ofNat ch.toNat).toInt != 0) := rfl
  rw [htext, hchar, boolean.injEq]

theorem cast_date_char_ne : (char ch).cast scales .date ≠ (str ch.toString).cast scales .date := by
  have htext : (str ch.toString).cast scales .date = .null := by
    change ((Instant.parseDate? ch.toString).map date).getD .null = .null
    rw [Instant.parseDate?_of_length (Nat.le_of_eq (length_toString ch))]
    rfl
  rw [htext]
  exact Value.noConfusion

theorem cast_timestamp_char_ne :
    (char ch).cast scales .timestamp ≠ (str ch.toString).cast scales .timestamp := by
  have htext : (str ch.toString).cast scales .timestamp = .null := by
    change ((Instant.parsePartial? ch.toString).map timestamp).getD .null = .null
    rw [Instant.parsePartial?_of_length (Nat.le_of_eq (length_toString ch))]
    rfl
  rw [htext]
  exact Value.noConfusion

/-- Neither a character nor its text is a UUID. -/
theorem cast_uuid_char : (char ch).cast scales .uuid = (str ch.toString).cast scales .uuid := by
  have hshort : (String.ofList (Text.trim ch.toString.toList)).toList.length ≤ 1 := by
    rw [String.toList_ofList]
    exact Nat.le_trans (Text.length_trim_le _) (Nat.le_of_eq (length_toString ch))
  change .null = ((Uuid.parse? (String.ofList (Text.trim ch.toString.toList))).map uuid).getD .null
  rw [Uuid.parse?_of_length hshort]
  rfl

end Value

/-! ### Kernels -/

namespace Kernel

/-- Whether a kernel that asks for texts does with a character what it does with the text of it. A
comparison does where it is null for the character, and the other operand is null or no text. -/
def ReadsAsText (k : Kernel) (i : Nat) (values : List Value) : Prop :=
  match k with
  | equal _ | less _ =>
    k.apply values = .null ∧
      (values.any Value.isNull = true ∨ (values.getD (1 - i) .null).asStr? = none)
  | _ => False

theorem test_char_of_asStr? (holds : Ordering → Bool) (ch : Char) {v : Value}
    (h : v.asStr? ≠ none) :
    test holds (.char ch) v = .null ∧ test holds v (.char ch) = .null := by
  cases v <;> first | exact ⟨rfl, rfl⟩ | exact absurd rfl h

variable {values : List Value} {ch : Char} {i : Nat}

/-- With the text of one of its operands in the place of the character, a comparison is the same
exactly where it was null and stays null. -/
theorem test_set_text (holds : Ordering → Bool) (hi : i < 2)
    (hv : values[i]? = some (.char ch)) :
    let result (values : List Value) : Value :=
      if values.any Value.isNull then .null
      else test holds (values.getD 0 .null) (values.getD 1 .null)
    result (values.set i (.str ch.toString)) = result values ↔
      result values = .null ∧
        (values.any Value.isNull = true ∨ (values.getD (1 - i) .null).asStr? = none) := by
  intro result
  have hany : (values.set i (.str ch.toString)).any Value.isNull = values.any Value.isNull :=
    any_set hv rfl
  simp only [result, hany]
  cases hnull : values.any Value.isNull with
  | true => simp
  | false =>
    simp only [Bool.false_eq_true, if_false, false_or]
    -- The operand at the other place decides.
    have hplaces : ∃ other, values.getD (1 - i) .null = other ∧
        (test holds ((values.set i (.str ch.toString)).getD 0 .null)
            ((values.set i (.str ch.toString)).getD 1 .null) = .null ↔ other.asStr? = none) ∧
          (other.asStr? ≠ none →
            test holds (values.getD 0 .null) (values.getD 1 .null) = .null) := by
      match i, values, hi, hv with
      | 0, a :: rest, _, hv =>
        cases hv
        exact ⟨rest.getD 0 .null, rfl, (test_str_eq_null_iff holds _ _).1,
          fun h => (test_char_of_asStr? holds ch h).1⟩
      | 1, a :: b :: rest, _, hv =>
        cases hv
        exact ⟨a, rfl, (test_str_eq_null_iff holds _ _).2,
          fun h => (test_char_of_asStr? holds ch h).2⟩
    obtain ⟨other, hother, htext, hchar⟩ := hplaces
    rw [hother]
    constructor
    · intro hsame
      by_cases hnone : other.asStr? = none
      · exact ⟨hsame.symm.trans (htext.mpr hnone), hnone⟩
      · exact absurd (htext.mp (hsame.trans (hchar hnone))) hnone
    · rintro ⟨hnull, hnone⟩
      rw [htext.mpr hnone, hnull]

/-- A kernel that asks for a text does with the text of a character what it does with the character
exactly where it reads the character as text. -/
theorem apply_set_text {k : Kernel} (hk : .string ∈ k.operands) (hi : i < k.operands.length)
    (hv : values[i]? = some (.char ch)) :
    k.apply (values.set i (.str ch.toString)) = k.apply values ↔ k.ReadsAsText i values := by
  cases k with
  | arithmetic _ kind | negate kind | magnitude kind =>
    cases kind <;> exact absurd hk (by simp [operands, NumberKind.type, ColumnType.of])
  | conjunction | disjunction | negation => exact absurd hk (by decide)
  | equal comparand => exact test_set_text (· == .eq) hi hv
  | less comparand => exact test_set_text (· == .lt) hi hv
  | length =>
    obtain rfl := Nat.lt_one_iff.mp hi
    obtain ⟨rest, rfl⟩ := List.head?_eq_some_iff.mp (List.head?_eq_getElem?.trans hv)
    refine iff_of_false ?_ id
    have hone : Int32.ofNat (min 1 Int32.maxValue.toNatClampNeg) ≠ -1 := by decide
    simpa [apply, Value.asStr?] using hone
  | upper =>
    obtain rfl := Nat.lt_one_iff.mp hi
    obtain ⟨rest, rfl⟩ := List.head?_eq_some_iff.mp (List.head?_eq_getElem?.trans hv)
    exact iff_of_false Value.noConfusion id

end Kernel
end SqlResolution
