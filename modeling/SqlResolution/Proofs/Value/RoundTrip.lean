import SqlResolution.Proofs.Instant.Date
import SqlResolution.Proofs.Instant.Timestamp
import SqlResolution.Proofs.Uuid
import SqlResolution.Value.Convert

/-!
# Values cast to text and back

A cast to text writes a value, and the cast of the text to the type of the value reads it. Truth
values, integers, characters and UUIDs come back, and so do dates and timestamps in a year with four
digits.
-/
namespace SqlResolution.Value

open Instant

/-- The types of text. -/
def textTypes : List TypeTag := [.string, .varchar, .symbol]

/-- The types whose values come back from text. -/
def writtenTypes : List TypeTag :=
  [.boolean, .byte, .short, .int, .long, .char, .uuid, .date, .timestamp]

/-- Dates and timestamps are to be in a year with four digits. -/
def HasPlainYear : Value → Prop
  | date millis => ∃ d, LiesOn 3 millis d ∧ HasFourDigits d.year
  | timestamp micros => ∃ d, LiesOn 6 micros d ∧ HasFourDigits d.year
  | _ => True

variable {S T : TypeTag} {scales : TextScales} {v : Value} {s : String}

theorem cast_text (hS : S ∈ textTypes) (hnull : v.isNull = false)
    (htext : v.toText? scales = some s) : v.cast scales S = .str s := by
  simp only [textTypes, List.mem_cons, List.not_mem_nil, or_false] at hS
  obtain rfl | rfl | rfl := hS <;> simp [cast, hnull, convert?, htext]

/-- A value comes back from the text that reads as it. -/
theorem cast_cast_of_text (hS : S ∈ textTypes) (hnull : v.isNull = false)
    (htext : v.toText? scales = some s) (hread : (str s).convert? scales T = some v) :
    (v.cast scales S).cast scales T = v := by
  rw [cast_text hS hnull htext, cast, hread]
  rfl

theorem text_uuid (u : BitVec 128) : (uuid u).text = Uuid.text u := by
  rw [text, Uuid.wordText_eq]

/-! ### Integers -/

theorem toIntegral?_repr (n : Int64) : (str n.toInt.repr).toIntegral? = some n := by
  have hplain : ∀ c ∈ n.toInt.repr.toList, Text.isBlank c = false := by
    by_cases hneg : n.toInt < 0
    · rw [Text.toList_repr_of_neg hneg]
      exact List.forall_mem_cons.mpr
        ⟨by decide, fun c hc => Text.isBlank_of_isDigit (Text.isDigit_of_mem_toDigits hc)⟩
    · rw [Text.toList_repr_of_nonneg (Int.not_lt.mp hneg)]
      exact fun c hc => Text.isBlank_of_isDigit (Text.isDigit_of_mem_toDigits hc)
  change Text.readInt64? (Text.trim n.toInt.repr.toList) = some n
  rw [(Text.isTrimmed_of_forall hplain).trim, Text.readInt64?_repr]

theorem toIntegralBetween?_repr {lo hi : Int} {n : Int64} (hlo : lo ≤ n.toInt)
    (hhi : n.toInt ≤ hi) : (str n.toInt.repr).toIntegralBetween? lo hi = some n.toInt := by
  rw [toIntegralBetween?, toIntegral?_repr, Option.map_some, Option.filter_some]
  simp [hlo, hhi]

/-! ### Every type -/

/-- A value that is cast to text and back is the value. -/
theorem cast_cast (hS : S ∈ textTypes) (hT : T ∈ writtenTypes) (hv : v.conformsTo (.of T) = true)
    (hnull : v.isNull = false) (hyear : v.HasPlainYear) (scales : TextScales) :
    (v.cast scales S).cast scales T = v := by
  cases v with
  | null => cases hnull
  | boolean b =>
    obtain rfl : T = .boolean := eq_of_beq hv
    refine cast_cast_of_text hS hnull rfl ?_
    have htrue : Text.eqIgnoringCase "true" "true" = true := by decide +kernel
    have hfalse : Text.eqIgnoringCase "false" "true" = false := by decide +kernel
    cases b <;> simp [convert?, toBoolean?, htrue, hfalse]
  | byte n =>
    obtain rfl : T = .byte := eq_of_beq hv
    have hn : n.toInt64.toInt = n.toInt := n.toInt_toInt64
    refine cast_cast_of_text hS hnull rfl ?_
    rw [convert?, toIntegralBetween?_repr (hn ▸ n.minValue_le_toInt) (hn ▸ n.toInt_le), hn,
      Option.map_some, Int8.ofInt_toInt]
  | short n =>
    obtain rfl : T = .short := eq_of_beq hv
    have hn : n.toInt64.toInt = n.toInt := n.toInt_toInt64
    refine cast_cast_of_text hS hnull rfl ?_
    rw [convert?, toIntegralBetween?_repr (hn ▸ n.minValue_le_toInt) (hn ▸ n.toInt_le), hn,
      Option.map_some, Int16.ofInt_toInt]
  | int n =>
    obtain rfl : T = .int := eq_of_beq hv
    have hn : n.toInt64.toInt = n.toInt := n.toInt_toInt64
    refine cast_cast_of_text hS hnull rfl ?_
    rw [convert?, toIntegralBetween?_repr (hn ▸ n.minValue_le_toInt) (hn ▸ n.toInt_le), hn,
      Option.map_some, Int32.ofInt_toInt]
  | long n =>
    obtain rfl : T = .long := eq_of_beq hv
    refine cast_cast_of_text hS hnull rfl ?_
    rw [convert?, toIntegral?_repr, Option.map_some]
  | char c =>
    obtain rfl : T = .char := eq_of_beq hv
    refine cast_cast_of_text hS hnull rfl ?_
    simp [convert?, toChar?, Char.toString]
  | date millis =>
    obtain rfl : T = .date := eq_of_beq hv
    obtain ⟨d, hlies, hdigits⟩ := hyear
    refine cast_cast_of_text hS hnull rfl ?_
    rw [convert?, toDate?, parseDate?_formatDate hlies hdigits, Option.map_some]
  | timestamp micros =>
    obtain rfl : T = .timestamp := eq_of_beq hv
    obtain ⟨d, hlies, hdigits⟩ := hyear
    refine cast_cast_of_text hS hnull rfl ?_
    rw [convert?, toTimestamp?, parsePartial?_of_fourDigits hlies hdigits, Option.map_some]
  | uuid u =>
    obtain rfl : T = .uuid := eq_of_beq hv
    refine cast_cast_of_text hS hnull rfl ?_
    rw [convert?, toUuid?, text_uuid, Uuid.trim_text, String.ofList_toList, Uuid.parse?_text, Option.map_some]
  | _ =>
    -- The other kinds of value are of none of the types.
    simp only [writtenTypes, List.mem_cons, List.not_mem_nil, or_false] at hT
    obtain rfl | rfl | rfl | rfl | rfl | rfl | rfl | rfl | rfl := hT <;> cases hv

end SqlResolution.Value
