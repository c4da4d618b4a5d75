import Mathlib.Data.List.TakeWhile
import SqlResolution.Evaluator.Eval
import SqlResolution.Proofs.Instant.Format

/-!
# What a value adds to a concatenation

Each value adds a piece of text. That of a null is empty, and so is that of a value of a kind that
has no text as an argument, though the value is not null.
-/
namespace SqlResolution

open Binary

theorem Text.repr_ne_empty (n : Int) : n.repr ≠ "" := by
  cases n with
  | ofNat n => exact Nat.repr_ne_empty
  | negSucc n =>
    have hsign : Int.repr (.negSucc n) = "-" ++ Nat.repr (n + 1) := rfl
    simp [hsign]

/-- The last digit of a number stays, or the point with a zero. -/
theorem Decimal.dropTrailingZeros_ne_nil (cs : List Char) : dropTrailingZeros cs ≠ [] := by
  unfold dropTrailingZeros
  split
  · rename_i hpoint
    have hkept : (cs.reverse.dropWhile (· == '0')).reverse ≠ [] := by
      rw [ne_eq, List.reverse_eq_nil_iff, List.dropWhile_eq_nil_iff]
      exact fun hzeros => absurd (hzeros '.' (by simpa using hpoint)) (by decide)
    dsimp only
    split
    · exact List.append_ne_nil_of_left_ne_nil hkept _
    · exact hkept
  · exact List.append_ne_nil_of_right_ne_nil _ (by decide)

theorem Decimal.castText_ne_empty (places : Nat) (r : Reading) : castText places r ≠ "" := by
  cases r with
  | nan => simp [castText]
  | infinite negative => cases negative <;> simp [castText]
  | finite negative m q =>
    rw [castText, ne_eq, String.ofList_eq_empty_iff]
    exact dropTrailingZeros_ne_nil _

theorem Instant.format_ne_empty (places : Nat) (instant : Int64) : format places instant ≠ "" := by
  unfold format
  dsimp only
  split
  · simp
  · exact Text.repr_ne_empty _

namespace Value

variable {scales : TextScales} {v : Value}

/-- What a value adds to a concatenation. -/
def piece (scales : TextScales) (v : Value) : String :=
  if v.isNull then "" else (v.toText? scales).getD ""

/-- Whether a value is of a kind that has no text as an argument. -/
def lacksText : Value → Bool
  | binary _ | ipv4 _ | long128 _ | long256 _ | interval _ _ | geohash _ | array _ _ _ => true
  | _ => false

theorem concatenation_eq (scales : TextScales) (vs : List Value) :
    concatenation scales vs = String.join (vs.map (piece scales)) := rfl

@[simp] theorem piece_str (scales : TextScales) (s : String) : (str s).piece scales = s := rfl

/-- The kinds without text are those that give none, among them no null. -/
theorem toText?_eq_none_iff (hnull : v ≠ null) :
    v.toText? scales = none ↔ v.lacksText = true := by
  cases v <;> simp_all [toText?, asInt64?, lacksText]

theorem toText?_eq_empty_iff : v.toText? scales = some "" ↔ v = str "" := by
  cases v with
  | str s => simp [toText?]
  | char c => simp [toText?]
  | boolean b => cases b <;> simp [toText?]
  | double x => simp [toText?, Decimal.castText_ne_empty]
  | float x => simp [toText?, Decimal.castText_ne_empty]
  | date millis => simp [toText?, Instant.formatDate, Instant.format_ne_empty]
  | timestamp micros => simp [toText?, Instant.formatTimestamp, Instant.format_ne_empty]
  | uuid u => simp [toText?, text, Uuid.wordText, Uuid.words]
  | _ => simp [toText?, asInt64?, Text.repr_ne_empty]

/-- A value adds nothing where it is null or an empty text, or where it is of a kind that has no
text. -/
theorem piece_eq_empty_iff :
    v.piece scales = "" ↔ v.isNull = true ∨ v = str "" ∨ v.lacksText = true := by
  unfold piece
  cases hnull : v.isNull with
  | true => simp
  | false =>
    have hsome : v ≠ null := by
      rintro rfl
      cases hnull
    rw [← toText?_eq_empty_iff, ← toText?_eq_none_iff hsome]
    cases v.toText? scales <;> simp

end Value
end SqlResolution
