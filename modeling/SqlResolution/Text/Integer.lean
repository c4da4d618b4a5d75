/-!
# Decimal integers

Reading an optional sign and at least one ASCII digit, and nothing else. A reader for a range
refuses a number outside it.
-/
namespace SqlResolution.Text

/-- The digits' number, most significant first, continued from `acc`. -/
def digitsValue (acc : Nat) (cs : List Char) : Nat :=
  cs.foldl (fun n c => n * 10 + (c.toNat - '0'.toNat)) acc

/-- One or more ASCII digits. -/
def readNat? (cs : List Char) : Option Nat :=
  if cs.isEmpty || !cs.all Char.isDigit then none else some (digitsValue 0 cs)

/-- Digits with an optional sign. -/
def readInt? : List Char → Option Int
  | '-' :: cs => (readNat? cs).map fun n => -(n : Int)
  | '+' :: cs => (readNat? cs).map Int.ofNat
  | cs => (readNat? cs).map Int.ofNat

/-- A signed integer of `lo` to `hi`. -/
def readIntBetween? (lo hi : Int) (cs : List Char) : Option Int :=
  (readInt? cs).filter fun n => lo ≤ n && n ≤ hi

/-- An unsigned integer of at most `hi`; a plus sign is allowed and a minus sign is not. -/
def readNatUpTo? (hi : Nat) : List Char → Option Nat
  | '+' :: cs => (readNat? cs).filter (· ≤ hi)
  | cs => (readNat? cs).filter (· ≤ hi)

/-- An integer that a signed 32-bit word holds. -/
def readInt32? (cs : List Char) : Option Int32 :=
  (readIntBetween? Int32.minValue.toInt Int32.maxValue.toInt cs).map Int32.ofInt

/-- An integer that a signed 64-bit word holds. -/
def readInt64? (cs : List Char) : Option Int64 :=
  (readIntBetween? Int64.minValue.toInt Int64.maxValue.toInt cs).map Int64.ofInt

theorem readNat?_eq_some_iff (cs : List Char) (n : Nat) :
    readNat? cs = some n ↔ cs ≠ [] ∧ (∀ c ∈ cs, c.isDigit) ∧ digitsValue 0 cs = n := by
  unfold readNat?
  split
  · rename_i h
    rcases Bool.or_eq_true _ _ ▸ h with h | h
    · simp [List.isEmpty_iff.mp h]
    · have : ∃ c ∈ cs, c.isDigit = false := by simpa using h
      obtain ⟨c, hc, hd⟩ := this
      simp only [reduceCtorEq, false_iff, not_and]
      intro _ hall
      simp [hall c hc] at hd
  · rename_i h
    have : cs ≠ [] ∧ ∀ c ∈ cs, c.isDigit := by simpa [not_or] using h
    simp only [Option.some.injEq, ne_eq, this.1, not_false_eq_true, true_and]
    exact ⟨fun h => ⟨this.2, h⟩, fun h => h.2⟩

end SqlResolution.Text
