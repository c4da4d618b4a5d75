import SqlResolution.Proofs.Decimal.Integer
import SqlResolution.Proofs.Literal.Number

/-!
# Integer literals

A numeral is digits with a sign or none. As a token it takes the narrowest type that holds its
number: INT, else LONG, else DOUBLE. With an `L` after it, it is a LONG or nothing.
-/
namespace SqlResolution.Literal

open Text

/-! ### Numerals -/

inductive Sign where
  | none
  | plus
  | minus
  deriving DecidableEq, Repr

/-- Digits, with zeros before them or not, after a sign or none. -/
structure Numeral where
  sign : Sign
  digits : List Char
  ne_nil : digits ≠ []
  isDigit : ∀ c ∈ digits, c.isDigit = true

/-- An integer that an INT holds. -/
def FitsInt (n : Int) : Prop := -2147483648 ≤ n ∧ n < 2147483648

/-- An integer that a LONG holds. -/
def FitsLong (n : Int) : Prop := -9223372036854775808 ≤ n ∧ n < 9223372036854775808

instance (n : Int) : Decidable (FitsInt n) := inferInstanceAs (Decidable (_ ∧ _))

instance (n : Int) : Decidable (FitsLong n) := inferInstanceAs (Decidable (_ ∧ _))

/-- The constant of an integer in the first of INT, LONG and DOUBLE that holds it. -/
def narrowest (n : Int) : Evaluator :=
  if FitsInt n then .constant .int (.int (Int32.ofInt n))
  else if FitsLong n then .constant .long (.long (Int64.ofInt n))
  else .constant .double (.double (Binary.doubleOfInt n))

namespace Numeral

def text (w : Numeral) : List Char :=
  match w.sign with
  | .none => w.digits
  | .plus => '+' :: w.digits
  | .minus => '-' :: w.digits

/-- The number that the digits stand for. -/
def magnitude (w : Numeral) : Nat := Nat.ofDigitChars 10 w.digits 0

def value (w : Numeral) : Int :=
  match w.sign with
  | .minus => -(w.magnitude : Int)
  | _ => w.magnitude

theorem magnitude_eq (w : Numeral) : w.magnitude = digitsValue 0 w.digits :=
  (digitsValue_eq 0 w.digits).symm

theorem readInt?_text (w : Numeral) : readInt? w.text = some w.value := by
  have hnat : readNat? w.digits = some w.magnitude := by
    rw [readNat?_eq_some_iff, magnitude_eq]
    exact ⟨w.ne_nil, w.isDigit, rfl⟩
  unfold text value
  cases w.sign with
  | none => simp [readInt?_of_digits w.isDigit, hnat]
  | plus => simp [readInt?, hnat]
  | minus => simp [readInt?, hnat]

theorem exists_head (w : Numeral) : ∃ c cs, w.text = c :: cs ∧
    (c.isDigit = true ∨ c = '+' ∨ c = '-') := by
  unfold text
  cases w.sign with
  | none =>
    obtain ⟨c, cs, hdigits⟩ := List.exists_cons_of_ne_nil w.ne_nil
    exact ⟨c, cs, hdigits, .inl (w.isDigit c (by simp [hdigits]))⟩
  | plus => exact ⟨'+', w.digits, rfl, .inr (.inl rfl)⟩
  | minus => exact ⟨'-', w.digits, rfl, .inr (.inr rfl)⟩

theorem looksNumeric_text (w : Numeral) : looksNumeric w.text = true := by
  obtain ⟨c, cs, hdigits⟩ := List.exists_cons_of_ne_nil w.ne_nil
  have hall := w.isDigit
  rw [hdigits, List.forall_mem_cons] at hall
  obtain ⟨hc, hcs⟩ := hall
  have hminus := ne_of_isDigit hc (by decide : '-'.isDigit = false)
  have hplus := ne_of_isDigit hc (by decide : '+'.isDigit = false)
  unfold text looksNumeric
  rw [hdigits]
  cases w.sign with
  | none => simp +contextual [hc, hminus, hplus, hcs]
  | plus => simp +contextual [hc, hcs]
  | minus => simp +contextual [hc, hcs]

/-- Read as a double, a numeral is the one nearest to its number. -/
theorem readDouble?_text (w : Numeral) (h : w.value ≠ 0) :
    Decimal.readDouble? w.text = some (Binary.doubleOfInt w.value) := by
  have hmagnitude : digitsValue 0 w.digits ≠ 0 := by
    intro hzero
    apply h
    unfold value
    split
    all_goals simp [magnitude_eq, hzero]
  unfold text value
  rw [magnitude_eq]
  cases w.sign with
  | none => exact Decimal.readDouble?_digits w.ne_nil w.isDigit hmagnitude
  | plus => exact Decimal.readDouble?_plus w.ne_nil w.isDigit hmagnitude
  | minus => exact Decimal.readDouble?_minus w.ne_nil w.isDigit hmagnitude

/-! ### Reading a numeral -/

theorem readIntBetween?_text (w : Numeral) (lo hi : Int) : readIntBetween? lo hi w.text =
    if lo ≤ w.value ∧ w.value ≤ hi then some w.value else none := by
  simp [readIntBetween?, readInt?_text, Option.filter_some]

theorem readInt32?_text (w : Numeral) : readInt32? w.text =
    if FitsInt w.value then some (Int32.ofInt w.value) else none := by
  have hrange : (Int32.minValue.toInt ≤ w.value ∧ w.value ≤ Int32.maxValue.toInt) ↔
      FitsInt w.value := by
    change (-2147483648 ≤ w.value ∧ w.value ≤ 2147483647) ↔ _
    unfold FitsInt
    omega
  simp only [readInt32?, readIntBetween?_text, hrange]
  split
  · rfl
  · rfl

theorem readInt64?_text (w : Numeral) : readInt64? w.text =
    if FitsLong w.value then some (Int64.ofInt w.value) else none := by
  have hrange : (Int64.minValue.toInt ≤ w.value ∧ w.value ≤ Int64.maxValue.toInt) ↔
      FitsLong w.value := by
    change (-9223372036854775808 ≤ w.value ∧ w.value ≤ 9223372036854775807) ↔ _
    unfold FitsLong
    omega
  simp only [readInt64?, readIntBetween?_text, hrange]
  split
  · rfl
  · rfl

theorem exists_last (w : Numeral) : ∃ cs c, w.text = cs ++ [c] ∧ c.isDigit = true := by
  have hlast := List.dropLast_concat_getLast w.ne_nil
  have hdigit := w.isDigit _ (List.getLast_mem w.ne_nil)
  unfold text
  cases w.sign with
  | none => exact ⟨_, _, hlast.symm, hdigit⟩
  | plus => exact ⟨'+' :: _, _, congrArg ('+' :: ·) hlast.symm, hdigit⟩
  | minus => exact ⟨'-' :: _, _, congrArg ('-' :: ·) hlast.symm, hdigit⟩

theorem withoutSuffix?_text (w : Numeral) : withoutSuffix? 'L' 'l' w.text = none := by
  obtain ⟨cs, c, htext, hc⟩ := w.exists_last
  rw [htext]
  exact withoutSuffix?_of_ne (ne_of_isDigit hc rfl) (ne_of_isDigit hc rfl) cs

theorem number?_text (w : Numeral) : number? w.text = some (narrowest w.value) := by
  have hsuffix := w.withoutSuffix?_text
  unfold number? narrowest
  simp only [hsuffix, Option.getD_none, readInt32?_text, readInt64?_text]
  by_cases hint : FitsInt w.value
  · simp [hint]
  · by_cases hlong : FitsLong w.value
    · simp [hint, hlong]
    · have hzero : w.value ≠ 0 := by
        intro hzero
        apply hint
        rw [hzero]
        decide
      simp [hint, hlong, looksNumeric_text, readDouble?_text w hzero]

/-- With a suffix a numeral is a LONG or no number. -/
theorem number?_suffixed (w : Numeral) {suffix : Char} (h : suffix = 'L' ∨ suffix = 'l') :
    number? (w.text ++ [suffix]) =
      if FitsLong w.value then some (.constant .long (.long (Int64.ofInt w.value)))
      else none := by
  have hmem : suffix ∈ w.text ++ [suffix] := by simp
  have hlong := withoutSuffix?_concat h w.text
  have hread : readInt? (w.text ++ [suffix]) = none ∧ looksNumeric (w.text ++ [suffix]) = false ∧
      withoutSuffix? 'f' 'F' (w.text ++ [suffix]) = none := by
    obtain rfl | rfl := h
    all_goals exact ⟨readInt?_of_mem hmem rfl (by decide) (by decide),
      looksNumeric_of_mem hmem rfl, withoutSuffix?_of_ne (by decide) (by decide) w.text⟩
  obtain ⟨hint, hdouble, hfloat⟩ := hread
  unfold number?
  simp only [hlong, hdouble, hfloat, readInt32?, readIntBetween?, hint, Option.getD_some,
    readInt64?_text]
  split
  · rfl
  · rfl

/-! ### Tokens that start with a numeral -/

theorem notMem_text (w : Numeral) {x : Char} (hdigit : x.isDigit = false) (hplus : x ≠ '+')
    (hminus : x ≠ '-') : x ∉ w.text := by
  have hdigits : x ∉ w.digits := fun hmem => ne_of_isDigit (w.isDigit x hmem) hdigit rfl
  unfold text
  cases w.sign with
  | none => exact hdigits
  | plus => simp [hplus, hdigits]
  | minus => simp [hminus, hdigits]

/-- What starts as a numeral is a number or is rejected. -/
theorem parse_append (w : Numeral) {token : String} {rest : List Char}
    (htoken : token.toList = w.text ++ rest) (hsmall : 'x' ∉ rest) (hlarge : 'X' ∉ rest)
    (span : Span) : parse span token = match number? (w.text ++ rest) with
      | some e => .ok e
      | none => .error (.invalidConstant token span) := by
  obtain ⟨c, cs, htext, hc⟩ := w.exists_head
  have hhead : isBlank c = false ∧ c.isAlpha = false ∧ c ≠ '\'' ∧ c ≠ '"' ∧ c ≠ '#' := by
    obtain hc | rfl | rfl := hc
    · exact ⟨isBlank_of_isDigit hc, isAlpha_of_isDigit hc, ne_of_isDigit hc rfl,
        ne_of_isDigit hc rfl, ne_of_isDigit hc rfl⟩
    · decide
    · decide
  obtain ⟨hblank, halpha, hsingle, hdouble, hmark⟩ := hhead
  have hgeohash : Geohash.parseLiteral? (w.text ++ rest) = none := by
    rw [htext, List.cons_append]
    unfold Geohash.parseLiteral?
    split
    · rename_i hhash
      exact absurd (List.cons.inj hhash).1 hmark
    · rename_i hhash
      exact absurd (List.cons.inj hhash).1 hmark
    · rfl
  have hlong256 : long256 (w.text ++ rest) = .ok none := by
    apply long256_of_notMem
    · simp [w.notMem_text, hsmall]
    · simp [w.notMem_text, hlarge]
  have hbits : bits token.toList = .ok none := by
    rw [htoken, bits, hgeohash, hlong256]
    rfl
  have hstart : token.toList = c :: (cs ++ rest) := by rw [htoken, htext, List.cons_append]
  rw [parse_of_head hstart hblank halpha hsingle hdouble hbits, htoken]
  cases number? (w.text ++ rest) with
  | some e => rfl
  | none => rfl

def token (w : Numeral) : String := String.ofList w.text

theorem parse_token (span : Span) (w : Numeral) :
    parse span w.token = .ok (narrowest w.value) := by
  have htoken : w.token.toList = w.text ++ [] := by
    rw [token, String.toList_ofList, List.append_nil]
  rw [w.parse_append htoken (by simp) (by simp), List.append_nil, number?_text]

theorem parse_suffixed (span : Span) (w : Numeral) {suffix : Char}
    (h : suffix = 'L' ∨ suffix = 'l') : parse span (w.token.push suffix) =
      if FitsLong w.value then .ok (.constant .long (.long (Int64.ofInt w.value)))
      else .error (.invalidConstant (w.token.push suffix) span) := by
  have htoken : (w.token.push suffix).toList = w.text ++ [suffix] := by
    rw [String.toList_push, token, String.toList_ofList]
  have hletter : 'x' ≠ suffix ∧ 'X' ≠ suffix := by
    obtain rfl | rfl := h
    · decide
    · decide
  rw [w.parse_append htoken (by simp [hletter]) (by simp [hletter]), number?_suffixed w h]
  by_cases hlong : FitsLong w.value
  · simp [hlong]
  · simp [hlong]

end Numeral

theorem toInt_ofInt32 {n : Int} (h : FitsInt n) : (Int32.ofInt n).toInt = n :=
  Int32.toInt_ofInt_of_le h.1 h.2

theorem toInt_ofInt64 {n : Int} (h : FitsLong n) : (Int64.ofInt n).toInt = n :=
  Int64.toInt_ofInt_of_le h.1 h.2

/-- A numeral is an INT, a LONG or a DOUBLE constant by the range of its number, which an INT and a
LONG keep, and to which the DOUBLE is the nearest. With a suffix it is a LONG constant of its
number, or is rejected where a LONG does not hold it. -/
theorem parse_numeral (span : Span) (w : Numeral) :
    ((∃ n : Int32, parse span w.token = .ok (.constant .int (.int n)) ∧ n.toInt = w.value) ↔
      FitsInt w.value) ∧
    ((∃ n : Int64, parse span w.token = .ok (.constant .long (.long n)) ∧ n.toInt = w.value) ↔
      ¬FitsInt w.value ∧ FitsLong w.value) ∧
    (parse span w.token =
        .ok (.constant .double (.double (Binary.doubleOfInt w.value))) ↔ ¬FitsLong w.value) ∧
    ∀ suffix : Char, suffix = 'L' ∨ suffix = 'l' →
      ((∃ n : Int64, parse span (w.token.push suffix) = .ok (.constant .long (.long n)) ∧
        n.toInt = w.value) ↔ FitsLong w.value) ∧
      (parse span (w.token.push suffix) = .error (.invalidConstant (w.token.push suffix) span) ↔
        ¬FitsLong w.value) := by
  have hwide : FitsInt w.value → FitsLong w.value := by
    unfold FitsInt FitsLong
    omega
  refine ⟨?_, ?_, ?_, ?suffixed⟩
  case suffixed =>
    intro suffix hsuffix
    rw [w.parse_suffixed span hsuffix]
    by_cases hlong : FitsLong w.value
    · simp [hlong, toInt_ofInt64 hlong]
    · simp [hlong]
  all_goals
    rw [w.parse_token, narrowest]
    by_cases hint : FitsInt w.value
    · simp [hint, hwide hint, toInt_ofInt32 hint]
    · by_cases hlong : FitsLong w.value
      · simp [hint, hlong, toInt_ofInt64 hlong]
      · simp [hint, hlong]

/-- The least LONG, with a zero before its digits. -/
def leastLong : Numeral where
  sign := .minus
  digits := '0' :: Nat.toDigits 10 9223372036854775808
  ne_nil := List.cons_ne_nil _ _
  isDigit := List.all_eq_true.mp (by decide)

theorem parse_numeral_leastLong : ('l' = 'L' ∨ 'l' = 'l') ∧
    leastLong.token.push 'l' = "-09223372036854775808l" ∧ FitsLong leastLong.value ∧
    ∃ n : Int64, parse .none (leastLong.token.push 'l') = .ok (.constant .long (.long n)) ∧
      n.toInt = leastLong.value := by
  have hsuffix : 'l' = 'L' ∨ 'l' = 'l' := .inr rfl
  have hlong : FitsLong leastLong.value := by decide
  have hparse := (parse_numeral .none leastLong).2.2.2 'l' hsuffix
  exact ⟨hsuffix, by decide, hlong, hparse.1.mpr hlong⟩

end SqlResolution.Literal
