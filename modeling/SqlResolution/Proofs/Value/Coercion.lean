import SqlResolution.Proofs.Binary.Missing
import SqlResolution.Proofs.Evaluator.Conformance

/-!
# Numbers in the place of others

A kernel that asks for numbers of a kind reads an argument of a narrower type as it would read the
argument's cast. So do the sums. A comparison of doubles is the exception, where both operands are
whole numbers: these are compared as they are, and not after rounding.
-/
namespace SqlResolution

/-- Numbers and instants. -/
def TypeTag.isQuantity (t : TypeTag) : Bool := t.isNumeric || t.isTemporal

/-- The types whose values pass for numbers of a kind, short of the kind's own. -/
def NumberKind.narrower : NumberKind → List TypeTag
  | int => [.byte, .short]
  | long => [.byte, .short, .int, .date, .timestamp]
  | double => [.byte, .short, .int, .long, .float]

/-- An instant or another number passes for a number of a kind where its type is a narrower one. -/
theorem TypeTag.mem_narrower_iff (kind : NumberKind) {t : TypeTag} (ht : t.isQuantity = true) :
    t ∈ kind.narrower ↔ t ≠ kind.type.tag ∧ t.distance kind.type.tag ≠ noCoercion := by
  cases kind <;> cases t <;> first | decide | cases ht

theorem NumberKind.isQuantity_of_mem_narrower {kind : NumberKind} {t : TypeTag}
    (h : t ∈ kind.narrower) : t.isQuantity = true := by
  revert t
  cases kind <;> decide

namespace Value

open Binary

def isFloating : Value → Bool
  | float _ | double _ => true
  | _ => false

def isQuantity : Value → Bool
  | byte _ | short _ | int _ | long _ | date _ | timestamp _ | float _ | double _ => true
  | _ => false

/-- The order of two doubles, of which a NaN has none. -/
def orderDoubles? (x y : Float) : Option Ordering :=
  if x < y then some .lt else if x == y then some .eq else if y < x then some .gt else none

/-- A quantity is compared with another value by doubles where one of them is a floating-point
number, and by words otherwise. -/
theorem order?_of_quantity {a b : Value} (h : (a.isQuantity || b.isQuantity) = true) :
    a.order? b =
      if a.isFloating || b.isFloating then
        a.asDouble?.bind fun x => b.asDouble?.bind fun y => orderDoubles? x y
      else
        a.asInt64?.bind fun m => b.asInt64?.map fun n => compare m.toInt n.toInt := by
  cases a <;> cases b <;> first | rfl | cases h

/-- A whole number or an instant reads as a double through its word. -/
theorem asDouble?_of_not_isFloating {v : Value} (h : v.isFloating = false) :
    v.asDouble? = v.asInt64?.map fun n => doubleOfInt n.toInt := by
  cases v <;> first | rfl | cases h

/-- A missing number is no number to a running average. -/
theorem filter_asDouble?_of_isNull {v : Value} (h : v.isNull = true) :
    (v.asDouble?.filter fun x => !x.isNaN) = none := by
  cases v
  case null => rfl
  case double x =>
    have hnan : x.isNaN = true := h
    simp only [asDouble?, Option.filter_some, hnan, Bool.not_true, Bool.false_eq_true, if_false]
  case float x =>
    have hnan : (widen x).isNaN = true := (isNaN_widen x).trans h
    simp only [asDouble?, Option.filter_some, hnan, Bool.not_true, Bool.false_eq_true, if_false]
  all_goals cases h

/-- A value that is read like another where a number of a kind is asked for. A double may stand for
a whole number. -/
structure StandsFor (kind : NumberKind) (w v : Value) : Prop where
  isNull : w.isNull = v.isNull
  isQuantity : v.isNull = false → w.isQuantity = true ∧ v.isQuantity = true
  asInt64? : v.isNull = false → kind ≠ .double → w.asInt64? = v.asInt64?
  asDouble? : v.isNull = false → w.asDouble? = v.asDouble?
  isFloating : v.isNull = false → w.isFloating = (v.isFloating || kind == .double)

namespace StandsFor

variable {kind : NumberKind} {v w : Value}

/-- What stands for a missing number is missing too. -/
theorem of_isNull (hv : v.isNull = true) (hw : w.isNull = true) : w.StandsFor kind v where
  isNull := hw.trans hv.symm
  isQuantity h := by rw [hv] at h; cases h
  asInt64? h := by rw [hv] at h; cases h
  asDouble? h := by rw [hv] at h; cases h
  isFloating h := by rw [hv] at h; cases h

/-- Operands of the kind of number do alike in an operation. -/
theorem onNumbers? (h : w.StandsFor kind v) (hv : v.isNull = false) (op : Arithmetic) (u : Value) :
    Kernel.onNumbers? op kind w u = Kernel.onNumbers? op kind v u ∧
      Kernel.onNumbers? op kind u w = Kernel.onNumbers? op kind u v := by
  cases kind with
  | int =>
    have hword := h.asInt64? hv NumberKind.noConfusion
    simp only [Kernel.onNumbers?, asInt32?, hword, and_self]
  | long =>
    have hword := h.asInt64? hv NumberKind.noConfusion
    simp only [Kernel.onNumbers?, hword, and_self]
  | double => simp only [Kernel.onNumbers?, h.asDouble? hv, and_self]

theorem onNumber? (h : w.StandsFor kind v) (hv : v.isNull = false) (f : Int → Int)
    (g : Float → Float) : Kernel.onNumber? f g kind w = Kernel.onNumber? f g kind v := by
  cases kind with
  | int =>
    have hword := h.asInt64? hv NumberKind.noConfusion
    simp only [Kernel.onNumber?, Kernel.onInteger?, hword]
  | long =>
    have hword := h.asInt64? hv NumberKind.noConfusion
    simp only [Kernel.onNumber?, Kernel.onInteger?, hword]
  | double => simp only [Kernel.onNumber?, h.asDouble? hv]

/-- Operands are in the same order, unless a double stands for a whole number that is compared with
a whole number. -/
theorem order? (h : w.StandsFor kind v) (hv : v.isNull = false) (u : Value)
    (hwords : kind = .double → v.asInt64? = none ∨ u.asInt64? = none) :
    w.order? u = v.order? u ∧ u.order? w = u.order? v := by
  obtain ⟨hquantity, hquantity'⟩ := h.isQuantity hv
  have hfloating := h.isFloating hv
  have hdouble := h.asDouble? hv
  rw [order?_of_quantity (by simp [hquantity]), order?_of_quantity (by simp [hquantity']),
    order?_of_quantity (by simp [hquantity]), order?_of_quantity (by simp [hquantity']),
    hfloating, hdouble]
  by_cases hkind : kind = .double
  · cases hu : u.isFloating with
    | true => simp
    | false =>
      cases hvf : v.isFloating with
      | true => simp
      | false =>
        -- Two words are none: neither the doubles nor the words can be compared.
        obtain hnone | hnone := hwords hkind
        · simp [hkind, asDouble?_of_not_isFloating hvf, hnone]
        · simp [hkind, asDouble?_of_not_isFloating hu, hnone]
  · have hword := h.asInt64? hv hkind
    simp [hkind, hword]

theorem test (h : w.StandsFor kind v) (hv : v.isNull = false) (holds : Ordering → Bool) (u : Value)
    (hwords : kind = .double → v.asInt64? = none ∨ u.asInt64? = none) :
    Kernel.test holds w u = Kernel.test holds v u ∧
      Kernel.test holds u w = Kernel.test holds u v := by
  obtain ⟨hleft, hright⟩ := h.order? hv u hwords
  unfold Kernel.test
  rw [hleft, hright]
  exact ⟨rfl, rfl⟩

end StandsFor

/-! ### Casts -/

variable {scales : TextScales} {t : ColumnType} {v : Value}

/-- The word of a whole number or an instant is cast to a LONG. -/
theorem cast_long_of_word {n : Int64} (hv : v.isQuantity = true) (hn : v.asInt64? = some n) :
    v.cast scales .long = .long n := by
  cases v
  case float | double => cases hn
  case byte | short | int | long | date | timestamp =>
    cases hn
    rfl
  all_goals cases hv

theorem cast_double_of_word {n : Int64} (hv : v.isQuantity = true) (hn : v.asInt64? = some n) :
    v.cast scales .double = .double (doubleOfInt n.toInt) := by
  cases v
  case float | double => cases hn
  case byte | short | int | long | date | timestamp =>
    cases hn
    rfl
  all_goals cases hv

/-- A whole number that a 32-bit word holds is cast to an INT of the same number. -/
theorem cast_int_of_word {n : Int64} (hv : v.isQuantity = true) (hn : v.asInt64? = some n)
    (hfits : Int32.minValue.toInt ≤ n.toInt ∧ n.toInt ≤ Int32.maxValue.toInt) :
    ∃ m : Int32, v.cast scales .int = .int m ∧ m.toInt64 = n := by
  have hintegral : v.toIntegral? = some n ∧ v.isNull = false := by
    cases v
    case float | double => cases hn
    case byte | short | int | long | date | timestamp => exact ⟨hn, rfl⟩
    all_goals cases hv
  refine ⟨Int32.ofInt n.toInt, ?_, ?_⟩
  · have hbetween : v.toIntegralBetween? Int32.minValue.toInt Int32.maxValue.toInt =
        some n.toInt := by
      rw [toIntegralBetween?, hintegral.1, Option.map_some, Option.filter_some, if_pos]
      simpa only [Bool.and_eq_true, decide_eq_true_eq] using hfits
    simp only [cast, hintegral.2, Bool.false_eq_true, if_false, convert?, hbetween,
      Option.map_some, Option.getD_some]
  · rw [← Int64.toInt_inj, Int32.toInt_toInt64,
      Int32.toInt_ofInt_of_le hfits.1 (Int.lt_of_le_of_lt hfits.2 (by decide))]

theorem isQuantity_of_conformsTo (ht : t.tag.isQuantity = true) (hv : v.conformsTo t = true)
    (hnull : v.isNull = false) : v.isQuantity = true := by
  cases v
  case null => cases hnull
  case byte | short | int | long | date | timestamp | float | double => rfl
  all_goals
    simp only [conformsTo] at hv
    generalize t.tag = tag at ht hv
    cases tag <;>
      first | exact absurd ht Bool.false_ne_true | exact absurd hv Bool.false_ne_true

/-- Of the types that pass for another kind of number only FLOAT has floating-point values, and it
passes for a DOUBLE. -/
theorem float_of_isFloating {kind : NumberKind} (ht : t.tag ∈ kind.narrower)
    (hv : v.conformsTo t = true) (hfloating : v.isFloating = true) :
    kind = .double ∧ ∃ x, v = float x := by
  cases v
  case float x =>
    rw [eq_of_beq hv] at ht
    cases kind
    case double => exact ⟨rfl, x, rfl⟩
    all_goals exact absurd ht (by decide)
  case double x =>
    rw [eq_of_beq hv] at ht
    cases kind <;> exact absurd ht (by decide)
  all_goals cases hfloating

/-- A BYTE or a SHORT fits a 32-bit word. -/
theorem word_of_conformsTo {n : Int64} (ht : t.tag = .byte ∨ t.tag = .short)
    (hv : v.conformsTo t = true) (hn : v.asInt64? = some n) :
    Int32.minValue.toInt ≤ n.toInt ∧ n.toInt ≤ Int32.maxValue.toInt := by
  have hbounds : Int32.minValue.toInt = -2147483648 ∧ Int32.maxValue.toInt = 2147483647 := by
    decide
  rw [hbounds.1, hbounds.2]
  cases v
  case byte m =>
    cases hn
    have hlower := m.le_toInt
    have hupper := m.toInt_lt
    rw [Int8.toInt_toInt64]
    omega
  case short m =>
    cases hn
    have hlower := m.le_toInt
    have hupper := m.toInt_lt
    rw [Int16.toInt_toInt64]
    omega
  case char c =>
    obtain ht | ht := ht <;> rw [conformsTo, ht] at hv <;> exact absurd hv Bool.false_ne_true
  case int m | long m | date m | timestamp m =>
    obtain ht | ht := ht <;> rw [conformsTo, ht] at hv <;> exact absurd hv Bool.false_ne_true
  all_goals cases hn

/-- The cast of a value to the type of a kind of number stands for the value. -/
theorem standsFor_cast {kind : NumberKind} (ht : t.tag ∈ kind.narrower)
    (hv : v.conformsTo t = true) : (v.cast scales kind.type.tag).StandsFor kind v := by
  cases hnull : v.isNull with
  | true => exact .of_isNull hnull (by rw [cast, if_pos hnull]; rfl)
  | false =>
    have hquantity := isQuantity_of_conformsTo (NumberKind.isQuantity_of_mem_narrower ht) hv hnull
    cases hfloating : v.isFloating with
    | true =>
      obtain ⟨rfl, x, rfl⟩ := float_of_isFloating ht hv hfloating
      have hcast : (float x).cast scales NumberKind.double.type.tag = .double (widen x) := by
        rw [cast, hnull]
        rfl
      rw [hcast]
      exact ⟨isNaN_widen x, fun _ => ⟨rfl, rfl⟩, fun _ h => absurd rfl h, fun _ => rfl,
        fun _ => rfl⟩
    | false =>
      have hword : ∃ n, v.asInt64? = some n := by
        cases v
        case byte | short | int | long | date | timestamp => exact ⟨_, rfl⟩
        case float | double => cases hfloating
        all_goals cases hquantity
      obtain ⟨n, hn⟩ := hword
      have hdouble := asDouble?_of_not_isFloating hfloating
      rw [hn] at hdouble
      cases kind with
      | int =>
        obtain ⟨m, hcast, hm⟩ := @cast_int_of_word scales v n hquantity hn
          (word_of_conformsTo (by simpa [NumberKind.narrower] using ht) hv hn)
        change (v.cast scales .int).StandsFor _ v
        rw [hcast]
        refine ⟨hnull.symm, fun _ => ⟨rfl, hquantity⟩, fun _ _ => ?_, fun _ => ?_, fun _ => ?_⟩
        · rw [hn, ← hm]
          rfl
        · rw [hdouble, ← hm]
          rfl
        · rw [hfloating]
          rfl
      | long =>
        change (v.cast scales .long).StandsFor _ v
        rw [cast_long_of_word hquantity hn]
        refine ⟨hnull.symm, fun _ => ⟨rfl, hquantity⟩, fun _ _ => hn.symm, fun _ => hdouble.symm,
          fun _ => ?_⟩
        rw [hfloating]
        rfl
      | double =>
        change (v.cast scales .double).StandsFor _ v
        rw [cast_double_of_word hquantity hn]
        refine ⟨?_, fun _ => ⟨rfl, hquantity⟩, fun _ h => absurd rfl h, fun _ => hdouble.symm,
          fun _ => ?_⟩
        · rw [hnull]
          exact isNaN_doubleOfInt _
        · rw [hfloating]
          rfl

end Value

/-! ### Kernels and sums -/

def Comparand.numberKind? : Comparand → Option NumberKind
  | int => some .int
  | long => some .long
  | double => some .double
  | _ => none

namespace Kernel

/-- The kind of numbers that the kernel asks for, where it asks for numbers. -/
def numberKind? : Kernel → Option NumberKind
  | arithmetic _ kind | negate kind | magnitude kind => some kind
  | equal c | less c => c.numberKind?
  | _ => none

/-- Whether the kernel is a comparison. -/
def compares : Kernel → Bool
  | equal _ | less _ => true
  | _ => false

/-- Whether a comparison of doubles is given two words, which it compares as they are. -/
def comparesWords (k : Kernel) (values : List Value) : Bool :=
  k.compares && k.numberKind? == some .double && (values.getD 0 .null).asInt64?.isSome &&
    (values.getD 1 .null).asInt64?.isSome

/-- What a kernel that asks for numbers makes of operands of which none is null. -/
def onOperands (k : Kernel) (a b : Value) : Value :=
  match k with
  | arithmetic op kind => (onNumbers? op kind a b).getD .null
  | negate kind => (onNumber? (- ·) (- ·) kind a).getD .null
  | magnitude kind => (onNumber? (fun n => n.natAbs) Float.abs kind a).getD .null
  | equal _ => test (· == .eq) a b
  | less _ => test (· == .lt) a b
  | _ => .null

theorem apply_eq_onOperands {k : Kernel} {kind : NumberKind} (hk : k.numberKind? = some kind)
    (values : List Value) :
    k.apply values =
      if values.any Value.isNull then .null
      else k.onOperands (values.getD 0 .null) (values.getD 1 .null) := by
  cases k <;> first | rfl | cases hk

/-- A text is compared with texts alone. -/
theorem test_str_eq_null_iff (holds : Ordering → Bool) (s : String) (v : Value) :
    (test holds (.str s) v = .null ↔ v.asStr? = none) ∧
      (test holds v (.str s) = .null ↔ v.asStr? = none) := by
  cases v <;> simp [test, Value.order?, Value.asStr?, Value.asInt64?, Value.asDouble?]

variable {k : Kernel} {kind : NumberKind} {values : List Value} {i : Nat} {v w : Value}

theorem onOperands_standsFor (hk : k.numberKind? = some kind) (h : w.StandsFor kind v)
    (hv : v.isNull = false) (u : Value)
    (hwords : k.compares = true → kind = .double → v.asInt64? = none ∨ u.asInt64? = none) :
    k.onOperands w u = k.onOperands v u ∧ k.onOperands u w = k.onOperands u v := by
  cases k with
  | arithmetic op kind' =>
    cases hk
    obtain ⟨hleft, hright⟩ := h.onNumbers? hv op u
    simp only [onOperands, hleft, hright, and_self]
  | negate kind' | magnitude kind' =>
    cases hk
    simp only [onOperands, h.onNumber? hv, and_self]
  | equal c | less c =>
    simp only [onOperands]
    exact h.test hv _ u (hwords rfl)
  | _ => cases hk

theorem any_set {α : Type} {f : α → Bool} {as : List α} {a a' : α} (ha : as[i]? = some a)
    (hf : f a' = f a) : (as.set i a').any f = as.any f := by
  induction as generalizing i with
  | nil => rfl
  | cons b as ih =>
    cases i with
    | zero =>
      cases ha
      simp [hf]
    | succ i => simp [ih ha]

/-- A kernel does alike with a value that stands for its argument. -/
theorem apply_set (hk : k.numberKind? = some kind) (hv : values[i]? = some v)
    (h : w.StandsFor kind v) (hwords : k.comparesWords values = false) :
    k.apply (values.set i w) = k.apply values := by
  rw [apply_eq_onOperands hk, apply_eq_onOperands hk, any_set hv h.isNull]
  cases hnull : values.any Value.isNull with
  | true => rfl
  | false =>
    have hvnull : v.isNull = false := by
      rw [List.any_eq_false] at hnull
      simpa using hnull v (List.mem_of_getElem? hv)
    rw [if_neg Bool.false_ne_true, if_neg Bool.false_ne_true]
    have hnone : k.compares = true → kind = .double →
        (values.getD 0 .null).asInt64? = none ∨ (values.getD 1 .null).asInt64? = none := by
      rintro hcompares rfl
      simp only [comparesWords, hcompares, hk, BEq.rfl, Bool.and_self, Bool.true_and,
        Bool.and_eq_false_iff, Option.isSome_eq_false_iff, Option.isNone_iff_eq_none] at hwords
      exact hwords
    match i, values with
    | _, [] => cases hv
    | 0, a :: rest =>
      cases hv
      exact (onOperands_standsFor hk h hvnull (rest.getD 0 .null) hnone).1
    | 1, [a] => cases hv
    | 1, a :: b :: rest =>
      cases hv
      exact (onOperands_standsFor hk h hvnull a fun hcompares hdouble =>
        (hnone hcompares hdouble).symm).2
    | j + 2, [a] => rfl
    | j + 2, a :: b :: rest => rfl

end Kernel

/-- A sum adds what stands for a value as it adds the value. -/
theorem Sums.add_standsFor {which : Total} {kind : NumberKind} {v w : Value}
    (hkind : kind.type = if which == .longSum then .long else .double) (h : w.StandsFor kind v)
    (s : Sums) : s.add which w = s.add which v := by
  unfold add
  rw [h.isNull]
  cases hnull : v.isNull with
  | true => rfl
  | false =>
    cases which with
    | longSum =>
      have hlong : kind ≠ .double := by
        rintro rfl
        cases hkind
      simp only [h.asInt64? hnull hlong]
    | doubleSum | average => simp only [h.asDouble? hnull]

/-- A running average counts what stands for a value as it counts the value. -/
theorem Value.StandsFor.filter_asDouble? {kind : NumberKind} {v w : Value}
    (h : w.StandsFor kind v) :
    (w.asDouble?.filter fun x => !x.isNaN) = v.asDouble?.filter fun x => !x.isNaN := by
  cases hnull : v.isNull with
  | true =>
    rw [filter_asDouble?_of_isNull hnull, filter_asDouble?_of_isNull (h.isNull.trans hnull)]
  | false => rw [h.asDouble? hnull]

end SqlResolution
