/-!
# Traits

What an evaluator tells the resolver about itself, as a set of flags with a code of one bit each.
-/
namespace SqlResolution

structure Traits where
  /-- The value is fixed at resolution and may be folded. -/
  constant : Bool
  /-- The value is fixed for one execution. -/
  runtimeConstant : Bool
  /-- The value may differ between evaluations of one row. -/
  nonDeterministic : Bool
  /-- Results may be kept for a row. -/
  memoize : Bool
  /-- There is state beside the value, so it is never folded. -/
  extendedOps : Bool
  /-- The evaluator is a type name, such as a cast's target. -/
  typeConstant : Bool
  /-- The evaluator is an array literal, which may become a constant. -/
  arrayLiteral : Bool
  /-- The evaluator is an adapter that the resolver put in. -/
  implicitCast : Bool
  deriving DecidableEq, Repr, Inhabited

namespace Traits

def none : Traits := ⟨false, false, false, false, false, false, false, false⟩

/-- The flags in the order of their bits. -/
def flags (t : Traits) : List Bool :=
  [t.constant, t.runtimeConstant, t.nonDeterministic, t.memoize, t.extendedOps, t.typeConstant,
    t.arrayLiteral, t.implicitCast]

def code (t : Traits) : Nat := t.flags.foldr (fun b n => n * 2 + b.toNat) 0

/-- The flags of a code. Bits that belong to no flag are dropped. -/
def ofCode (n : Nat) : Traits :=
  ⟨n.testBit 0, n.testBit 1, n.testBit 2, n.testBit 3, n.testBit 4, n.testBit 5, n.testBit 6,
    n.testBit 7⟩

def isConstantOrRuntimeConstant (t : Traits) : Bool := t.constant || t.runtimeConstant

/-- What an evaluator over one argument keeps of the argument's traits. -/
def determinacy (t : Traits) : Traits :=
  { none with
    constant := t.constant
    runtimeConstant := t.runtimeConstant
    nonDeterministic := t.nonDeterministic }

/-- What a function inherits from its arguments: it is constant when all are, a runtime constant
when all are at least that, and non-deterministic when any is. Without arguments it is none of
these. -/
def inherited (args : List Traits) : Traits :=
  if args.isEmpty then none
  else
    let allConstant := args.all (·.constant)
    { none with
      constant := allConstant
      runtimeConstant := !allConstant && args.all (·.isConstantOrRuntimeConstant)
      nonDeterministic := args.any (·.nonDeterministic) }

section Inherited

variable (ts : List Traits)

theorem constant_inherited :
    (inherited ts).constant = (!ts.isEmpty && ts.all (·.constant)) := by
  cases ts with
  | nil => rfl
  | cons t ts => rfl

/-- A constant is more than a runtime constant, so mixtures of both are runtime constants. -/
theorem isConstantOrRuntimeConstant_inherited :
    (inherited ts).isConstantOrRuntimeConstant =
      (!ts.isEmpty && ts.all (·.isConstantOrRuntimeConstant)) := by
  cases ts with
  | nil => rfl
  | cons t ts =>
    change ((t :: ts).all (·.constant) ||
      (!(t :: ts).all (·.constant) && (t :: ts).all (·.isConstantOrRuntimeConstant))) =
        (t :: ts).all (·.isConstantOrRuntimeConstant)
    cases hconstants : (t :: ts).all (·.constant) with
    | false => rfl
    | true =>
      have hruntime : (t :: ts).all (·.isConstantOrRuntimeConstant) = true := by
        rw [List.all_eq_true] at hconstants ⊢
        intro t' ht'
        rw [isConstantOrRuntimeConstant, hconstants t' ht', Bool.true_or]
      rw [hruntime]
      rfl

theorem nonDeterministic_inherited :
    (inherited ts).nonDeterministic = ts.any (·.nonDeterministic) := by
  cases ts with
  | nil => rfl
  | cons t ts => rfl

theorem memoize_inherited : (inherited ts).memoize = false := by
  unfold inherited
  split <;> rfl

theorem extendedOps_inherited : (inherited ts).extendedOps = false := by
  unfold inherited
  split <;> rfl

theorem typeConstant_inherited : (inherited ts).typeConstant = false := by
  unfold inherited
  split <;> rfl

end Inherited

theorem ofCode_code (t : Traits) : ofCode t.code = t := by
  obtain ⟨a, b, c, d, e, f, g, h⟩ := t
  revert a b c d e f g h
  decide

end Traits

/-- When an evaluator is evaluated. -/
inductive EvaluatorKind where
  | scalar
  /-- Once for a group of rows. -/
  | groupBy
  /-- Over a frame of rows. -/
  | window
  deriving DecidableEq, Repr, Inhabited

end SqlResolution
