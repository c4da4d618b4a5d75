import SqlResolution.Evaluator.Basic
import SqlResolution.Span

/-!
# Argument lists

The evaluators of a call's arguments with the positions they were written at. A change that fails
takes its evaluator out and leaves the positions as they are.
-/
namespace SqlResolution

structure Args where
  evaluators : List Evaluator
  positions : List Span
  deriving Inhabited

namespace Args

def empty : Args := ⟨[], []⟩

def ofList (entries : List (Evaluator × Span)) : Args := ⟨entries.map (·.1), entries.map (·.2)⟩

def size (a : Args) : Nat := a.evaluators.length

def isEmpty (a : Args) : Bool := a.evaluators.isEmpty

def push (a : Args) (e : Evaluator) (position : Span) : Args :=
  ⟨a.evaluators ++ [e], a.positions ++ [position]⟩

def get? (a : Args) (i : Nat) : Option Evaluator := a.evaluators[i]?

/-- The position of an argument, and no position past the last. -/
def position (a : Args) (i : Nat) : Span := a.positions.getD i .none

def types (a : Args) : List ColumnType := a.evaluators.map (·.type)

/-- Puts an evaluator in the place of another. -/
def set (a : Args) (i : Nat) (e : Evaluator) : Args :=
  { a with evaluators := a.evaluators.set i e }

/-- Puts an evaluator in the place of another, which it answers. -/
def replace? (a : Args) (i : Nat) (e : Evaluator) : Option Evaluator × Args :=
  (a.get? i, a.set i e)

/-- Replaces an argument by the result of a change that may fail. The argument is taken out before
the change, and nothing is put back where it fails. -/
def mapAt (a : Args) (i : Nat) (change : Evaluator → Span → Except ε Evaluator) :
    Except ε Unit × Args :=
  match a.get? i with
  | none => (.ok (), a)
  | some e =>
    match change e (a.position i) with
    | .ok e => (.ok (), a.set i e)
    | .error error => (.error error, { a with evaluators := a.evaluators.eraseIdx i })

/-- The evaluators, where there are exactly so many. -/
def exactly? (a : Args) (n : Nat) : Option (List Evaluator) :=
  if a.size == n then some a.evaluators else none

@[simp] theorem size_push (a : Args) (e : Evaluator) (s : Span) :
    (a.push e s).size = a.size + 1 := by simp [push, size]

@[simp] theorem size_set (a : Args) (i : Nat) (e : Evaluator) : (a.set i e).size = a.size := by
  simp [set, size]

section Get

variable {args : Args} {i : Nat} {e : Evaluator}

theorem lt_size_of_get? (he : args.get? i = some e) : i < args.size :=
  (List.getElem?_eq_some_iff.mp he).1

theorem isEmpty_of_get? (he : args.get? i = some e) : args.isEmpty = false := by
  have hlt : i < args.evaluators.length := lt_size_of_get? he
  rw [isEmpty, List.isEmpty_eq_false_iff, ← List.length_pos_iff]
  omega

end Get

section Set

variable {args : Args} {i j : Nat} {e r : Evaluator}

theorem get?_set_self (he : args.get? i = some e) : (args.set i r).get? i = some r := by
  obtain ⟨hlt, -⟩ := List.getElem?_eq_some_iff.mp he
  exact List.getElem?_set_self hlt

theorem get?_set_of_ne (h : j ≠ i) : (args.set i r).get? j = args.get? j :=
  List.getElem?_set_ne (Ne.symm h)

theorem set_eq_self (he : args.get? i = some e) : args.set i e = args := by
  obtain ⟨hlt, heq⟩ := List.getElem?_eq_some_iff.mp he
  unfold set
  rw [← heq, List.set_getElem_self]

theorem set_set (args : Args) (i : Nat) (e r : Evaluator) :
    (args.set i e).set i r = args.set i r := by
  unfold set
  rw [List.set_set]

theorem set_comm (h : j ≠ i) (args : Args) (e r : Evaluator) :
    (args.set i r).set j e = (args.set j e).set i r := by
  unfold set
  rw [List.set_comm _ _ (Ne.symm h)]

end Set
end Args
end SqlResolution
