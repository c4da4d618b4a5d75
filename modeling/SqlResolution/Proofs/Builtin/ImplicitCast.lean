import SqlResolution.Proofs.Builtin.CastOperand
import SqlResolution.Proofs.Builtin.Replacement
import SqlResolution.Proofs.ImplicitCast

/-!
# Implicit and explicit casts

Between some types there are both an adapter and a cast. On rows one after another the adapter has
the values of the cast where none of its argument's values is a UUID between blanks.
-/
namespace SqlResolution.Builtin

open Evaluator

/-- The types between which there are both an adapter and a cast. -/
def adaptedCasts : List (ColumnType × ColumnType) :=
  [(.string, .uuid), (.symbol, .uuid), (.varchar, .uuid), (.string, .timestamp),
    (.symbol, .timestamp), (.varchar, .timestamp), (.uuid, .string), (.uuid, .varchar),
    (.char, .symbol)]

theorem mem_adaptedCasts_iff {source target : ColumnType} :
    (source, target) ∈ adaptedCasts ↔
      cast source target ∈ all ∧ (adapterFor? source target).isSome = true := by
  rw [cast_mem_all_iff]
  constructor
  · have hall : ∀ p ∈ adaptedCasts,
        (p.1 ∈ castTypes ∧ p.2 ∈ castTypes ∧ converts p.1.tag p.2.tag = true) ∧
          (adapterFor? p.1 p.2).isSome = true := by
      decide
    exact hall (source, target)
  · rintro ⟨⟨hsource, htarget, -⟩, hadapter⟩
    have hall : ∀ source ∈ castTypes, ∀ target ∈ castTypes,
        (adapterFor? source target).isSome = true → (source, target) ∈ adaptedCasts := by
      decide
    exact hall source hsource target htarget hadapter

variable {settings : Settings} {name : String} {c : Context} {operand : Evaluator}
  {source target : ColumnType} {scales : TextScales} {v : Value}

/-- An adapter and a cast between the same types make the same of a value, unless they are to make a
UUID of a padded text. -/
theorem apply_eq_cast_iff_of_mem {a : Adapter} (hpair : (source, target) ∈ adaptedCasts)
    (ha : adapterFor? source target = some a) (hv : v.conformsTo source = true) :
    a.apply source target v = v.cast scales target.tag ↔ ¬(target = .uuid ∧ v.IsPaddedUuid) := by
  have hall : ∀ p ∈ adaptedCasts, p.1.tag ≠ .interval ∧ p.2.tag ≠ .array ∧
      p.2.tag.isGeohash = false ∧ (p.2.tag = .uuid ↔ p.2 = .uuid) := by decide
  obtain ⟨hsource, harray, hgeohash, huuid⟩ := hall (source, target) hpair
  rw [Adapter.apply_eq_cast_iff (Adapter.fits_of_adapterFor? ha) hsource harray hgeohash hv, huuid]

/-- The rows of a STRING column `s` with the given texts. -/
def textRows (texts : List String) : List Row := texts.map fun text => ⟨0, [.str text]⟩

theorem evalRows_textRows (binds : BindTable) (texts : List String) :
    ((Evaluator.column 0 .string "s").evalRows binds (textRows texts)).1 =
      texts.map Value.str := by
  induction texts with
  | nil => rfl
  | cons text texts ih =>
    rw [textRows, List.map_cons, fst_evalRows_cons, List.map_cons, ← ih]
    simp only [Evaluator.value, Evaluator.eval]
    rfl

end SqlResolution.Builtin
