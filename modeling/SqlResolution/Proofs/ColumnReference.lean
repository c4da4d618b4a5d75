import SqlResolution.ColumnReference
import SqlResolution.Evaluator.Eval
import SqlResolution.Proofs.Schema

/-!
# What a column reference reads

A name in any case reads the first column that has it, under the column's own name and with its
type. Two families of types stand apart: a column of type NULL is read as a null without looking at
the row, and a column of a type whose values no row holds is refused.
-/
namespace SqlResolution

/-- The types whose values no row holds. -/
def TypeTag.unheld : List TypeTag :=
  [.undefined, .cursor, .varArg, .geoHash, .arrayString, .regClass, .regProcedure]

theorem TypeTag.isReadable_iff (t : TypeTag) : t.isReadable = true ↔ t ≠ .null ∧ t ∉ unheld := by
  cases t <;> decide

/-- An evaluator that reads a column: it has the column's name and type, and on every row the value
that stands at the column's place, which leaves the evaluator as it is. -/
structure Evaluator.Reads (e : Evaluator) (i : Nat) (c : Column) : Prop where
  name : e.name = c.name
  type : e.type = c.type
  eval : ∀ binds row, e.eval binds row = (row.value i, e)

theorem Evaluator.reads_column (i : Nat) (c : Column) : (column i c.type c.name).Reads i c where
  name := by rw [Evaluator.name]
  type := by rw [Evaluator.type]
  eval binds row := by rw [Evaluator.eval]

namespace Schema

variable {s : Schema} {cs : List Column} {c : Column} {name : String} {i : Nat}

theorem reference_of_index?_none (h : s.index? name = none) (span : Span) :
    s.reference span name = .error (.columnNotFound name span) := by
  rw [reference, h]

/-- What becomes of a name that stands for a column depends on the type of the column alone. -/
theorem reference_of_isFirst (h : Column.IsFirst cs name i c) (span : Span) :
    (ofColumns cs).reference span name =
      if c.type.tag = .null then .ok .untypedNull
      else if c.type.tag ∈ TypeTag.unheld then .error (.unsupportedColumnType c.type span)
      else .ok (.column i c.type c.name) := by
  have hcolumn : (ofColumns cs).columns[i]? = some c := by
    rw [columns_ofColumns]
    exact h.column
  rw [reference, index?_eq_some_iff.mpr ⟨c, h⟩]
  dsimp only
  rw [type_of_column hcolumn, name?_of_column hcolumn, Option.getD_some]
  simp only [ColumnType.isNull, beq_iff_eq, TypeTag.isReadable_iff]
  by_cases hnull : c.type.tag = .null
  · rw [if_pos hnull, if_pos hnull]
  · rw [if_neg hnull, if_neg hnull]
    by_cases hunheld : c.type.tag ∈ TypeTag.unheld
    · rw [if_neg fun hreadable => hreadable.2 hunheld, if_pos hunheld]
    · rw [if_pos ⟨hnull, hunheld⟩, if_neg hunheld]

/-- A name stands for the first of the columns that have it in any case, also after more columns are
added. Its reference reads that column. A column of type NULL is read as the null instead, and one
of a type whose values no row holds is refused, as is a name that no column has. -/
theorem reference_reads_first (cs : List Column) (name : String) :
    let s := ofColumns cs
    (∀ i, s.index? name = some i ↔ ∃ c, Column.IsFirst cs name i c) ∧
      (s.index? name = none ↔ ∀ c ∈ cs, ¬Text.SameWord c.name name) ∧
      (∀ i more, s.index? name = some i → (ofColumns (cs ++ more)).index? name = some i) ∧
      (∀ span i c, Column.IsFirst cs name i c → c.type.tag ≠ .null → c.type.tag ∉ TypeTag.unheld →
        ∃ e, s.reference span name = .ok e ∧ e.Reads i c) ∧
      (∀ span i c, Column.IsFirst cs name i c → c.type.tag = .null →
        s.reference span name = .ok .untypedNull) ∧
      (∀ span i c, Column.IsFirst cs name i c → c.type.tag ∈ TypeTag.unheld →
        s.reference span name = .error (.unsupportedColumnType c.type span)) ∧
      ∀ span, s.index? name = none →
        s.reference span name = .error (.columnNotFound name span) := by
  intro s
  refine ⟨fun i => index?_eq_some_iff, index?_eq_none_iff,
    fun i more h => index?_ofColumns_append h more, ?_, ?_, ?_,
    fun span h => reference_of_index?_none h span⟩
  · intro span i c hfirst hnull hheld
    refine ⟨.column i c.type c.name, ?_, Evaluator.reads_column i c⟩
    rw [reference_of_isFirst hfirst, if_neg hnull, if_neg hheld]
  · intro span i c hfirst hnull
    rw [reference_of_isFirst hfirst, if_pos hnull]
  · intro span i c hfirst hunheld
    have hnull : c.type.tag ≠ .null := by
      intro htag
      rw [htag] at hunheld
      exact absurd hunheld (by decide)
    rw [reference_of_isFirst hfirst, if_neg hnull, if_pos hunheld]

/-- Columns of all kinds, two of which have one name in two cases. -/
def mixedColumns : List Column :=
  [.symbols "sym" true, .plain "Price" .double, .plain "nothing" .null, .plain "PRICE" .long,
    .records "r" [.plain "x" .int], .plain "cur" .cursor]

/-- The price is read from the first of its two columns, also when there is a third, under the name
that the column has. -/
theorem reference_reads_first_mixedColumns :
    let s := ofColumns mixedColumns
    s.index? "price" = some 1 ∧
      (ofColumns (mixedColumns ++ [.plain "price" .int])).index? "price" = some 1 ∧
      (∃ e, s.reference ⟨0, 5⟩ "price" = .ok e ∧ e.Reads 1 (.plain "Price" .double)) ∧
      s.reference ⟨0, 7⟩ "Nothing" = .ok .untypedNull ∧
      s.reference ⟨3, 3⟩ "cur" = .error (.unsupportedColumnType .cursor ⟨3, 3⟩) ∧
      s.index? "x" = none ∧ s.reference ⟨2, 1⟩ "x" = .error (.columnNotFound "x" ⟨2, 1⟩) := by
  intro s
  have hprice : s.index? "price" = some 1 := by decide +kernel
  have hnothing : s.index? "Nothing" = some 2 := by decide +kernel
  have hcursor : s.index? "cur" = some 5 := by decide +kernel
  have hmissing : s.index? "x" = none := by decide +kernel
  obtain ⟨-, -, hkeeps, hreads, -, -, -⟩ := reference_reads_first mixedColumns "price"
  obtain ⟨-, -, -, -, hnull, -, -⟩ := reference_reads_first mixedColumns "Nothing"
  obtain ⟨-, -, -, -, -, hunheld, -⟩ := reference_reads_first mixedColumns "cur"
  obtain ⟨-, -, -, -, -, -, hnone⟩ := reference_reads_first mixedColumns "x"
  exact ⟨hprice, hkeeps 1 _ hprice,
    hreads _ 1 _ (isFirst_of_index? hprice rfl) (by decide) (by decide),
    hnull _ 2 _ (isFirst_of_index? hnothing rfl) rfl,
    hunheld _ 5 _ (isFirst_of_index? hcursor rfl) (by decide), hmissing, hnone _ hmissing⟩

/-- A column of type NULL is read as a null, which does not have the column's name, and a column of
cursors is not read at all. -/
theorem not_labelled_of_null :
    let s := ofColumns [.plain "nothing" .null, .plain "cur" .cursor]
    s.index? "nothing" = some 0 ∧ s.name? 0 = some "nothing" ∧
      (∃ e, s.reference ⟨0, 7⟩ "nothing" = .ok e ∧ e.name ≠ "nothing") ∧
      s.index? "cur" = some 1 ∧ ∀ e, s.reference ⟨0, 7⟩ "cur" ≠ .ok e := by
  intro s
  have hnothing : s.reference ⟨0, 7⟩ "nothing" = .ok .untypedNull := rfl
  have hcursor : s.reference ⟨0, 7⟩ "cur" = .error (.unsupportedColumnType .cursor ⟨0, 7⟩) := rfl
  refine ⟨by decide +kernel, rfl, ⟨.untypedNull, hnothing, by decide⟩, by decide +kernel, ?_⟩
  intro e he
  rw [hcursor] at he
  cases he

end Schema
end SqlResolution
