import SqlResolution.Proofs.Text.LetterCase
import SqlResolution.Schema

/-!
# The columns that names stand for

A schema finds a column through an index of names in small letters, which is filled as columns are
added. Whatever columns were added, and in whatever order, the index answers as a search through
the columns from the first to the last does. So of the columns whose names differ in case only the
first is the one that they stand for, and it stays so when more are added.
-/
namespace SqlResolution

/-- The first column that has a name, up to the case of ASCII letters. -/
structure Column.IsFirst (columns : List Column) (name : String) (i : Nat) (c : Column) : Prop where
  column : columns[i]? = some c
  named : Text.SameWord c.name name
  before : ∀ j < i, ∀ d, columns[j]? = some d → ¬Text.SameWord d.name name

namespace Schema

variable {s : Schema} {cs : List Column} {c : Column} {name : String} {i : Nat}

/-- The index answers as a search through the columns does. -/
def Indexed (s : Schema) : Prop :=
  ∀ key, s.byName.lookup key = s.columns.findIdx? fun c => Text.lowerAscii c.name == key

theorem indexed_empty : empty.Indexed := fun _ => rfl

/-- A name that is known keeps its column, and one that is new gets the column that is added. -/
theorem lookup_byName_add (s : Schema) (c : Column) (key : String) :
    (s.add c).byName.lookup key =
      (s.byName.lookup key).or
        (if Text.lowerAscii c.name == key then some s.columns.length else none) := by
  unfold add
  dsimp only
  split
  · rename_i hknown
    -- no entry is made for `c`, and its own key has the entry of an earlier column
    by_cases hkey : Text.lowerAscii c.name = key
    · rw [← hkey, Option.or_of_isSome hknown]
    · rw [if_neg (by simpa using hkey), Option.or_none]
  · rw [List.lookup_append, List.lookup_cons, List.lookup_nil, BEq.comm]
    cases Text.lowerAscii c.name == key <;> rfl

theorem Indexed.add (h : s.Indexed) (c : Column) : (s.add c).Indexed := by
  intro key
  rw [lookup_byName_add, h key, columns_add, List.findIdx?_append, List.findIdx?_singleton]
  split <;> simp

theorem Indexed.foldl_add (h : s.Indexed) (cs : List Column) : (cs.foldl Schema.add s).Indexed := by
  induction cs generalizing s with
  | nil => exact h
  | cons c cs ih => exact ih (h.add c)

theorem columns_foldl_add (s : Schema) (cs : List Column) :
    (cs.foldl add s).columns = s.columns ++ cs := by
  induction cs generalizing s with
  | nil => exact (List.append_nil _).symm
  | cons c cs ih => rw [List.foldl_cons, ih, columns_add, List.append_assoc, List.singleton_append]

@[simp] theorem columns_ofColumns (cs : List Column) : (ofColumns cs).columns = cs :=
  columns_foldl_add empty cs

/-- A name is looked up as by a search for the first column that has it in any case. -/
theorem index?_ofColumns (cs : List Column) (name : String) :
    (ofColumns cs).index? name = cs.findIdx? fun c => Text.eqIgnoringCase c.name name := by
  have hindexed : (ofColumns cs).Indexed := indexed_empty.foldl_add cs
  rw [index?, hindexed, columns_ofColumns]
  rfl

theorem index?_eq_some_iff :
    (ofColumns cs).index? name = some i ↔ ∃ c, Column.IsFirst cs name i c := by
  rw [index?_ofColumns, List.findIdx?_eq_some_iff_getElem]
  simp only [Text.eqIgnoringCase_iff_sameWord]
  constructor
  · rintro ⟨hi, hnamed, hbefore⟩
    refine ⟨cs[i], List.getElem?_eq_getElem hi, hnamed, fun j hj d hd => ?_⟩
    obtain ⟨_, rfl⟩ := List.getElem?_eq_some_iff.mp hd
    exact hbefore j hj
  · rintro ⟨c, hfirst⟩
    obtain ⟨hi, rfl⟩ := List.getElem?_eq_some_iff.mp hfirst.column
    refine ⟨hi, hfirst.named, fun j hj => ?_⟩
    exact hfirst.before j hj _ (List.getElem?_eq_getElem (hj.trans hi))

theorem isFirst_of_index? (h : (ofColumns cs).index? name = some i) (hcolumn : cs[i]? = some c) :
    Column.IsFirst cs name i c := by
  obtain ⟨d, hfirst⟩ := index?_eq_some_iff.mp h
  rw [Option.some.inj (hcolumn.symm.trans hfirst.column)]
  exact hfirst

theorem index?_eq_none_iff :
    (ofColumns cs).index? name = none ↔ ∀ c ∈ cs, ¬Text.SameWord c.name name := by
  rw [index?_ofColumns, List.findIdx?_eq_none_iff]
  simp only [← Bool.not_eq_true, Text.eqIgnoringCase_iff_sameWord]

/-- Columns that are added later take no name away. -/
theorem index?_ofColumns_append (h : (ofColumns cs).index? name = some i) (more : List Column) :
    (ofColumns (cs ++ more)).index? name = some i := by
  rw [index?_ofColumns] at h ⊢
  rw [List.findIdx?_append, h, Option.some_or]

theorem type_of_column (h : s.columns[i]? = some c) : s.type i = c.type := by
  rw [type, h]
  rfl

theorem name?_of_column (h : s.columns[i]? = some c) : s.name? i = some c.name := by
  rw [name?, h]
  rfl

end Schema
end SqlResolution
