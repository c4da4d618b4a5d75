import SqlResolution.ColumnType.Basic
import SqlResolution.Text.Ascii

/-!
# Row schemas

A schema lists the columns of a row and keeps an index from a name in small letters to the first
column of that name.
-/
namespace SqlResolution

/-- A column. A column of records may tell the columns of its records. -/
structure Column where
  name : String
  type : ColumnType
  /-- Whether the dictionary of a symbol column is fixed for a query. -/
  staticSymbols : Bool
  nested : Option (List Column)

structure Schema where
  columns : List Column
  byName : List (String × Nat)

namespace Column

def plain (name : String) (type : ColumnType) : Column := ⟨name, type, false, none⟩

def symbols (name : String) (isStatic : Bool) : Column := ⟨name, .symbol, isStatic, none⟩

def records (name : String) (columns : List Column) : Column := ⟨name, .record, false, some columns⟩

end Column

namespace Schema

def empty : Schema := ⟨[], []⟩

instance : Inhabited Schema := ⟨empty⟩

/-- Appends a column. Of columns with one name the first keeps it. -/
def add (s : Schema) (c : Column) : Schema :=
  let key := Text.lowerAscii c.name
  { columns := s.columns ++ [c]
    byName :=
      if (s.byName.lookup key).isSome then s.byName else s.byName ++ [(key, s.columns.length)] }

def ofColumns (cs : List Column) : Schema := cs.foldl add empty

/-- The column that a name in any case stands for. -/
def index? (s : Schema) (name : String) : Option Nat := s.byName.lookup (Text.lowerAscii name)

def name? (s : Schema) (i : Nat) : Option String := (s.columns[i]?).map (·.name)

/-- The type of a column, undefined past the last. -/
def type (s : Schema) (i : Nat) : ColumnType :=
  ((s.columns[i]?).map (·.type)).getD .undefined

def hasStaticSymbols (s : Schema) (i : Nat) : Bool :=
  ((s.columns[i]?).map (·.staticSymbols)).getD false

/-- The schema of a column of records that tells it. -/
def nested? (s : Schema) (i : Nat) : Option Schema :=
  ((s.columns[i]?).bind (·.nested)).map ofColumns

@[simp] theorem columns_add (s : Schema) (c : Column) : (s.add c).columns = s.columns ++ [c] := rfl

end Schema
end SqlResolution
