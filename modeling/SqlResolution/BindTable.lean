import SqlResolution.Value.Basic

/-!
# Bind variables

A bind table holds typed values in numbered slots and under names. Slots are sparse. `define` gives
a slot a type unless it has one, and the first type stays.
-/
namespace SqlResolution

/-- A typed bind variable. -/
structure BindVariable where
  type : ColumnType
  value : Value
  deriving Inhabited

structure BindTable where
  slots : List (Nat × BindVariable)
  named : List (String × BindVariable)
  deriving Inhabited

namespace BindTable

def empty : BindTable := ⟨[], []⟩

/-- The entries with one of them put in place of any under the same key. -/
def put [BEq α] (key : α) (v : BindVariable) (entries : List (α × BindVariable)) :
    List (α × BindVariable) :=
  (key, v) :: entries.filter (·.1 != key)

def slot? (b : BindTable) (i : Nat) : Option BindVariable := b.slots.lookup i

def named? (b : BindTable) (name : String) : Option BindVariable := b.named.lookup name

def setSlot (b : BindTable) (i : Nat) (type : ColumnType) (value : Value) : BindTable :=
  { b with slots := put i ⟨type, value⟩ b.slots }

def setNamed (b : BindTable) (name : String) (type : ColumnType) (value : Value) : BindTable :=
  { b with named := put name ⟨type, value⟩ b.named }

def slotType? (b : BindTable) (i : Nat) : Option ColumnType := (b.slot? i).map (·.type)

def namedType? (b : BindTable) (name : String) : Option ColumnType := (b.named? name).map (·.type)

def slotValue (b : BindTable) (i : Nat) : Value := ((b.slot? i).map (·.value)).getD .null

def namedValue (b : BindTable) (name : String) : Value := ((b.named? name).map (·.value)).getD .null

/-- The type of a slot after it was asked to take one: its own, where it has one. -/
def definedType (b : BindTable) (i : Nat) (type : ColumnType) : ColumnType :=
  (b.slotType? i).getD type

/-- Gives a slot without a type a null of that type. -/
def define (b : BindTable) (i : Nat) (type : ColumnType) : BindTable :=
  if (b.slot? i).isSome then b else b.setSlot i type .null

/-- One past the highest slot. -/
def slotCount (b : BindTable) : Nat := b.slots.foldl (fun n (i, _) => max n (i + 1)) 0

theorem lookup_put_self [BEq α] [LawfulBEq α] (key : α) (v : BindVariable)
    (entries : List (α × BindVariable)) : (put key v entries).lookup key = some v := by
  simp [put]

theorem lookup_put_of_ne [BEq α] [LawfulBEq α] {key other : α} (h : other ≠ key)
    (v : BindVariable) (entries : List (α × BindVariable)) :
    (put key v entries).lookup other = entries.lookup other := by
  have hb : (other == key) = false := by simpa using h
  simp only [put, List.lookup_cons, hb]
  induction entries with
  | nil => rfl
  | cons e es ih =>
    obtain ⟨k, w⟩ := e
    by_cases hk : k = key
    · subst hk
      simp only [List.filter_cons, bne_self_eq_false, Bool.false_eq_true, if_false,
        List.lookup_cons, hb, ih]
    · have hk' : (k != key) = true := by simpa using hk
      simp only [List.filter_cons, hk', if_true, List.lookup_cons]
      split
      · rfl
      · exact ih

@[simp] theorem slot?_setSlot_self (b : BindTable) (i : Nat) (t : ColumnType) (v : Value) :
    (b.setSlot i t v).slot? i = some ⟨t, v⟩ :=
  lookup_put_self i ⟨t, v⟩ b.slots

theorem slot?_setSlot_of_ne {i j : Nat} (h : j ≠ i) (b : BindTable) (t : ColumnType) (v : Value) :
    (b.setSlot i t v).slot? j = b.slot? j :=
  lookup_put_of_ne h ⟨t, v⟩ b.slots

@[simp] theorem named?_setSlot (b : BindTable) (i : Nat) (t : ColumnType) (v : Value)
    (name : String) : (b.setSlot i t v).named? name = b.named? name := rfl

@[simp] theorem named?_setNamed_self (b : BindTable) (name : String) (t : ColumnType)
    (v : Value) : (b.setNamed name t v).named? name = some ⟨t, v⟩ :=
  lookup_put_self name ⟨t, v⟩ b.named

theorem slotType?_define_self (b : BindTable) (i : Nat) (t : ColumnType) :
    (b.define i t).slotType? i = some (b.definedType i t) := by
  unfold define definedType slotType?
  cases h : b.slot? i <;> simp [h]

end BindTable
end SqlResolution
