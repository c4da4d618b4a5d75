import SqlResolution.Link
import SqlResolution.Proofs.Overload.Adjustment

/-!
# Variables of a bind table

What giving a type to a variable does to the table. A variable keeps its value, a numbered one that
has an entry keeps all of it, and no other variable changes.
-/
namespace SqlResolution

/-- A bind variable: a numbered slot, or a name. -/
inductive Variable where
  | slot (i : Nat)
  | named (name : String)
  deriving DecidableEq, Repr

namespace BindTable

def lookup? (b : BindTable) : Variable → Option BindVariable
  | .slot i => b.slot? i
  | .named name => b.named? name

def type? (b : BindTable) (x : Variable) : Option ColumnType := (b.lookup? x).map (·.type)

/-- The value of a variable, null where the table has no entry for it. -/
def valueOf (b : BindTable) (x : Variable) : Value := ((b.lookup? x).map (·.value)).getD .null

/-- What giving a type to a variable makes of the table. -/
def give (b : BindTable) (type : ColumnType) : Variable → BindTable
  | .slot i => b.define i type
  | .named name => b.setNamed name type (b.namedValue name)

/-- The type that a variable has after it was given one. -/
def typeGiven (b : BindTable) (type : ColumnType) : Variable → ColumnType
  | .slot i => b.definedType i type
  | .named _ => type

theorem slot?_define_of_some {b : BindTable} {i j : Nat} {v : BindVariable} (h : b.slot? j = some v)
    (type : ColumnType) : (b.define i type).slot? j = some v := by
  unfold define
  split
  · exact h
  · rename_i hnone
    by_cases hij : j = i
    · subst hij
      rw [h] at hnone
      exact absurd rfl hnone
    · rw [slot?_setSlot_of_ne hij, h]

theorem named?_setNamed_of_ne {name other : String} (h : other ≠ name) (b : BindTable)
    (type : ColumnType) (v : Value) : (b.setNamed name type v).named? other = b.named? other :=
  lookup_put_of_ne h ⟨type, v⟩ b.named

theorem slot?_define_of_ne {i j : Nat} (h : j ≠ i) (b : BindTable) (type : ColumnType) :
    (b.define i type).slot? j = b.slot? j := by
  unfold define
  split
  · rfl
  · exact slot?_setSlot_of_ne h b type .null

theorem slot?_define_self (b : BindTable) (i : Nat) (type : ColumnType) :
    (b.define i type).slot? i = some ⟨b.definedType i type, b.slotValue i⟩ := by
  unfold define definedType slotType? slotValue
  cases h : b.slot? i with
  | none => exact slot?_setSlot_self b i type .null
  | some v => exact h

/-- Giving a type to a variable changes no other. -/
theorem lookup?_give_of_ne {x y : Variable} (h : y ≠ x) (b : BindTable) (type : ColumnType) :
    (b.give type x).lookup? y = b.lookup? y := by
  cases x with
  | slot i =>
    cases y with
    | slot j => exact slot?_define_of_ne (fun hj => h (congrArg Variable.slot hj)) b type
    | named name =>
      change (b.define i type).named? name = b.named? name
      unfold define
      split
      · rfl
      · rfl
  | named name =>
    cases y with
    | slot j => rfl
    | named other =>
      exact named?_setNamed_of_ne (fun hj => h (congrArg Variable.named hj)) b type _

/-- A variable that is given a type keeps its value. -/
theorem lookup?_give_self (b : BindTable) (type : ColumnType) (x : Variable) :
    (b.give type x).lookup? x = some ⟨b.typeGiven type x, b.valueOf x⟩ := by
  cases x with
  | slot i => exact b.slot?_define_self i type
  | named name => exact named?_setNamed_self b name type _

theorem valueOf_give (b : BindTable) (type : ColumnType) (x y : Variable) :
    (b.give type x).valueOf y = b.valueOf y := by
  by_cases h : y = x
  · subst h
    rw [valueOf, lookup?_give_self]
    rfl
  · rw [valueOf, valueOf, lookup?_give_of_ne h]

/-- What a table may become while variables are given types. -/
structure Settles (b b' : BindTable) : Prop where
  /-- A variable keeps its value, which is null where it has no entry. -/
  valueOf : ∀ x, b'.valueOf x = b.valueOf x
  /-- A variable that has an entry keeps one. -/
  isSome : ∀ x, (b.lookup? x).isSome = true → (b'.lookup? x).isSome = true
  /-- A slot that has an entry keeps its type too. -/
  slot? : ∀ i v, b.slot? i = some v → b'.slot? i = some v

namespace Settles

theorem refl (b : BindTable) : b.Settles b := ⟨fun _ => rfl, fun _ h => h, fun _ _ h => h⟩

theorem trans {b b' b'' : BindTable} (h : b.Settles b') (h' : b'.Settles b'') : b.Settles b'' where
  valueOf x := (h'.valueOf x).trans (h.valueOf x)
  isSome x hx := h'.isSome x (h.isSome x hx)
  slot? i v hi := h'.slot? i v (h.slot? i v hi)

end Settles

theorem settles_give (b : BindTable) (type : ColumnType) (x : Variable) :
    b.Settles (b.give type x) where
  valueOf y := b.valueOf_give type x y
  isSome y hy := by
    by_cases h : y = x
    · rw [h, lookup?_give_self]
      rfl
    · rwa [lookup?_give_of_ne h]
  slot? j v hj := by
    cases x with
    | slot i => exact slot?_define_of_some hj type
    | named name => exact hj

end BindTable

namespace Evaluator

/-- The link to a variable, with a type. -/
def link (type : ColumnType) : Variable → Evaluator
  | .slot i => slotLink i type
  | .named name => namedLink name type

/-- The variable that an evaluator links. -/
def linked? : Evaluator → Option Variable
  | slotLink slot _ => some (.slot slot)
  | namedLink name _ => some (.named name)
  | memo _ inner => inner.linked?
  | _ => none

/-- Only links are given types. -/
theorem assignType_ok {binds binds' : BindTable} {type : ColumnType} {e e' : Evaluator}
    (h : e.assignType binds type = .ok (e', binds')) :
    ∃ x, e.linked? = some x ∧ e'.linked? = some x ∧ e'.type = binds.typeGiven type x ∧
      binds' = binds.give type x := by
  replace h := assigned_of_assignType h
  induction h with
  | slot slot _ => exact ⟨.slot slot, rfl, rfl, rfl, rfl⟩
  | named name _ => exact ⟨.named name, rfl, rfl, rfl, rfl⟩
  | memo _ _ ih => exact ih

/-- The links to a variable, also where their results are kept. -/
inductive IsLinkTo (x : Variable) : Evaluator → Prop
  | link (type : ColumnType) : IsLinkTo x (link type x)
  | memo (cache : Option (Int64 × Value)) {inner : Evaluator} (isLink : IsLinkTo x inner) :
      IsLinkTo x (memo cache inner)

theorem isLinkTo_of_linked? {x : Variable} : {e : Evaluator} → e.linked? = some x → e.IsLinkTo x
  | slotLink _ type, h | namedLink _ type, h => by
    cases h
    exact .link type
  | memo cache inner, h => .memo cache (isLinkTo_of_linked? (e := inner) h)
  | constant _ _, h | typeName _, h | column _ _ _, h | adapt _ _ _ _, h | scalar _ _, h
  | concat _ _, h | member _ _ _, h | cast _ _ _, h | cursor _, h | count _, h | total _ _ _, h
  | rowNumber _, h | rank, h | runningAverage _ _ _, h | randomInt _, h | randomDouble _, h
  | now _, h | custom _ _ _, h => by cases h

theorem isConstant_of_linked? {e : Evaluator} {x : Variable} (h : e.linked? = some x) :
    e.isConstant = false := by
  induction isLinkTo_of_linked? h with
  | link => cases x <;> rfl
  | memo _ _ ih => exact ih h

/-- A link is no constant. -/
theorem linked?_of_isConstant {e : Evaluator} (h : e.isConstant = true) : e.linked? = none := by
  cases hlinked : e.linked? with
  | none => rfl
  | some x =>
    rw [isConstant_of_linked? hlinked] at h
    cases h

end Evaluator

namespace Link

/-- The variable that a token in the place of one means. -/
def linked? (token : String) : Option Variable :=
  match token.toList with
  | ':' :: cs => some (.named (String.ofList cs))
  | _ => (slotNumber? token).bind fun n =>
    if n < 1 then none else some (.slot (n.toInt.toNat - 1))

theorem linked?_named {token : String} {cs : List Char} (htoken : token.toList = ':' :: cs) :
    linked? token = some (.named (String.ofList cs)) := by
  simp only [linked?, htoken]

theorem linked?_numbered {token : String} (hnamed : ∀ cs, token.toList = ':' :: cs → False) :
    linked? token = (slotNumber? token).bind fun n =>
      if n < 1 then none else some (.slot (n.toInt.toNat - 1)) := by
  unfold linked?
  split
  · rename_i cs htoken
    exact absurd htoken (hnamed cs)
  · rfl

/-- Links are made where there is a bind table. -/
theorem table_eq (c : Context) (span : Span) :
    table c span =
      if c.binds.isSome then .ok c.table else .error (.bindVariablesUnavailable span) := by
  unfold table Context.table
  cases c.binds with
  | none => rfl
  | some b => rfl

variable {c : Context} {span : Span} {token : String} {e : Evaluator}

theorem named_ok (h : named c span token = .ok e) :
    ∃ type, c.table.namedType? (String.ofList (token.toList.drop 1)) = some type ∧
      e = .namedLink (String.ofList (token.toList.drop 1)) type := by
  rw [named, table_eq] at h
  cases hbinds : c.binds.isSome with
  | false =>
    rw [hbinds] at h
    cases h
  | true =>
    rw [hbinds] at h
    simp only [if_true, bind, Except.bind] at h
    cases htype : c.table.namedType? (String.ofList (token.toList.drop 1)) with
    | none =>
      rw [htype] at h
      cases h
    | some type =>
      rw [htype] at h
      cases h
      exact ⟨type, rfl, rfl⟩

theorem numbered_ok (h : numbered c span token = .ok e) :
    ∃ n, slotNumber? token = some n ∧ ¬n < 1 ∧
      e = .slotLink (n.toInt.toNat - 1)
        ((c.table.slotType? (n.toInt.toNat - 1)).getD .undefined) := by
  rw [numbered, table_eq] at h
  split at h
  · cases h
  · rename_i n hnumber
    split at h
    · cases h
    · rename_i hpos
      cases hbinds : c.binds.isSome with
      | false =>
        rw [hbinds] at h
        cases h
      | true =>
        rw [hbinds] at h
        cases h
        exact ⟨n, hnumber, hpos, rfl⟩

/-- A node for a variable becomes a link to it, of the type that the table has for it. -/
theorem ofNode_ok (h : ofNode c span token = .ok e) :
    ∃ x, linked? token = some x ∧ e = .link ((c.table.type? x).getD .undefined) x := by
  unfold ofNode at h
  split at h
  · rename_i cs htoken
    obtain ⟨type, htype, rfl⟩ := named_ok h
    rw [htoken, List.drop_succ_cons, List.drop_zero] at htype ⊢
    refine ⟨.named (String.ofList cs), linked?_named htoken, ?_⟩
    change Evaluator.namedLink _ type = .namedLink _ ((c.table.namedType? _).getD .undefined)
    rw [htype, Option.getD_some]
  · rename_i hnamed
    obtain ⟨n, hnumber, hpos, rfl⟩ := numbered_ok h
    refine ⟨.slot (n.toInt.toNat - 1), ?_, rfl⟩
    rw [linked?_numbered hnamed, hnumber, Option.bind_some, if_neg hpos]

/-- The link that a node for a variable becomes, where there is one. A named variable needs an
entry. -/
theorem ofNode_of_linked? {x : Variable} (hx : linked? token = some x)
    (hbinds : c.binds.isSome = true)
    (hentry : ∀ name, x = .named name → (c.table.namedType? name).isSome = true) (span : Span) :
    ofNode c span token = .ok (.link ((c.table.type? x).getD .undefined) x) := by
  unfold ofNode
  split
  · rename_i cs htoken
    rw [linked?_named htoken] at hx
    cases hx
    obtain ⟨type, htype⟩ := Option.isSome_iff_exists.mp (hentry _ rfl)
    have htype' : c.table.type? (.named (String.ofList cs)) = some type := htype
    rw [named, table_eq, if_pos hbinds, htoken, List.drop_succ_cons, List.drop_zero]
    simp only [bind, Except.bind, htype, htype', Option.getD_some]
    rfl
  · rename_i hnamed
    rw [linked?_numbered hnamed] at hx
    obtain ⟨n, hnumber, hslot⟩ := Option.bind_eq_some_iff.mp hx
    split at hslot
    · cases hslot
    · rename_i hpos
      cases hslot
      rw [numbered, hnumber, table_eq, if_pos hbinds]
      dsimp only
      rw [if_neg hpos]
      rfl

/-- A node for a variable becomes the same in contexts that have the same types for variables. -/
theorem ofNode_congr {c c' : Context} (hbinds : c.binds.isSome = c'.binds.isSome)
    (htypes : ∀ x, c.table.type? x = c'.table.type? x) (span : Span) (token : String) :
    ofNode c span token = ofNode c' span token := by
  have hslots : ∀ i, c.table.slotType? i = c'.table.slotType? i := fun i => htypes (.slot i)
  have hnames : ∀ name, c.table.namedType? name = c'.table.namedType? name :=
    fun name => htypes (.named name)
  unfold ofNode named numbered
  rw [table_eq, table_eq, ← hbinds]
  cases c.binds.isSome with
  | false => rfl
  | true =>
    simp only [if_true, bind, Except.bind, hslots, hnames]

end Link
end SqlResolution
