import SqlResolution.ColumnReference
import SqlResolution.Literal
import SqlResolution.Proofs.Text.Slice

/-!
# Leaves of a tree

A constant token writes a value of its type, or a type that a cast may name. A column reference
reads a column of its schema, and is a null for a column of type NULL.
-/
namespace SqlResolution

/-- The evaluators of constant tokens. -/
inductive Evaluator.IsLiteral : Evaluator → Prop
  | constant {type : ColumnType} {v : Value} (hdefined : type.isUndefined = false)
      (hconforms : v.conformsTo type = true) : IsLiteral (.constant type v)
  | typeName {type : ColumnType} (hcastable : type.tag.isCastable = true) :
      IsLiteral (.typeName type)

/-- A constant with a value of its type. -/
inductive Evaluator.IsValue : Evaluator → Prop
  | constant {type : ColumnType} {v : Value} (hdefined : type.isUndefined = false)
      (hconforms : v.conformsTo type = true) : IsValue (.constant type v)

theorem Evaluator.IsValue.isLiteral {e : Evaluator} (h : e.IsValue) : e.IsLiteral := by
  cases h with
  | constant hdefined hconforms => exact .constant hdefined hconforms

theorem Evaluator.isValue_ofString (s : String) : (ofString s).IsValue := .constant rfl rfl

theorem Evaluator.isLiteral_ofString (s : String) : (ofString s).IsLiteral :=
  (isValue_ofString s).isLiteral

theorem Evaluator.isValue_untypedNull : untypedNull.IsValue := .constant rfl rfl

theorem Evaluator.isLiteral_untypedNull : untypedNull.IsLiteral := isValue_untypedNull.isLiteral

namespace Literal

section

variable {α : Type} {x y : Option Evaluator}

theorem isValue_orElse (hx : ∀ e, x = some e → e.IsValue) (hy : ∀ e, y = some e → e.IsValue) :
    ∀ e, (x <|> y) = some e → e.IsValue := by
  intro e he
  cases x with
  | none => exact hy e he
  | some first => exact hx e he

theorem isValue_map {f : α → Evaluator} (hf : ∀ a, (f a).IsValue) (a : Option α) :
    ∀ e, a.map f = some e → e.IsValue := by
  intro e he
  obtain ⟨a, -, rfl⟩ := Option.map_eq_some_iff.mp he
  exact hf a

end

theorem isValue_ofQuoted (cs : List Char) : (ofQuoted cs).IsValue := by
  unfold ofQuoted
  split
  · exact .constant rfl rfl
  · exact .constant rfl rfl
  · exact .constant rfl rfl

theorem isValue_number? (cs : List Char) : ∀ e, number? cs = some e → e.IsValue := by
  refine isValue_orElse (isValue_map (fun n => .constant rfl rfl) _) ?_
  refine isValue_orElse (isValue_map (fun n => .constant rfl rfl) _) ?_
  refine isValue_orElse ?_ ?_
  · intro e he
    split at he
    · exact isValue_map (fun x => .constant rfl rfl) _ e he
    · cases he
  · intro e he
    obtain ⟨cs, -, he⟩ := Option.bind_eq_some_iff.mp he
    split at he
    · exact isValue_map (fun x => .constant rfl rfl) _ e he
    · cases he

theorem isValue_plain? (token : String) : ∀ e, plain? token = some e → e.IsValue := by
  unfold plain?
  dsimp only
  split
  · rintro e ⟨⟩
    exact Evaluator.isValue_untypedNull
  · refine isValue_orElse (isValue_map isValue_ofQuoted _) ?_
    refine isValue_orElse (isValue_map (fun _ => Evaluator.isValue_ofString _) _) ?_
    refine isValue_orElse ?_ (isValue_number? _)
    intro e he
    split at he
    · cases he
      exact .constant rfl rfl
    · split at he
      · cases he
        exact .constant rfl rfl
      · cases he

theorem isValue_bits {cs : List Char} {e : Evaluator} (h : bits cs = .ok (some e)) :
    e.IsValue := by
  unfold bits at h
  split at h
  · rename_i g hg
    cases h
    have hgeohash := ColumnType.isGeohash_geohash g.bits
    refine .constant ?_ hgeohash
    rw [ColumnType.isGeohash] at hgeohash
    rw [ColumnType.isUndefined]
    cases htag : (ColumnType.geohash g.bits).tag <;>
      first | rfl | (rw [htag] at hgeohash; cases hgeohash)
  · obtain ⟨n?, -, hsome⟩ := Text.map_eq_ok_iff.mp h
    exact isValue_map (fun n => .constant rfl rfl) n? e hsome

theorem exists_type_of_typeName? {token : String} {e : Evaluator}
    (h : typeName? token = .ok (some e)) :
    ∃ t, e = .typeName t ∧ ColumnType.parse token = .ok (some t) ∧ t.tag.isCastable = true := by
  obtain ⟨type, hparse, hsome⟩ := Text.map_eq_ok_iff.mp h
  obtain ⟨t, ht, rfl⟩ := Option.map_eq_some_iff.mp hsome
  obtain ⟨rfl, hcastable⟩ := Option.filter_eq_some_iff.mp ht
  exact ⟨t, rfl, hparse, hcastable⟩

/-- A constant token writes a value, or it names a type that a cast may have as its target. -/
theorem isValue_or_typeName {span : Span} {token : String} {e : Evaluator}
    (h : parse span token = .ok e) : e.IsValue ∨
      ∃ t, e = .typeName t ∧ ColumnType.parse token = .ok (some t) ∧ t.tag.isCastable = true := by
  unfold parse at h
  split at h
  · rename_i plain hplain
    cases h
    exact .inl (isValue_plain? token e hplain)
  · split at h
    · cases h
    · rename_i rest hrest
      cases h
      unfold named at hrest
      cases hname : typeName? token with
      | error cut =>
        rw [hname] at hrest
        cases hrest
      | ok name? =>
        rw [hname] at hrest
        cases name? with
        | none => exact .inl (isValue_bits hrest)
        | some named =>
          obtain rfl : named = e := Option.some.inj (Except.ok.inj hrest)
          exact .inr (exists_type_of_typeName? hname)
    · cases h

theorem isLiteral_of_parse {span : Span} {token : String} {e : Evaluator}
    (h : parse span token = .ok e) : e.IsLiteral := by
  obtain hvalue | ⟨t, rfl, -, hcastable⟩ := isValue_or_typeName h
  · exact hvalue.isLiteral
  · exact .typeName hcastable

/-- A token that is read as a type name names the type. -/
theorem parse_of_typeName {span : Span} {token : String} {t : ColumnType}
    (h : parse span token = .ok (.typeName t)) : ColumnType.parse token = .ok (some t) := by
  obtain hvalue | ⟨t', htype, hparse, -⟩ := isValue_or_typeName h
  · cases hvalue
  · cases htype
    exact hparse

end Literal

/-- A name is a null, or reads a column with the type that the schema has for it. -/
theorem Schema.reference_ok {s : Schema} {span : Span} {name : String} {e : Evaluator}
    (h : s.reference span name = .ok e) :
    e.IsLiteral ∨ ∃ i label, e = .column i (s.type i) label ∧ (s.type i).isUndefined = false := by
  unfold reference at h
  split at h
  · cases h
  · rename_i i _
    dsimp only at h
    split at h
    · cases h
      exact .inl Evaluator.isLiteral_untypedNull
    · split at h
      · rename_i hreadable
        cases h
        refine .inr ⟨i, (s.name? i).getD name, rfl, ?_⟩
        rw [ColumnType.isUndefined, beq_eq_false_iff_ne]
        intro htag
        rw [htag] at hreadable
        cases hreadable
      · cases h

end SqlResolution
