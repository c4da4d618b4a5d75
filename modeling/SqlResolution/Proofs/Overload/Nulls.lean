import Mathlib.Data.List.Forall2
import SqlResolution.Proofs.Evaluator.Replacement
import SqlResolution.Proofs.Overload.Replacement

/-!
# Nulls of prepared arguments

What a call does to its arguments before it makes an evaluator of them changes the values of none that
is a variable, and leaves every null a null.
-/
namespace SqlResolution

open Steps

namespace Evaluator

variable {b : BindTable} {f : Value → Value} {e e' e'' : Evaluator}

/-- Row after row, an evaluator is null where another is. -/
def KeepsNulls (e e' : Evaluator) : Prop :=
  ∀ b rows, List.Forall₂ (fun v v' => v.isNull = true → v'.isNull = true)
    (e.evalRows b rows).1 (e'.evalRows b rows).1

namespace KeepsNulls

theorem refl (e : Evaluator) : KeepsNulls e e :=
  fun _ _ => List.forall₂_same.mpr fun _ _ hnull => hnull

theorem trans (h : KeepsNulls e e') (h' : KeepsNulls e' e'') : KeepsNulls e e'' := by
  intro b rows
  have hfirst := h b rows
  have hsecond := h' b rows
  generalize (e.evalRows b rows).1 = vs, (e'.evalRows b rows).1 = vs',
    (e''.evalRows b rows).1 = vs'' at hfirst hsecond
  induction hfirst generalizing vs'' with
  | nil =>
    cases hsecond
    exact .nil
  | cons hhead _ ih =>
    cases hsecond with
    | cons hhead' htail => exact .cons (hhead' ∘ hhead) (ih _ htail)

/-- A function that is null for null keeps the nulls of its argument. -/
theorem of_maps (h : ∀ b, Maps b f e e') (hf : ∀ v, v.isNull = true → (f v).isNull = true) :
    KeepsNulls e e' := by
  intro b rows
  rw [h b rows, List.forall₂_map_right_iff, List.forall₂_same]
  exact fun v _ => hf v

theorem nullOf (e : Evaluator) (type : ColumnType) : KeepsNulls e (nullOf type) :=
  .of_maps (fun b => maps_constant b type .null e) fun _ _ => rfl

/-- Anything keeps the nulls of a constant that is none. -/
theorem of_constant (hplain : e.Plain fun _ => False) (hconstant : e.isConstant = true)
    (hvalue : (e.value b .empty).isNull = false) (type : ColumnType) (v : Value) :
    KeepsNulls e (.constant type v) := by
  intro b' rows
  rw [maps_constant b' type v e rows, List.forall₂_map_right_iff, List.forall₂_same,
    hplain.evalRows_eq]
  intro v' hv' hnull
  obtain ⟨row, -, rfl⟩ := List.mem_map.mp hv'
  rw [hplain.value_of_isConstant b' b row .empty hconstant, hvalue] at hnull
  cases hnull

end KeepsNulls

/-- Whether a kept result is used depends on the row alone, and not on what it is kept of. -/
theorem eval_memo (b : BindTable) (row : Row) (cache : Option (Int64 × Value)) :
    (∃ v, ∀ x, (Evaluator.memo cache x).eval b row = (v, .memo cache x)) ∨
      ∀ x, (Evaluator.memo cache x).eval b row = (x.value b row,
        .memo (if 0 ≤ row.id then some (row.id, x.value b row) else cache) (x.eval b row).2) := by
  cases cache with
  | none => exact .inr fun x => by rw [Evaluator.eval]; rfl
  | some kept =>
    obtain ⟨id, v⟩ := kept
    by_cases hkept : (0 ≤ row.id && id == row.id) = true
    · exact .inl ⟨v, fun x => by simp only [Evaluator.eval, Option.filter, hkept, if_pos]⟩
    · exact .inr fun x => by simp only [Evaluator.eval, Option.filter, hkept, value]; rfl

/-- A result that is kept is the same where what it is kept of is. -/
theorem maps_memo {cache : Option (Int64 × Value)} (h : Maps b id e e') :
    Maps b id (.memo cache e) (.memo cache e') := by
  intro rows
  induction rows generalizing cache e e' with
  | nil => rfl
  | cons row rows ih =>
    rw [fst_evalRows_cons, fst_evalRows_cons, List.map_cons]
    obtain ⟨v, heval⟩ | heval := eval_memo b row cache
    · rw [value, value, heval, heval]
      exact congrArg (v :: ·) (ih h)
    · rw [value, value, heval, heval, h.value row]
      exact congrArg (e.value b row :: ·) (ih (h.eval row))

/-- A link has the values of its variable, whatever type it is given. -/
theorem maps_assignType {binds binds' : BindTable} {type : ColumnType} (b : BindTable)
    (h : e.assignType binds type = .ok (e', binds')) : Maps b id e e' := by
  replace h := assigned_of_assignType h
  induction h with
  | slot slot _ =>
    have hplain : ∀ type, (slotLink slot type).Plain fun _ => True := fun _ => by simp [Plain]
    intro rows
    rw [(hplain _).evalRows_eq, (hplain _).evalRows_eq, List.map_id]
    simp only [value, Evaluator.eval]
  | named name _ =>
    have hplain : ∀ type, (namedLink name type).Plain fun _ => True := fun _ => by simp [Plain]
    intro rows
    rw [(hplain _).evalRows_eq, (hplain _).evalRows_eq, List.map_id]
    simp only [value, Evaluator.eval]
  | memo _ _ ih => exact maps_memo ih

/-- Bringing an argument into the form of its parameter leaves a null a null. -/
theorem keepsNulls_rewriteArgument {binds : BindTable} {target : TypeTag} {position : Span}
    (h : e.FixesConstants) (hrewrite : rewriteArgument binds target e position = .ok e') :
    KeepsNulls e e' := by
  have hadapt : ∀ adapter, KeepsNulls e (.adapt adapter e.type .string e) := fun adapter =>
    .of_maps (fun b => maps_adapt b adapter e.type .string e) fun v hnull => by
      rw [if_pos hnull]
      rfl
  cases rewritten_of_rewriteArgument hrewrite with
  | nullInteger => exact .nullOf e (.of target)
  | evaluated _ constant =>
    rw [evalConstant, (h constant).snd_eval]
    exact .refl e
  | nullInstant => exact .nullOf e (.of target)
  | instant _ constant hasText =>
    have hvalue : (e.value binds .empty).isNull = false := by
      change (e.evalConstant binds).1.isNull = false
      cases hv : (e.evalConstant binds).1 <;> simp [hv, Value.asStr?, Value.isNull] at hasText ⊢
    exact .of_constant (h constant) constant hvalue _ _
  | uuidText => exact hadapt .uuidToStr
  | intervalText => exact hadapt .intervalToStr
  | kept => exact .refl e

end Evaluator

/-- Arguments at the same places, of which each is null where the one before it is. -/
def Args.KeepNulls (args args' : Args) : Prop :=
  ∀ i, Option.Rel Evaluator.KeepsNulls (args.get? i) (args'.get? i)

namespace Args.KeepNulls

theorem refl (args : Args) : args.KeepNulls args := by
  intro i
  cases args.get? i with
  | none => exact .none
  | some e => exact .some (.refl e)

theorem trans {args args' args'' : Args} (h : args.KeepNulls args') (h' : args'.KeepNulls args'') :
    args.KeepNulls args'' := by
  intro i
  have hfirst := h i
  have hsecond := h' i
  generalize args.get? i = e, args'.get? i = e', args''.get? i = e'' at hfirst hsecond
  cases hfirst with
  | none => exact hsecond
  | some he =>
    cases hsecond with
    | some he' => exact .some (he.trans he')

end Args.KeepNulls

variable {args args' adjusted : Args} {c c' : Context} {name : String} {o : Overload}

theorem keepNulls_assignArgument {i : Nat} {type : ColumnType}
    (h : assignArgument args i type c = (.ok args', c')) : args.KeepNulls args' := by
  rw [assignArgument_apply] at h
  cases hget : args.get? i with
  | none =>
    rw [hget] at h
    cases h
    exact .refl args
  | some e =>
    rw [hget] at h
    dsimp only at h
    rcases hassign : e.assignType c.table type with error | ⟨e', b⟩
    · rw [hassign] at h
      cases h
    · rw [hassign] at h
      cases h
      intro j
      by_cases hj : j = i
      · subst hj
        rw [hget, Args.get?_set_self hget]
        exact .some (.of_maps (fun b => Evaluator.maps_assignType b hassign) fun _ hnull => hnull)
      · rw [Args.get?_set_of_ne hj]
        exact Args.KeepNulls.refl args j

namespace Overload

theorem keepNulls_assignTypes {places : List Nat}
    (h : o.assignTypes name places args c = (.ok args', c')) : args.KeepNulls args' := by
  induction places generalizing args c with
  | nil =>
    cases h
    exact Args.KeepNulls.refl _
  | cons i places ih =>
    obtain ⟨type, typed, c₁, -, hassign, hrest⟩ := assignTypes_cons h
    exact (keepNulls_assignArgument hassign).trans (ih hrest)

/-- What becomes of the argument of a parameter is null where the argument is. -/
theorem exists_adjusted_keepsNulls {i : Nat} {p : Parameter} {e : Evaluator}
    (hfixes : ∀ e ∈ args.evaluators, e.FixesConstants)
    (hadjust : o.adjust name (undefinedPlaces args) args c = (.ok adjusted, c'))
    (hp : o.signature.parameters[i]? = some p) (he : args.get? i = some e) :
    ∃ g, adjusted.get? i = some g ∧ e.KeepsNulls g := by
  obtain ⟨typed, htypes, hrewrite⟩ := adjust_ok hadjust
  obtain ⟨hkept, htyped⟩ := assignTypes_spec htypes (pairwise_undefinedPlaces args)
  have hnulls := keepNulls_assignTypes htypes i
  obtain ⟨f, hf, hfixed⟩ : ∃ f, typed.get? i = some f ∧ f.FixesConstants := by
    by_cases hplace : i ∈ undefinedPlaces args
    · obtain ⟨-, f, hf, hvariable, -⟩ := htyped i hplace p e hp he
      exact ⟨f, hf, .of_variable hvariable⟩
    · exact ⟨e, (hkept i hplace).trans he, hfixes e (List.mem_of_getElem? he)⟩
  rw [he, hf] at hnulls
  obtain ⟨g, position, hg, hrewritten⟩ := (rewriteAll_spec hrewrite).2 i p f hp (by rwa [Nat.zero_add])
  rw [Nat.zero_add] at hg
  cases hnulls with
  | some hef => exact ⟨g, hg, hef.trans (Evaluator.keepsNulls_rewriteArgument hfixed hrewritten)⟩

end Overload
end SqlResolution
