import SqlResolution.Proofs.Evaluator.Values
import SqlResolution.Proofs.Walk.Settling

/-!
# Arguments whose variables have their types

A call gives a type to each untyped variable among its arguments, and the bind table keeps it for a
numbered one. So the arguments are in the end as if their links had been made against the table that
is left, and preparing such arguments finds nothing to type.
-/
namespace SqlResolution

open Steps

namespace Evaluator

/-- A link with the type that a table has for its variable. Any other evaluator is left as it is. -/
def typedBy (b : BindTable) : Evaluator → Evaluator
  | slotLink slot _ => slotLink slot ((b.slotType? slot).getD .undefined)
  | namedLink name _ => namedLink name ((b.namedType? name).getD .undefined)
  | e => e

variable {b : BindTable} {e : Evaluator}

@[simp] theorem typedBy_link (b : BindTable) (type : ColumnType) (x : Variable) :
    (link type x).typedBy b = link ((b.type? x).getD .undefined) x := by
  cases x with
  | slot i => rfl
  | named name => rfl

theorem typedBy_of_linked? (h : e.linked? = none) : e.typedBy b = e := by
  cases e <;> first | rfl | cases h

@[simp] theorem traits_typedBy (b : BindTable) (e : Evaluator) :
    (e.typedBy b).traits = e.traits := by
  cases e <;> rfl

@[simp] theorem kind_typedBy (b : BindTable) (e : Evaluator) : (e.typedBy b).kind = e.kind := by
  cases e <;> rfl

@[simp] theorem isConstant_typedBy (b : BindTable) (e : Evaluator) :
    (e.typedBy b).isConstant = e.isConstant := by
  rw [isConstant, traits_typedBy, isConstant]

@[simp] theorem typedBy_typedBy (b : BindTable) (e : Evaluator) :
    (e.typedBy b).typedBy b = e.typedBy b := by
  cases e <;> rfl

theorem Steady.typedBy (h : e.Steady) (b : BindTable) : (e.typedBy b).Steady := by
  cases e with
  | slotLink slot type => exact .of_variable rfl
  | namedLink name type => exact .of_variable rfl
  | _ => exact h

/-- No link, or a link of the type that a table has for its variable. -/
inductive IsTypedBy (b : BindTable) : Evaluator → Prop
  | link (x : Variable) {type : ColumnType} (h : b.type? x = some type)
      (defined : type.isUndefined = false) : IsTypedBy b (.link type x)
  | other {e : Evaluator} (h : e.linked? = none) : IsTypedBy b e

theorem IsTypedBy.typedBy_eq (h : e.IsTypedBy b) : e.typedBy b = e := by
  cases h with
  | link x h _ => rw [typedBy_link, h, Option.getD_some]
  | other h => exact typedBy_of_linked? h

/-- A link that has no type is given one, and nothing else is. -/
theorem IsTypedBy.linked?_of_isUndefined (h : e.IsTypedBy b) (hundefined : e.isUndefined = true) :
    e.linked? = none := by
  cases h with
  | link x _ hdefined =>
    rw [isUndefined, type_link, hdefined] at hundefined
    cases hundefined
  | other h => exact h

theorem IsTypedBy.finish (h : e.IsTypedBy b) (settings : Settings) (binds : BindTable) :
    (e.finish settings binds).IsTypedBy b := by
  cases h with
  | link x h hdefined =>
    have hfinish : ∀ type, (Evaluator.link type x).finish settings binds = .link type x := by
      cases x <;> simp [Evaluator.link, Evaluator.finish, isConstant, traits, Traits.none]
    rw [hfinish]
    exact .link x h hdefined
  | other h => exact .other ((linked?_finish settings binds e).trans h)

/-- What agrees with a table that variables settle to: a link to a numbered variable may be untyped
until the table has a type for it. -/
def AgreesWith (b : BindTable) (e : Evaluator) : Prop :=
  e.IsTypedBy b ∨ ∃ slot, e = slotLink slot .undefined ∧
    ∀ type, b.slotType? slot = some type → type.isUndefined = false

theorem AgreesWith.typedBy (h : e.AgreesWith b) : (e.typedBy b).AgreesWith b := by
  obtain h | ⟨slot, rfl, hdefined⟩ := h
  · rw [h.typedBy_eq]
    exact .inl h
  · cases htype : b.slotType? slot with
    | none =>
      refine .inr ⟨slot, ?_, hdefined⟩
      rw [Evaluator.typedBy, htype, Option.getD_none]
    | some type =>
      refine .inl ?_
      rw [Evaluator.typedBy, htype, Option.getD_some]
      exact .link (.slot slot) htype (hdefined type htype)

theorem AgreesWith.isTypedBy (h : e.AgreesWith b) (hdefined : e.isUndefined = false) :
    e.IsTypedBy b := by
  obtain h | ⟨slot, rfl, -⟩ := h
  · exact h
  · cases hdefined

/-- The types of the table are those that defined arguments have. -/
theorem AgreesWith.isUndefined_of_typedBy (h : e.AgreesWith b)
    (hundefined : (e.typedBy b).isUndefined = true) : e.isUndefined = true := by
  by_contra hdefined
  rw [Bool.not_eq_true] at hdefined
  rw [(h.isTypedBy hdefined).typedBy_eq, hdefined] at hundefined
  cases hundefined

end Evaluator

/-- What has its type in the end keeps it. -/
theorem maintained_isTypedBy (b : BindTable) :
    Maintained (fun _ => True) (Evaluator.IsTypedBy b) where
  literal hliteral := .other (Evaluator.linked?_of_isLiteral hliteral)
  evalConstant := by
    intro c e _ _ hconstant
    refine .other (Evaluator.linked?_of_isConstant ?_)
    rw [Evaluator.isConstant, Evaluator.evalConstant, Evaluator.traits_eval]
    exact hconstant
  assignType := by
    intro c e e' b' type _ he hundefined hassign
    obtain ⟨x, hlinked, -⟩ := Evaluator.assignType_ok hassign
    rw [he.linked?_of_isUndefined hundefined] at hlinked
    cases hlinked
  adapt _ _ := .other rfl

namespace Args

/-- The arguments with the types that a table has for the variables that they link. -/
def typedBy (b : BindTable) (args : Args) : Args :=
  { args with evaluators := args.evaluators.map (Evaluator.typedBy b) }

variable {b : BindTable} {args : Args}

theorem get?_typedBy (b : BindTable) (args : Args) (i : Nat) :
    (args.typedBy b).get? i = (args.get? i).map (Evaluator.typedBy b) :=
  List.getElem?_map

@[simp] theorem size_typedBy (b : BindTable) (args : Args) : (args.typedBy b).size = args.size :=
  List.length_map _

@[simp] theorem isEmpty_typedBy (b : BindTable) (args : Args) :
    (args.typedBy b).isEmpty = args.isEmpty :=
  List.isEmpty_map

theorem typedBy_eq (h : ∀ e ∈ args.evaluators, e.typedBy b = e) : args.typedBy b = args := by
  obtain ⟨evaluators, positions⟩ := args
  exact congrArg (Args.mk · positions) ((List.map_congr_left h).trans (List.map_id' evaluators))

/-- An argument that is put in its own place with its type in the end does not show there. -/
theorem typedBy_set {i : Nat} {e : Evaluator} (hget : args.get? i = some e) :
    (args.set i (e.typedBy b)).typedBy b = args.typedBy b := by
  refine congrArg (Args.mk · args.positions) (List.ext_getElem? fun j => ?_)
  obtain ⟨hlt, -⟩ := List.getElem?_eq_some_iff.mp hget
  rw [List.getElem?_map, List.getElem?_map]
  by_cases hj : i = j
  · subst hj
    change args.evaluators[i]? = some e at hget
    rw [set, List.getElem?_set_self hlt, hget, Option.map_some, Option.map_some,
      Evaluator.typedBy_typedBy]
  · rw [set, List.getElem?_set_ne hj]

end Args

section Assigning

variable {b : BindTable} {args args' : Args} {c c' : Context}

theorem settles_assignArgument {i : Nat} {type : ColumnType}
    (h : assignArgument args i type c = (.ok args', c')) : c.table.Settles c'.table := by
  rw [assignArgument_apply] at h
  split at h
  · cases h
    exact .refl _
  · split at h
    · rename_i hassign
      cases h
      obtain ⟨x, -, -, -, rfl⟩ := Evaluator.assignType_ok hassign
      exact Context.settles_give (.refl _) type x
    · cases h

theorem Overload.settles_assignTypes {o : Overload} {name : String} {places : List Nat}
    (h : o.assignTypes name places args c = (.ok args', c')) : c.table.Settles c'.table := by
  induction places generalizing args c with
  | nil =>
    cases h
    exact .refl _
  | cons i places ih =>
    obtain ⟨type, args₁, c₁, -, hhead, htail⟩ := assignTypes_cons h
    exact (settles_assignArgument hhead).trans (ih htail)

variable (hbinds : c.binds.isSome = true) (hagree : ∀ e ∈ args.evaluators, e.AgreesWith b)
  (hsettles : c'.table.Settles b)
include hbinds hagree hsettles

/-- An untyped argument that is given a type becomes what the table in the end makes of it. -/
theorem assignArgument_typedBy {i : Nat} {type : ColumnType} {e : Evaluator}
    (hget : args.get? i = some e) (hundefined : e.isUndefined = true)
    (hassign : assignArgument args i type c = (.ok args', c')) :
    args' = args.set i (e.typedBy b) ∧ (e.typedBy b).isUndefined = false := by
  rw [assignArgument_apply, hget] at hassign
  dsimp only at hassign
  obtain htyped | ⟨slot, rfl, hdefined⟩ := hagree e (List.mem_of_getElem? hget)
  · split at hassign
    · rename_i hresult
      obtain ⟨x, hlinked, -⟩ := Evaluator.assignType_ok hresult
      rw [htyped.linked?_of_isUndefined hundefined] at hlinked
      cases hlinked
    · cases hassign
  · cases hassign
    rw [Context.table_withTable hbinds] at hsettles
    have hentry := hsettles.slot? slot _ (c.table.slot?_define_self slot type)
    have htype : b.slotType? slot = some (c.table.definedType slot type) := by
      rw [BindTable.slotType?, hentry, Option.map_some]
    rw [Evaluator.typedBy, htype, Option.getD_some]
    exact ⟨rfl, hdefined _ htype⟩

/-- Untyped arguments that are given types become what the table in the end makes of them. -/
theorem Overload.assignTypes_typedBy {o : Overload} {name : String} {places : List Nat}
    (hplaces : places.Pairwise (· < ·))
    (hundefined : ∀ i ∈ places, ∃ e, args.get? i = some e ∧ e.isUndefined = true)
    (hassign : o.assignTypes name places args c = (.ok args', c')) :
    args'.typedBy b = args.typedBy b ∧
      ∀ i ∈ places, ∀ e, args'.get? i = some e → e.IsTypedBy b ∧ e.isUndefined = false := by
  induction places generalizing args c with
  | nil =>
    cases hassign
    exact ⟨rfl, fun i hi => by cases hi⟩
  | cons i places ih =>
    obtain ⟨hfirst, hrest⟩ := List.pairwise_cons.mp hplaces
    obtain ⟨type, args₁, c₁, -, hhead, htail⟩ := assignTypes_cons hassign
    obtain ⟨e, hget, hisUndefined⟩ := hundefined i List.mem_cons_self
    obtain ⟨rfl, hdefined⟩ := assignArgument_typedBy hbinds hagree
      ((settles_assignTypes htail).trans hsettles) hget hisUndefined hhead
    have hagree' : ∀ f ∈ (args.set i (e.typedBy b)).evaluators, f.AgreesWith b := by
      intro f hf
      obtain hf | rfl := List.mem_or_eq_of_mem_set hf
      · exact hagree f hf
      · exact (hagree e (List.mem_of_getElem? hget)).typedBy
    have hothers : ∀ j, j ≠ i → (args.set i (e.typedBy b)).get? j = args.get? j :=
      fun j hj => List.getElem?_set_ne hj.symm
    have hundefined' : ∀ j ∈ places, ∃ f, (args.set i (e.typedBy b)).get? j = some f ∧
        f.isUndefined = true := by
      intro j hj
      rw [hothers j (Nat.ne_of_gt (hfirst j hj))]
      exact hundefined j (List.mem_cons_of_mem i hj)
    obtain ⟨hsame, htyped⟩ := ih (isSome_binds_assignArgument hhead ▸ hbinds) hagree' hrest
      hundefined' htail
    refine ⟨hsame.trans (Args.typedBy_set hget), ?_⟩
    intro j hj f hf
    obtain rfl | hj := List.mem_cons.mp hj
    · have hkept := (assignTypes_spec htail hrest).1 j fun hj => Nat.lt_irrefl j (hfirst j hj)
      obtain ⟨hlt, -⟩ := List.getElem?_eq_some_iff.mp hget
      rw [hkept, show (args.set j (e.typedBy b)).get? j = some (e.typedBy b) from
        List.getElem?_set_self hlt] at hf
      cases hf
      exact ⟨(hagree e (List.mem_of_getElem? hget)).typedBy.isTypedBy hdefined, hdefined⟩
    · exact htyped j hj f hf

/-- The arguments that a call has typed are those with the types of the table in the end, and none
of them is left untyped. -/
theorem Overload.assignTypes_undefinedPlaces {o : Overload} {name : String}
    (hassign : o.assignTypes name (undefinedPlaces args) args c = (.ok args', c')) :
    args' = args.typedBy b ∧ ∀ e ∈ args'.evaluators, e.IsTypedBy b ∧ e.isUndefined = false := by
  have hplaces := pairwise_undefinedPlaces args
  obtain ⟨hsame, htyped⟩ := assignTypes_typedBy hbinds hagree hsettles hplaces
    (fun i hi => mem_undefinedPlaces.mp hi) hassign
  have heach : ∀ e ∈ args'.evaluators, e.IsTypedBy b ∧ e.isUndefined = false := by
    intro e he
    obtain ⟨i, hi⟩ := List.getElem?_of_mem he
    by_cases hplace : i ∈ undefinedPlaces args
    · exact htyped i hplace e hi
    · have hget : args.get? i = some e := by
        rw [← (assignTypes_spec hassign hplaces).1 i hplace]
        exact hi
      have hdefined : e.isUndefined = false := by
        by_contra hundefined
        exact hplace (mem_undefinedPlaces.mpr ⟨e, hget, by simpa using hundefined⟩)
      exact ⟨(hagree e (List.mem_of_getElem? hget)).isTypedBy hdefined, hdefined⟩
  rw [← hsame, Args.typedBy_eq fun e he => (heach e he).1.typedBy_eq]
  exact ⟨rfl, heach⟩

end Assigning
end SqlResolution
