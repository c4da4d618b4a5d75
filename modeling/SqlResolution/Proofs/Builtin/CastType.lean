import SqlResolution.Proofs.Builtin.CastNode
import SqlResolution.Proofs.Builtin.CastOperand
import SqlResolution.Proofs.Builtin.Replacement
import SqlResolution.Proofs.Overload.Nulls
import SqlResolution.Proofs.TypeName

/-!
# The type of a cast

Whichever way a cast is resolved, what it resolves to has the type that is written, and is null where
its operand is. The cast may be its operand, or a variable that is now given the type, or a cast that
an overload makes, of an operand that may have been given another type before.
-/
namespace SqlResolution

open Evaluator Steps

/-- Not an untyped link to a slot that is defined already. -/
def Evaluator.IsTypable (b : BindTable) (e : Evaluator) : Prop :=
  e.isUndefined = true → ∀ slot, e.slot? = some slot → b.slotType? slot = none

/-- A link that may take a type takes the one that it is given. -/
theorem Evaluator.IsTypable.type_assignType {b b' : BindTable} {e e' : Evaluator}
    {type : ColumnType} (h : e.IsTypable b) (hundefined : e.isUndefined = true)
    (hassign : e.assignType b type = .ok (e', b')) : e'.type = type := by
  obtain ⟨-, -, htype, -⟩ := assignType_spec hassign
  rw [htype]
  cases hslot : e.slot? with
  | none => rfl
  | some slot =>
    rw [Option.bind_some, h hundefined slot hslot]
    rfl

namespace Builtin

variable {settings : Settings} {name : String} {span : Span} {positions : List Span}
  {operand e : Evaluator} {target : ColumnType} {args prepared : Args} {c c' after : Context}

/-- What the first look at a cast makes of its operand: the cast is the operand, or it goes on with
the operand as it is, or with the operand as a variable of a type that is near the target. -/
inductive Elides (operand : Evaluator) (target : ColumnType) (c : Context) :
    Bool → Evaluator → Context → Prop
  | same (h : operand.type = target) : Elides operand target c true operand c
  | kept (h : operand.type ≠ target) : Elides operand target c false operand c
  | typed {type : ColumnType} {isElided : Bool} {e : Evaluator} {b : BindTable}
      (h : operand.type ≠ target) (hundefined : operand.isUndefined = true)
      (hassign : operand.assignType c.table type = .ok (e, b))
      (hsame : isElided = true → type = target) : Elides operand target c isElided e (c.withTable b)

theorem exists_elides {isElided : Bool} (hname : Text.lowerAscii name = "cast")
    (h : elision name (castCall operand target positions) c = (.ok (isElided, prepared), c')) :
    ∃ e, prepared = castCall e target positions ∧ Elides operand target c isElided e c' := by
  rw [elision, if_pos (isCastCall_of_name hname ..), elideCast_apply] at h
  simp only [castCall, Args.get?, List.getElem?_cons_zero, List.getElem?_cons_succ] at h
  split at h
  · rename_i htype
    cases h
    exact ⟨operand, rfl, .same (eq_of_beq htype)⟩
  · rename_i htype
    have hne : operand.type ≠ target := fun heq => htype (beq_iff_eq.mpr heq)
    split at h
    · rename_i hundefined
      split at h
      · cases h
        exact ⟨operand, rfl, .kept hne⟩
      · rename_i type _
        rw [assignArgument_apply] at h
        simp only [Args.get?, List.getElem?_cons_zero] at h
        rcases hassign : operand.assignType c.table type with error | ⟨e, b⟩
        · rw [hassign] at h
          cases h
        · rw [hassign] at h
          cases h
          exact ⟨e, rfl, .typed hne hundefined hassign eq_of_beq⟩
    · cases h
      exact ⟨operand, rfl, .kept hne⟩

/-- The first look leaves plain constants plain, and every null a null. -/
theorem Elides.keepsNulls {isElided : Bool} (h : Elides operand target c isElided e c') :
    operand.KeepsNulls e := by
  cases h with
  | same | kept => exact .refl operand
  | typed _ _ hassign _ =>
    exact .of_maps (fun b => maps_assignType b hassign) fun _ hnull => hnull

theorem Elides.fixesConstants {isElided : Bool} (h : Elides operand target c isElided e c')
    (hfixes : operand.FixesConstants) : e.FixesConstants := by
  cases h with
  | same | kept => exact hfixes
  | typed _ _ hassign _ => exact .of_variable (assignType_spec hassign).2.1

/-- The target's parameter of an overload of `cast` has the type that is written. -/
theorem type_of_admits_written {type : ColumnType} (htype : type ∈ castTypes)
    (hwritten : target.IsWritten)
    (hadmits : (⟨type, true⟩ : Parameter).admits true true (.typeName target) = true) :
    type = target := by
  have hall : ∀ type ∈ castTypes, type.isArray = false ∧ type.isGeohash = false ∧
      (type.tag == .geoHash) = false ∧ (type.tag == .arrayString) = false ∧ type = .of type.tag := by
    decide
  obtain ⟨harray, hgeohash, hgeneric, hstrings, hof⟩ := hall type htype
  have hparameter : (⟨type, true⟩ : Parameter).isArray = false := harray
  have htag : (⟨type, true⟩ : Parameter).tag = type.tag := by simp [Parameter.tag, hparameter]
  have hflat : target.isArray = false := (Parameter.isArray_of_admits hadmits).symm.trans hparameter
  have hsame : type.tag = target.tag := by
    simp only [Parameter.admits, Parameter.matchesExactly, Parameter.takesCharAsString, htag,
      hparameter, hgeneric, hstrings, Evaluator.type, hflat] at hadmits
    have htaken : ¬target.tag = .arrayString ∧ (target.tag = .arrayString ∨ type.tag = target.tag) := by
      simpa [Evaluator.traits, Evaluator.isConstant] using hadmits
    exact htaken.2.resolve_left htaken.1
  have hplain : target.isGeohash = false := by
    rw [ColumnType.isGeohash, ← hsame]
    exact hgeohash
  obtain h | h | h := hwritten
  · rw [hflat] at h
    cases h
  · rw [hplain] at h
    cases h
  · rw [hof, hsame, ← h]

/-- What is built of an operand is finished to an evaluator of the target, with the operand's
nulls. -/
theorem type_keepsNulls_of_build {source : ColumnType} {type : Evaluator} {b : BindTable}
    (hfixes : operand.FixesConstants)
    (h : (cast source target).build span ⟨[operand, type], positions⟩ settings c = .ok e) :
    (e.finish settings b).type = target ∧ operand.KeepsNulls (e.finish settings b) := by
  simp only [build, buildCast] at h
  split at h
  · cases h
    have hplain : (nullOf target).Plain fun _ => True := by simp [nullOf, Plain]
    have hfinish : (nullOf target).finish settings b = nullOf target := by
      rw [hplain.finish_eq, nullOf, fold_constant, ite_self]
    rw [hfinish]
    exact ⟨rfl, .nullOf operand target⟩
  · rename_i hnull
    cases h
    have hcast : castOrNull settings.scales target operand = .cast settings.scales target operand :=
      if_neg fun h => hnull (by rw [h, Bool.or_true])
    rw [← hcast]
    refine ⟨by rw [type_finish, type_castOrNull], .of_maps (fun binds =>
      maps_finish_castOrNull binds settings.scales target hfixes settings b) fun v hnull => ?_⟩
    rw [Value.cast, if_pos hnull]
    rfl

/-- What an overload makes of a cast has the type that is written, and is null where the operand is. -/
theorem Call.type_keepsNulls {b : Builtin} {adjusted : Args}
    (h : Call settings name span (castCall operand target positions) c b adjusted e after)
    (hname : Text.lowerAscii name = "cast") (hwritten : target.IsWritten)
    (hfixes : operand.FixesConstants) : e.type = target ∧ operand.KeepsNulls e := by
  have hargs := fixesConstants_castCall hfixes target positions
  have hcast := isCast_of_name b h.mem (h.name_eq.trans hname)
  cases b with
  | cast source type =>
    have hadmits := h.admits
    rw [isCastCall_of_name hname] at hadmits
    obtain ⟨_, htarget, htaken⟩ := hadmits 1 ⟨type, true⟩ rfl
    cases htarget
    have htype : type ∈ castTypes := types_mem _ h.mem ⟨type, true⟩ (by simp [descriptor])
    obtain rfl := type_of_admits_written htype hwritten htaken
    obtain ⟨g, hg, hprepared⟩ := Overload.exists_adjusted_keepsNulls hargs (h.adjusts hargs)
      (show (cast source type).descriptor.parameters[0]? = some ⟨source, false⟩ from rfl) rfl
    have hadjusted := h.fixesConstants hargs
    obtain ⟨built, hbuild, -, rfl⟩ := h.exists_built
    obtain ⟨evaluators, places⟩ := adjusted
    obtain ⟨operand', second, rfl⟩ := exists_pair_of_build_cast hbuild
    cases hg
    obtain ⟨hsame, hnulls⟩ := type_keepsNulls_of_build (hadjusted g List.mem_cons_self) hbuild
    exact ⟨hsame, hprepared.trans hnulls⟩
  | _ => cases hcast

/-- A call of `cast` that resolves, to an evaluator of the target that is null where its operand
is. -/
theorem type_keepsNulls_of_castCall (hname : Text.lowerAscii name = "cast")
    (hwritten : target.IsWritten) (hfixes : operand.FixesConstants)
    (hresolve : catalog.resolve settings name span (castCall operand target positions) c =
      (.ok e, after)) :
    (operand.IsTypable c.table → e.type = target) ∧
      (operand.type = target → e = operand ∧ after = c) ∧ operand.KeepsNulls e := by
  obtain ⟨isElided, prepared, c₁, helision, hrest⟩ := Catalog.exists_elision hresolve
  obtain ⟨operand', rfl, helides⟩ := exists_elides hname helision
  cases isElided with
  | true =>
    obtain ⟨hhead, rfl⟩ := hrest rfl
    cases hhead
    refine ⟨fun htypable => ?_, fun htype => ?_, helides.keepsNulls⟩
    · cases helides with
      | same h => exact h
      | typed _ hundefined hassign hsame =>
        rw [htypable.type_assignType hundefined hassign, hsame rfl]
    · cases helides with
      | same => exact ⟨rfl, rfl⟩
      | typed hne => exact absurd htype hne
  | false =>
    have hne : operand.type ≠ target := by
      cases helides with
      | kept h => exact h
      | typed h => exact h
    obtain ⟨b, adjusted, hcall⟩ := exists_call_of_resolve rfl helision hresolve
    obtain ⟨htype, hnulls⟩ := hcall.type_keepsNulls hname hwritten (helides.fixesConstants hfixes)
    exact ⟨fun _ => htype, fun heq => absurd heq hne, helides.keepsNulls.trans hnulls⟩

/-- A cast that resolves has the type that is written, unless its operand is an untyped link to a slot
that is defined. It is null where its operand is, row after row, and is its operand where that has the
type already. -/
theorem castType_of_resolve (settings : Settings) (compilers : List Compiler) {root x : Node}
    {target : ColumnType} (hcast : root.IsCast x target) (schema : Schema) (w : Walk) {e : Evaluator}
    {after : Walk}
    (hresolve : (Resolver.mk catalog settings compilers).resolve root schema w = (.ok e, after)) :
    ∃ operand mid,
      (Resolver.mk catalog settings compilers).resolve x schema w = (.ok operand, mid) ∧
      (operand.IsTypable mid.context.table → e.type = target) ∧
      (operand.type = target → e = operand ∧ after.context = mid.context) ∧
      operand.KeepsNulls e := by
  obtain ⟨operand, mid, hoperand, -, hcall⟩ := Resolver.exists_of_castNode hcast hresolve
  obtain ⟨type, -, -, -, hliteral⟩ := hcast.args
  exact ⟨operand, mid, hoperand, type_keepsNulls_of_castCall hcast.name
    (ColumnType.isWritten_of_parse (Literal.parse_of_typeName hliteral))
    (fixesConstants_of_resolve settings compilers x schema w hoperand) hcall⟩

/-- The tree of `cast($1, double)`. -/
def variableCast : Node :=
  ⟨.function, "cast", ⟨0, 4⟩, [⟨.bindVariable, "$1", ⟨5, 2⟩, [], none⟩,
    ⟨.constant, "double", ⟨9, 6⟩, [], none⟩], none⟩

/-- A variable that is cast to DOUBLE becomes one. -/
theorem castType_of_resolve_variable :
    let w : Walk := .idle (.fresh 0)
    let r : Resolver := ⟨catalog, .default, []⟩
    variableCast.IsCast ⟨.bindVariable, "$1", ⟨5, 2⟩, [], none⟩ .double ∧
      ∃ e after, r.resolve variableCast .empty w = (.ok e, after) ∧ e.type = .double ∧
        after.context.table.slotType? 0 = some .double ∧
        (Evaluator.slotLink 0 .undefined).KeepsNulls e := by
  intro w r
  have hcast : variableCast.IsCast ⟨.bindVariable, "$1", ⟨5, 2⟩, [], none⟩ .double :=
    ⟨by decide +kernel, _, rfl, rfl, rfl, rfl⟩
  have hvariable : r.resolve ⟨.bindVariable, "$1", ⟨5, 2⟩, [], none⟩ .empty w =
      (.ok (.slotLink 0 .undefined), w) := Resolver.resolve_of_leaf rfl rfl
  have hcall : catalog.resolve .default "cast" ⟨0, 4⟩
      (castCall (.slotLink 0 .undefined) .double [⟨5, 2⟩, ⟨9, 6⟩]) w.context =
        (.ok (.slotLink 0 .double), w.context.withTable (.define .empty 0 .double)) := by
    obtain ⟨overloads, hname⟩ : ∃ overloads, catalog.overloads? "cast" = some overloads :=
      ⟨_, overloads?_of_filter (by decide +kernel) rfl⟩
    have helision : elision "cast"
        (castCall (.slotLink 0 .undefined) .double [⟨5, 2⟩, ⟨9, 6⟩]) w.context =
          (.ok (true, castCall (.slotLink 0 .double) .double [⟨5, 2⟩, ⟨9, 6⟩]),
            w.context.withTable (.define .empty 0 .double)) := by
      rw [elision, if_pos (isCastCall_castCall ..), elideCast_apply]
      rfl
    rw [Catalog.resolve_eq hname, bind_of_ok helision]
    rfl
  have hresolve := Resolver.resolve_castNode_of_call hcast hvariable (by decide) hcall
  obtain ⟨operand, mid, hoperand, htype, -, hnulls⟩ :=
    castType_of_resolve .default [] hcast .empty w hresolve
  rw [hvariable] at hoperand
  cases hoperand
  refine ⟨hcast, _, _, hresolve, htype ?_, rfl, hnulls⟩
  rintro - slot -
  rfl

end Builtin
end SqlResolution
