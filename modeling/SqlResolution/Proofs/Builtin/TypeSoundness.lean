import SqlResolution.Proofs.Builtin.Building
import SqlResolution.Proofs.Builtin.Registration
import SqlResolution.Proofs.Evaluator.Conformance
import SqlResolution.Proofs.Walk.Reentrancy
import SqlResolution.Proofs.Walk.Settling

/-!
# Type soundness of the builtins

Whatever a tree over the builtins resolves to yields values of its type, on rows whose columns
conform to the schema and with variables whose values conform to their types.
-/
namespace SqlResolution

open Steps

/-- Each variable has a value of its type. -/
def BindTable.Conforms (b : BindTable) : Prop :=
  ∀ x v, b.lookup? x = some v → v.value.conformsTo v.type = true

theorem BindTable.valueOf_conforms {b : BindTable} (h : b.Conforms) (x : Variable) :
    (b.valueOf x).conformsTo ((b.type? x).getD .undefined) = true := by
  unfold valueOf type?
  cases hentry : b.lookup? x with
  | none => rfl
  | some v => exact h x v hentry

namespace Evaluator

variable {b binds : BindTable} {schema : Schema} {e : Evaluator}

theorem IsLiteral.sound (h : e.IsLiteral) : e.Sound b schema := by
  cases h with
  | constant _ hconforms => exact hconforms
  | typeName _ => trivial

theorem sound_link_iff {type : ColumnType} {x : Variable} :
    (link type x).Sound b schema ↔ (b.valueOf x).conformsTo type = true := by
  cases x with
  | slot => rfl
  | named => rfl

/-- The variable that a sound evaluator links has a value of its type. -/
theorem Sound.valueOf {e : Evaluator} (h : e.Sound b schema) {x : Variable}
    (hx : e.linked? = some x) : (b.valueOf x).conformsTo e.type = true := by
  induction isLinkTo_of_linked? hx with
  | link => cases x <;> exact h
  | memo _ _ ih => exact ih h.2 hx

/-- A link without a type is sound only where its variable is null, so it is sound with any type. -/
theorem Sound.of_assignType {type : ColumnType} {e e' : Evaluator} {binds' : BindTable}
    (h : e.Sound b schema) (hundefined : e.isUndefined = true)
    (hassign : e.assignType binds type = .ok (e', binds')) : e'.Sound b schema := by
  replace hassign := assigned_of_assignType hassign
  induction hassign with
  | slot slot _ =>
    have hnull := Value.eq_null_of_conformsTo_undefined h hundefined
    change (b.slotValue slot).conformsTo _ = true
    rw [hnull]
    rfl
  | named name _ =>
    have hnull := Value.eq_null_of_conformsTo_undefined h hundefined
    change (b.namedValue name).conformsTo _ = true
    rw [hnull]
    rfl
  | memo _ _ ih =>
    obtain ⟨hcache, hinner⟩ := h
    refine ⟨?_, ih hinner hundefined⟩
    intro id v hkept
    rw [Value.eq_null_of_conformsTo_undefined (hcache id v hkept) hundefined]
    rfl

/-- Only the values of variables matter. -/
theorem Sound.congr {b b' : BindTable} (hvalues : ∀ x, b'.valueOf x = b.valueOf x) :
    {e : Evaluator} → e.Sound b schema → e.Sound b' schema
  | slotLink slot _, h => by
    have hvalue : b'.slotValue slot = b.slotValue slot := hvalues (.slot slot)
    simp only [Sound] at h ⊢
    rwa [hvalue]
  | namedLink name _, h => by
    have hvalue : b'.namedValue name = b.namedValue name := hvalues (.named name)
    simp only [Sound] at h ⊢
    rwa [hvalue]
  | memo _ inner, h => by
    simp only [Sound] at h ⊢
    exact ⟨h.1, Sound.congr hvalues h.2⟩
  | constant _ _, h | column _ _ _, h | adapt _ _ _ _, h => by
    simp only [Sound] at h ⊢
    exact h
  | custom _ _ _, h => by simp only [Sound] at h
  | typeName _, _ | scalar _ _, _ | concat _ _, _ | member _ _ _, _ | cast _ _ _, _ | cursor _, _
  | count _, _ | total _ _ _, _ | rowNumber _, _ | rank, _ | runningAverage _ _ _, _
  | randomInt _, _ | randomDouble _, _ | now _, _ => by simp only [Sound]

/-- Folding and memoizing keep an evaluator sound. -/
theorem Sound.finish (h : e.Sound b schema) (settings : Settings) :
    (e.finish settings b).Sound b schema := by
  have hfinish := finishes_finish settings b e
  generalize e.finish settings b = r at hfinish ⊢
  cases hfinish with
  | folded _ _ conforms => exact conforms
  | evaluated => exact (h.eval (Row.conforms_empty schema)).2
  | memoized =>
    refine ⟨?_, h⟩
    intro id v hcache
    cases hcache
  | unfoldable | unchanged => exact h

end Evaluator

/-- Giving types to links keeps every variable at a value of its type. -/
theorem maintained_sound (b : BindTable) (schema : Schema) :
    Maintained (fun c => b.Settles c.table ∧ c.table.Conforms) (Evaluator.Sound b schema) where
  literal hliteral := hliteral.sound
  evalConstant := by
    intro c e hI hsound _
    have hthere := hsound.congr hI.1.valueOf
    exact (hthere.eval (Row.conforms_empty schema)).2.congr fun x => (hI.1.valueOf x).symm
  assignType := by
    intro c e e' b' type hI hsound hundefined hassign
    refine ⟨hsound.of_assignType hundefined hassign, ?_⟩
    obtain ⟨x, hlinked, -, -, rfl⟩ := Evaluator.assignType_ok hassign
    have hnull : c.table.valueOf x = .null := by
      rw [hI.1.valueOf]
      exact Value.eq_null_of_conformsTo_undefined (hsound.valueOf hlinked) hundefined
    obtain htable | htable := c.table_withTable_or (c.table.give type x)
    · rw [htable]
      refine ⟨hI.1.trans (c.table.settles_give type x), ?_⟩
      intro y v hv
      by_cases hy : y = x
      · rw [hy, BindTable.lookup?_give_self, hnull] at hv
        cases hv
        rfl
      · rw [BindTable.lookup?_give_of_ne hy] at hv
        exact hI.2 y v hv
    · rw [htable]
      exact hI
  adapt := by
    rintro e adapter - (rfl | rfl)
    · intro v
      cases v <;> rfl
    · intro v
      cases v <;> rfl

namespace Builtin

/-- Every builtin builds a sound evaluator, whatever its arguments are. -/
theorem sound_build {b : Builtin} {position : Span} {args : Args} {settings : Settings}
    {c : Context} {e : Evaluator} (h : b.build position args settings c = .ok e)
    (binds : BindTable) (schema : Schema) : e.Sound binds schema := by
  cases makes_of_build h with
  | nullCast => rfl
  | _ => trivial

end Builtin

/-- A resolver over the builtins keeps its variables at values of their types, and its evaluators
sound. -/
theorem Resolver.maintains_sound (settings : Settings) (compilers : List Compiler)
    (b : BindTable) :
    (Resolver.mk Builtin.catalog settings compilers).Maintains
      (fun c => b.Settles c.table ∧ c.table.Conforms) (fun _ => True) (Evaluator.Sound b) where
  arguments schema := maintained_sound b schema
  pushTimestampRequired _ hI := hI
  popTimestampRequired hI := hI
  column hdefined := ⟨rfl, hdefined⟩
  link := by
    intro schema n c e _ _ _ hI he
    obtain ⟨x, -, rfl⟩ := Link.ofNode_ok he
    rw [Evaluator.sound_link_iff, ← hI.1.valueOf]
    exact c.table.valueOf_conforms hI.2 x
  cursor _ _ := trivial
  overloads := by
    intro schema name overloads hname o ho span args c e hI _ hbuild
    obtain ⟨builtin, -, rfl, -⟩ := Builtin.exists_of_mem_overloads hname ho
    have hsound := Builtin.sound_build (Builtin.build_of_factory hbuild) c.table schema
    exact (hsound.finish settings).congr fun x => (hI.1.valueOf x).symm

/-- A tree over the builtins resolves to an evaluator that yields values of its type: on rows one
after another, and after each of the rows that it is fed. -/
theorem Builtin.conformsTo_of_resolve (settings : Settings) (compilers : List Compiler)
    (root : Node) (schema : Schema) (w : Walk) (hbinds : w.context.table.Conforms) {e : Evaluator}
    {after : Walk}
    (hresolve : (Resolver.mk Builtin.catalog settings compilers).resolve root schema w =
      (.ok e, after)) {rows : List Row} (hrows : ∀ row ∈ rows, row.Conforms schema) :
    after.context.table.Conforms ∧
      (∀ v ∈ (e.evalRows after.context.table rows).1, v.conformsTo e.type = true) ∧
      ∀ first vs e', e.feed? after.context.table first rows = some (vs, e') →
        ∀ v ∈ vs, v.conformsTo e.type = true := by
  have hmaintains := Resolver.maintains_sound settings compilers w.context.table
  have hnodes : ∀ n ∈ root.postorder, True := fun _ _ => trivial
  have hrun := hmaintains.resolve hnodes (fun _ _ _ => Plan.asks_true _) schema
    ⟨.refl w.context.table, hbinds⟩
  rw [hresolve] at hrun
  obtain ⟨⟨hsettles, hconforms⟩, hevaluator⟩ := hrun
  have hsound := (hevaluator e rfl).congr hsettles.valueOf
  refine ⟨hconforms, hsound.evalRows hrows, ?_⟩
  intro first vs e' hfeed
  exact Evaluator.Sound.feed? hrows hfeed

/-- The tree of `i + $1`. -/
def columnSumTree : Node :=
  ⟨.operation, "+", ⟨2, 1⟩, [⟨.column, "i", ⟨0, 1⟩, [], none⟩,
    ⟨.bindVariable, "$1", ⟨4, 2⟩, [], none⟩], none⟩

/-- A context with a LONG in its first slot. -/
def firstSlot : Context := { Context.fresh 0 with binds := some ⟨[(0, ⟨.long, .long 5⟩)], []⟩ }

/-- An INT column and a LONG variable are added as LONG. -/
theorem resolve_columnSumTree {c : Catalog}
    (hname : c.overloads? "+" = some (Builtin.additions.map Builtin.overload)) :
    (Resolver.mk c .default []).resolve columnSumTree (.ofColumns [.plain "i" .int])
        (.idle firstSlot) =
      (.ok (.scalar (.arithmetic .add .long) [.column 0 .int "i", .slotLink 0 .long]),
        .idle firstSlot) := by
  have hcall : c.resolve .default "+" ⟨2, 1⟩
      ⟨[.column 0 .int "i", .slotLink 0 .long], [⟨0, 1⟩, ⟨4, 2⟩]⟩ firstSlot =
        (.ok (.scalar (.arithmetic .add .long) [.column 0 .int "i", .slotLink 0 .long]),
          firstSlot) := by
    rw [Catalog.resolve_eq hname]
    rfl
  exact Resolver.resolve_of_args (List.cons_ne_nil _ _) rfl rfl hcall

theorem conforms_firstSlot : firstSlot.table.Conforms := by
  intro x v hv
  cases x with
  | slot i =>
    match i with
    | 0 =>
      cases hv
      rfl
    | _ + 1 => cases hv
  | named name => cases hv

/-- The sum of an INT column and a LONG variable is a LONG. -/
theorem Builtin.conformsTo_of_resolve_columnSum :
    let schema : Schema := .ofColumns [.plain "i" .int]
    let w : Walk := .idle firstSlot
    let row : Row := ⟨7, [.int 3]⟩
    w.context.table.Conforms ∧ row.Conforms schema ∧
      ∃ e after, (Resolver.mk Builtin.catalog .default []).resolve columnSumTree schema w =
          (.ok e, after) ∧
        e.type = .long ∧ (e.evalRows after.context.table [row]).1 = [.long 8] ∧
        ∀ v ∈ (e.evalRows after.context.table [row]).1, v.conformsTo e.type = true := by
  intro schema w row
  have hrow : row.Conforms schema := by
    intro i hi
    match i with
    | 0 => rfl
    | _ + 1 => cases hi with | step hi => cases hi
  have hresolve := resolve_columnSumTree overloads?_plus
  have hrows : ∀ r ∈ [row], r.Conforms schema := by
    intro r hr
    rwa [List.mem_singleton.mp hr]
  refine ⟨conforms_firstSlot, hrow, _, _, hresolve, rfl, ?_, ?_⟩
  · simp only [Evaluator.evalRows, Evaluator.eval, Evaluator.evalAll]
    rfl
  · exact (conformsTo_of_resolve .default [] columnSumTree schema w conforms_firstSlot hresolve
      hrows).2.1

end SqlResolution
