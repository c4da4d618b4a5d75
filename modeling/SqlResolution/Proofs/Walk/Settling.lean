import SqlResolution.Proofs.Evaluator.Conformance
import SqlResolution.Proofs.Variables
import SqlResolution.Proofs.Walk.Invariant

/-!
# What a resolution leaves of the bind table

A resolution writes to the bind table while it prepares arguments, and takes nothing back where it
fails afterwards. All that it writes are the types of variables that untyped links are given, so
values stay, and so does every variable that has a type.
-/
namespace SqlResolution

open Steps

theorem Context.table_withTable_or (c : Context) (b : BindTable) :
    (c.withTable b).table = b ∨ (c.withTable b).table = c.table := by
  cases hbinds : c.binds.isSome with
  | true => exact .inl (c.table_withTable hbinds b)
  | false =>
    rw [c.withTable_of_none (Option.isSome_eq_false_iff.mp hbinds |> Option.isNone_iff_eq_none.mp)]
    exact .inr rfl

/-- A context in which a variable is given a type has settled further. -/
theorem Context.settles_give {b : BindTable} {c : Context} (h : b.Settles c.table)
    (type : ColumnType) (x : Variable) : b.Settles (c.withTable (c.table.give type x)).table := by
  obtain htable | htable := c.table_withTable_or (c.table.give type x)
  · rw [htable]
    exact h.trans (c.table.settles_give type x)
  · rw [htable]
    exact h

namespace Evaluator

theorem linked?_finish (settings : Settings) (binds : BindTable) (e : Evaluator) :
    (e.finish settings binds).linked? = e.linked? := by
  have hfinish := finishes_finish settings binds e
  generalize e.finish settings binds = r at hfinish ⊢
  cases hfinish with
  | folded hfolds => exact (linked?_of_isConstant (isConstant_of_folds hfolds)).symm
  | evaluated hfolds =>
    have hconstant := isConstant_of_folds hfolds
    have heval : (e.eval binds .empty).2.isConstant = true := by
      rw [isConstant, traits_eval]
      exact hconstant
    rw [linked?_of_isConstant hconstant, linked?_of_isConstant heval]
  | unfoldable | memoized | unchanged => rfl

theorem isNonDeterministic_finish {settings : Settings} {b : BindTable} {e : Evaluator}
    (h : (e.finish settings b).isNonDeterministic = true) : e.isNonDeterministic = true := by
  have hfinish := finishes_finish settings b e
  generalize e.finish settings b = r at hfinish h
  cases hfinish with
  | folded => cases h
  | evaluated =>
    rw [isNonDeterministic, traits_eval] at h
    exact h
  | unfoldable | memoized | unchanged => exact h

theorem linked?_of_isLiteral {e : Evaluator} (h : e.IsLiteral) : e.linked? = none := by
  cases h with
  | constant => rfl
  | typeName => rfl

theorem linked?_link (type : ColumnType) (x : Variable) : (link type x).linked? = some x := by
  cases x with
  | slot => rfl
  | named => rfl

theorem type_link (type : ColumnType) (x : Variable) : (link type x).type = type := by
  cases x with
  | slot => rfl
  | named => rfl

/-- Not an untyped link to a variable. -/
def Spares (x : Variable) (e : Evaluator) : Prop := e.isUndefined = true → e.linked? ≠ some x

theorem spares_of_linked? {x : Variable} {e : Evaluator} (h : e.linked? = none) : e.Spares x := by
  intro _ hlinked
  rw [h] at hlinked
  cases hlinked

end Evaluator

/-- Values stay, whatever is given to whom. -/
theorem maintained_settles (b : BindTable) :
    Maintained (fun c => b.Settles c.table) fun _ => True where
  literal _ := trivial
  evalConstant _ _ _ := trivial
  assignType := by
    intro c e e' b' type hI _ _ hassign
    obtain ⟨x, -, -, -, rfl⟩ := Evaluator.assignType_ok hassign
    exact ⟨trivial, Context.settles_give hI type x⟩
  adapt _ _ := trivial

/-- A variable stays as it is where no untyped link to it is given a type. -/
theorem maintained_spares (x : Variable) (entry : Option BindVariable) :
    Maintained (fun c => c.table.lookup? x = entry) (Evaluator.Spares x) where
  literal hliteral := Evaluator.spares_of_linked? (Evaluator.linked?_of_isLiteral hliteral)
  evalConstant := by
    intro c e _ _ hconstant
    refine Evaluator.spares_of_linked? (Evaluator.linked?_of_isConstant ?_)
    rw [Evaluator.isConstant, Evaluator.evalConstant, Evaluator.traits_eval]
    exact hconstant
  assignType := by
    intro c e e' b type hI hJ hundefined hassign
    obtain ⟨y, hlinked, hlinked', -, rfl⟩ := Evaluator.assignType_ok hassign
    have hne : x ≠ y := by
      rintro rfl
      exact hJ hundefined hlinked
    refine ⟨?_, ?_⟩
    · intro _ hx
      rw [hlinked'] at hx
      exact hne (Option.some.inj hx).symm
    · obtain htable | htable := c.table_withTable_or (c.table.give type y)
      · rw [htable, BindTable.lookup?_give_of_ne hne, hI]
      · rw [htable, hI]
  adapt _ _ := Evaluator.spares_of_linked? rfl

/-- Factories make up no links: what they build is no link, or it is one of the arguments. -/
def Catalog.MakesUpNoLinks (c : Catalog) (settings : Settings) : Prop :=
  ∀ name overloads, c.overloads? name = some overloads → ∀ o ∈ overloads, ∀ span args context e,
    o.factory.build span args settings context = .ok (some e) →
      e.linked? = none ∨ e ∈ args.evaluators

/-- A node that stands for a variable. -/
def Node.Links (x : Variable) (n : Node) : Prop :=
  n.args = [] ∧ n.kind = .bindVariable ∧ Link.linked? n.token = some x

/-- The entry of a variable that has a type. -/
def BindVariable.IsTyped (v : BindVariable) : Prop := v.type.isUndefined = false

namespace Resolver

variable {r : Resolver}

theorem maintains_settles (r : Resolver) (b : BindTable) :
    r.Maintains (fun c => b.Settles c.table) (fun _ => True) fun _ _ => True where
  arguments _ := maintained_settles b
  pushTimestampRequired _ hI := hI
  popTimestampRequired hI := hI
  column _ := trivial
  link _ _ _ _ _ := trivial
  cursor _ _ := trivial
  overloads _ _ _ _ _ _ _ _ _ _ _ _ _ := trivial

/-- A variable that has a type, or that no node stands for, stays as it is. -/
theorem maintains_spares (hlinks : r.catalog.MakesUpNoLinks r.settings) (x : Variable)
    (entry : Option BindVariable) :
    r.Maintains (fun c => c.table.lookup? x = entry)
      (fun n => (∃ v, entry = some v ∧ v.IsTyped) ∨ ¬n.Links x) fun _ => Evaluator.Spares x where
  arguments _ := maintained_spares x entry
  pushTimestampRequired _ hI := hI
  popTimestampRequired hI := hI
  column _ := Evaluator.spares_of_linked? rfl
  link := by
    intro schema n c e hn hargs hkind hI he hundefined hlinked
    obtain ⟨y, hy, rfl⟩ := Link.ofNode_ok he
    rw [Evaluator.linked?_link] at hlinked
    cases hlinked
    obtain ⟨v, rfl, htyped⟩ | hunlinked := hn
    · rw [Evaluator.isUndefined, Evaluator.type_link, BindTable.type?, hI, Option.map_some,
        Option.getD_some, htyped] at hundefined
      cases hundefined
    · exact hunlinked ⟨hargs, hkind, hy⟩
  cursor _ _ := Evaluator.spares_of_linked? rfl
  overloads := by
    intro schema name overloads hname o ho span args c e _ hargs hbuild hundefined hlinked
    rw [Evaluator.isUndefined, Evaluator.type_finish] at hundefined
    rw [Evaluator.linked?_finish] at hlinked
    obtain hnone | hmem := hlinks name overloads hname o ho span args c e hbuild
    · rw [hnone] at hlinked
      cases hlinked
    · exact hargs e hmem hundefined hlinked

end Resolver

/-- A resolution, also one that fails, leaves every variable its value, and a slot that has an entry
all of it. A call leaves a variable as it is where none of its arguments is an untyped link to it. A
walk leaves a variable as it is that has a type or that no node stands for, where factories make up
no links. -/
theorem settles_of_resolve :
    (∀ (c : Catalog) (settings : Settings) (name : String) (span : Span) (args : Args)
        (context : Context),
      let after := (c.resolve settings name span args context).2.table
      context.table.Settles after ∧
        ∀ x, (∀ e ∈ args.evaluators, e.Spares x) → after.lookup? x = context.table.lookup? x) ∧
      ∀ (r : Resolver) (root : Node) (schema : Schema) (w : Walk),
        let after := (r.resolve root schema w).2.context.table
        w.context.table.Settles after ∧
          (r.catalog.MakesUpNoLinks r.settings → ∀ x,
            (∃ v, w.context.table.lookup? x = some v ∧ v.IsTyped) ∨
              (∀ n ∈ root.postorder, ¬n.Links x) ∧
                (∀ compiler ∈ r.compilers, ∀ text, (compiler text).Asks fun n => ¬n.Links x) →
            after.lookup? x = w.context.table.lookup? x) := by
  refine ⟨?_, ?_⟩
  · intro c settings name span args context
    refine ⟨?_, ?_⟩
    · refine ((maintained_settles context.table).resolve (P := fun _ => True) (fun _ _ => trivial)
        ?_ (fun _ _ => trivial) (.refl _)).1
      exact fun _ _ _ _ _ _ _ _ _ _ _ => trivial
    · intro x hargs
      refine ((maintained_spares x (context.table.lookup? x)).resolve (P := fun _ => True)
        (fun _ _ => trivial) ?_ hargs rfl).1
      exact fun _ _ _ _ _ _ _ _ _ _ _ => trivial
  · intro r root schema w
    refine ⟨?_, ?_⟩
    · exact ((r.maintains_settles w.context.table).resolve (fun _ _ => trivial)
        (fun _ _ _ => Plan.asks_true _) schema (.refl _)).1
    · intro hlinks x hx
      have hmaintains := Resolver.maintains_spares hlinks x (w.context.table.lookup? x)
      obtain htyped | ⟨hroot, hplans⟩ := hx
      · refine (hmaintains.resolve (fun _ _ => .inl htyped) (fun compiler _ text => ?_) schema rfl).1
        exact (Plan.asks_true _).mono fun _ _ => .inl htyped
      · refine (hmaintains.resolve (fun n hn => .inr (hroot n hn)) (fun compiler hmem text => ?_)
          schema rfl).1
        exact (hplans compiler hmem text).mono fun _ hn => .inr hn

/-- A function of an INT that cannot be built. -/
def refusing : Overload :=
  ⟨⟨"f", [⟨.int, false⟩], none⟩,
    { (default : Factory) with build := fun span _ _ _ => .error (.factoryFailure "rejected" span) }⟩

def refusingCatalog : Catalog := ⟨[("f", [refusing])], []⟩

/-- A context with a LONG in its second slot. -/
def secondSlot : Context := { Context.fresh 0 with binds := some ⟨[(1, ⟨.long, .long 5⟩)], []⟩ }

theorem makesUpNoLinks_refusing : refusingCatalog.MakesUpNoLinks .default := by
  intro name overloads hname o ho span args context e hbuild
  have hoverloads : overloads = [refusing] := by
    unfold Catalog.overloads? refusingCatalog at hname
    rw [List.lookup_cons] at hname
    split at hname
    · exact (Option.some.inj hname).symm
    · cases hname
  subst hoverloads
  rw [List.mem_singleton.mp ho] at hbuild
  cases hbuild

/-- The call `f($1)` and the tree of it, which fail, leave the other slot as it is. -/
theorem settles_of_resolve_refusing :
    let args : Args := ⟨[.slotLink 0 .undefined], [⟨2, 2⟩]⟩
    let root : Node := ⟨.function, "f", ⟨0, 1⟩, [⟨.bindVariable, "$1", ⟨2, 2⟩, [], none⟩], none⟩
    let r : Resolver := ⟨refusingCatalog, .default, []⟩
    (∀ e ∈ args.evaluators, e.Spares (.slot 1)) ∧
      (r.catalog.resolve r.settings "f" ⟨0, 1⟩ args secondSlot).2.table.lookup? (.slot 1) =
        some ⟨.long, .long 5⟩ ∧
      r.catalog.MakesUpNoLinks r.settings ∧
      (r.resolve root .empty (.idle secondSlot)).2.context.table.lookup? (.slot 1) =
        some ⟨.long, .long 5⟩ := by
  intro args root r
  have hargs : ∀ e ∈ args.evaluators, e.Spares (.slot 1) := by
    intro e he _ hlinked
    rw [List.mem_singleton.mp he] at hlinked
    cases hlinked
  obtain ⟨hcall, htree⟩ := settles_of_resolve
  have hentry : secondSlot.table.lookup? (.slot 1) = some ⟨.long, .long 5⟩ := rfl
  refine ⟨hargs, ?_, makesUpNoLinks_refusing, ?_⟩
  · exact ((hcall refusingCatalog .default "f" ⟨0, 1⟩ args secondSlot).2 (.slot 1) hargs).trans
      hentry
  · exact ((htree r root .empty (.idle secondSlot)).2 makesUpNoLinks_refusing (.slot 1)
      (.inl ⟨_, hentry, rfl⟩)).trans hentry

/-- The call `f($1)` fails, and its variable has a type that it did not have before. -/
theorem not_unchanged_of_refusing :
    let context : Context := .fresh 0
    let (result, after) := refusingCatalog.resolve .default "f" ⟨0, 1⟩
      ⟨[.slotLink 0 .undefined], [⟨2, 2⟩]⟩ context
    (∃ e, result = .error e) ∧ context.table.lookup? (.slot 0) = none ∧
      after.table.lookup? (.slot 0) = some ⟨.int, .null⟩ :=
  ⟨⟨_, rfl⟩, rfl, rfl⟩

end SqlResolution
