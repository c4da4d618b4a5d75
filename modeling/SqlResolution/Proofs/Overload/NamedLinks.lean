import Mathlib.Data.Nat.Find
import SqlResolution.Proofs.Overload.Course
import SqlResolution.Proofs.Variables

/-!
# Calls that link a named variable more than once

A call gives a type to each untyped variable among its arguments, one place after another. A slot
keeps the first type that it is given. A named variable takes each, and the links before keep
theirs. So after a call that links a named variable at several places, the bind table has the type
of the last of them, and the links agree with it exactly where all these places give one type.
-/
namespace SqlResolution

open Steps

namespace Evaluator

theorem Evolves.linked?_eq {e e' : Evaluator} (h : e.Evolves e') : e'.linked? = e.linked? := by
  cases hconstant : e.isConstant with
  | true =>
    have hconstant' : e'.isConstant = true := by
      rw [isConstant, h.traits]
      exact hconstant
    rw [linked?_of_isConstant hconstant, linked?_of_isConstant hconstant']
  | false => rw [h.eq_of_variable hconstant]

end Evaluator

/-- A context that knows a variable has a bind table. -/
theorem Context.isSome_binds_of_namedType? {c : Context} {x : String} {type : ColumnType}
    (h : c.table.namedType? x = some type) : c.binds.isSome = true := by
  cases hbinds : c.binds with
  | none =>
    rw [table, hbinds] at h
    cases h
  | some b => rfl

namespace Args

/-- The variable that an argument links. -/
def linked? (args : Args) (i : Nat) : Option Variable := (args.get? i).bind Evaluator.linked?

variable {args args' : Args} {i j : Nat} {x y : Variable}

theorem lt_size_of_linked? (h : args.linked? i = some x) : i < args.size := by
  obtain ⟨e, he, -⟩ := Option.bind_eq_some_iff.mp h
  exact lt_size_of_get? he

theorem isEmpty_of_linked? (h : args.linked? i = some x) : args.isEmpty = false := by
  obtain ⟨e, he, -⟩ := Option.bind_eq_some_iff.mp h
  exact isEmpty_of_get? he

/-- Of the places that link a variable one is the last. -/
theorem exists_last_linked (h : args.linked? i = some x) :
    ∃ last, args.linked? last = some x ∧ ∀ j, args.linked? j = some x → j ≤ last := by
  let P := fun j => args.linked? j = some x
  have hle : ∀ j, P j → j ≤ args.size := fun j hj => Nat.le_of_lt (lt_size_of_linked? hj)
  exact ⟨Nat.findGreatest P args.size, Nat.findGreatest_spec (P := P) (hle i h) h,
    fun j hj => Nat.le_findGreatest (hle j hj) hj⟩

theorem Evolve.linked?_eq (h : args.Evolve args') (i : Nat) :
    args'.linked? i = args.linked? i := by
  have hi := h i
  unfold Args.linked?
  generalize args.get? i = e, args'.get? i = e' at hi
  cases hi with
  | none => rfl
  | some he => exact he.linked?_eq

/-- A call that links variables at two places is no cast to a constant target. -/
theorem isCastCall_of_linked? (hi : args.linked? i = some x) (hj : args.linked? j = some y)
    (hne : i ≠ j) (name : String) : isCastCall name args = false := by
  have hvariable : ∀ {z}, args.linked? 1 = some z →
      (args.get? 1).any Evaluator.isConstant = false := by
    intro z hz
    obtain ⟨e, he, hlinked⟩ := Option.bind_eq_some_iff.mp hz
    rw [he, Option.any_some, Evaluator.isConstant_of_linked? hlinked]
  by_contra hcast
  rw [Bool.not_eq_false, isCastCall, Bool.and_eq_true, Bool.and_eq_true, beq_iff_eq] at hcast
  obtain ⟨⟨-, hsize⟩, hconstant⟩ := hcast
  have hone : i = 1 ∨ j = 1 := by
    have := lt_size_of_linked? hi
    have := lt_size_of_linked? hj
    omega
  obtain rfl | rfl := hone
  · rw [hvariable hi] at hconstant
    cases hconstant
  · rw [hvariable hj] at hconstant
    cases hconstant

end Args

section Assign

variable {args args' : Args} {i : Nat} {type : ColumnType} {c c' : Context} {x : Variable}

/-- A step that gives a type finds no argument, or a link. -/
theorem assignArgument_cases (h : assignArgument args i type c = (.ok args', c')) :
    (args.get? i = none ∧ args' = args ∧ c' = c) ∨
      ∃ x e, args.linked? i = some x ∧ e.linked? = some x ∧ e.type = c.table.typeGiven type x ∧
        args' = args.set i e ∧ args'.get? i = some e ∧ c' = c.withTable (c.table.give type x) := by
  rw [assignArgument_apply] at h
  cases hget : args.get? i with
  | none =>
    rw [hget] at h
    cases h
    exact .inl ⟨rfl, rfl, rfl⟩
  | some e =>
    rw [hget] at h
    dsimp only at h
    rcases hassign : e.assignType c.table type with error | ⟨e', b⟩
    · rw [hassign] at h
      cases h
    · rw [hassign] at h
      cases h
      obtain ⟨x, hx, hx', htype, rfl⟩ := Evaluator.assignType_ok hassign
      obtain ⟨hlt, -⟩ := List.getElem?_eq_some_iff.mp hget
      refine .inr ⟨x, e', ?_, hx', htype, rfl, List.getElem?_set_self hlt, rfl⟩
      rw [Args.linked?, hget, Option.bind_some, hx]

theorem linked?_assignArgument (h : assignArgument args i type c = (.ok args', c')) (j : Nat) :
    args'.linked? j = args.linked? j := by
  obtain ⟨-, rfl, -⟩ | ⟨x, e, hx, he, -, rfl, hget, -⟩ := assignArgument_cases h
  · rfl
  · by_cases hji : j = i
    · subst hji
      rw [Args.linked?, hget, Option.bind_some, he, hx]
    · rw [Args.linked?, Args.linked?]
      exact congrArg (Option.bind · _) (List.getElem?_set_ne (Ne.symm hji))

/-- A variable that is not linked at a place keeps its type. -/
theorem type?_assignArgument (h : assignArgument args i type c = (.ok args', c'))
    (hother : args.linked? i ≠ some x) : c'.table.type? x = c.table.type? x := by
  obtain ⟨-, -, rfl⟩ | ⟨y, e, hy, -, -, -, -, rfl⟩ := assignArgument_cases h
  · rfl
  · have hxy : x ≠ y := by
      rintro rfl
      exact hother hy
    cases hbinds : c.binds with
    | none => rw [Context.withTable_of_none hbinds]
    | some b =>
      rw [Context.table_withTable (by rw [hbinds]; rfl), BindTable.type?, BindTable.type?,
        BindTable.lookup?_give_of_ne hxy]

/-- A link and its variable have one type after the link is given it. -/
theorem typed_assignArgument (hbinds : c.binds.isSome = true)
    (h : assignArgument args i type c = (.ok args', c')) (hlinks : args.linked? i = some x) :
    ∃ e, args'.get? i = some e ∧ e.linked? = some x ∧ e.type = c.table.typeGiven type x ∧
      c'.table.type? x = some e.type := by
  obtain ⟨hnone, -, -⟩ | ⟨y, e, hy, he, htype, -, hget, rfl⟩ := assignArgument_cases h
  · rw [Args.linked?, hnone] at hlinks
    cases hlinks
  · rw [hlinks] at hy
    cases hy
    refine ⟨e, hget, he, htype, ?_⟩
    rw [Context.table_withTable hbinds, BindTable.type?, BindTable.lookup?_give_self, htype,
      Option.map_some]

end Assign

namespace Overload

variable {o : Overload} {name : String} {places : List Nat} {args args' : Args} {c c' : Context}
  {x : Variable}

theorem assignTypes_append (o : Overload) (name : String) (before rest : List Nat) (args : Args) :
    o.assignTypes name (before ++ rest) args =
      o.assignTypes name before args >>= o.assignTypes name rest := by
  induction before generalizing args with
  | nil => rfl
  | cons i before ih => simp only [List.cons_append, assignTypes, bind_assoc, ih]

theorem isSome_binds_assignTypes (h : o.assignTypes name places args c = (.ok args', c')) :
    c'.binds.isSome = c.binds.isSome := by
  have hframe := o.keeps_frame_assignTypes name places args c
  rw [h] at hframe
  exact Context.isSome_binds_of_frame hframe

theorem linked?_assignTypes (h : o.assignTypes name places args c = (.ok args', c')) (j : Nat) :
    args'.linked? j = args.linked? j := by
  induction places generalizing args c with
  | nil =>
    cases h
    rfl
  | cons i places ih =>
    obtain ⟨type, args₁, c₁, -, hhead, htail⟩ := assignTypes_cons h
    rw [ih htail, linked?_assignArgument hhead]

/-- A variable that is linked at none of some places keeps its type. -/
theorem type?_assignTypes (h : o.assignTypes name places args c = (.ok args', c'))
    (hother : ∀ i ∈ places, args.linked? i ≠ some x) : c'.table.type? x = c.table.type? x := by
  induction places generalizing args c with
  | nil =>
    cases h
    rfl
  | cons i places ih =>
    obtain ⟨type, args₁, c₁, -, hhead, htail⟩ := assignTypes_cons h
    rw [ih htail, type?_assignArgument hhead (hother i List.mem_cons_self)]
    intro j hj
    rw [linked?_assignArgument hhead]
    exact hother j (List.mem_cons_of_mem _ hj)

/-- The type that is given at one of some places, once those before it have theirs. -/
def typeAt? (o : Overload) (name : String) (places : List Nat) (args : Args) (c : Context)
    (k : Nat) : Option ColumnType :=
  match (o.assignTypes name (places.filter (· < k)) args c).1 with
  | .ok typed => (o.variableType name k typed).toOption
  | .error _ => none

/-- A list of places in order is cut at one of them. -/
theorem exists_append_of_mem {k : Nat} (hsorted : places.Pairwise (· < ·)) (hk : k ∈ places) :
    ∃ rest, places = places.filter (· < k) ++ k :: rest ∧ ∀ j ∈ rest, k < j := by
  obtain ⟨before, rest, rfl⟩ := List.append_of_mem hk
  obtain ⟨-, hafter, hacross⟩ := List.pairwise_append.mp hsorted
  have hrest : ∀ j ∈ rest, k < j := fun j hj => (List.pairwise_cons.mp hafter).1 j hj
  have hbefore : before.filter (· < k) = before :=
    List.filter_eq_self.mpr fun j hj => decide_eq_true (hacross j hj k List.mem_cons_self)
  have hnone : (k :: rest).filter (· < k) = [] := by
    refine List.filter_eq_nil_iff.mpr fun j hj => ?_
    obtain rfl | hj := List.mem_cons.mp hj
    · simp
    · have := hrest j hj
      simp only [decide_eq_true_eq]
      omega
  refine ⟨rest, ?_, hrest⟩
  rw [List.filter_append, hbefore, hnone, List.append_nil]

/-- A link to a named variable has the type that is given at its place, and so has the variable,
unless a later place links it too. -/
theorem named_assignTypes {name : String} {x : String} {k : Nat} (hbinds : c.binds.isSome = true)
    (hsorted : places.Pairwise (· < ·)) (h : o.assignTypes name places args c = (.ok args', c'))
    (hk : k ∈ places) (hlinks : args.linked? k = some (.named x)) :
    ∃ e, args'.get? k = some e ∧ e.linked? = some (.named x) ∧
      o.typeAt? name places args c k = some e.type ∧
      (∀ p, o.signature.parameters[k]? = some p → e.type = p.type) ∧
      ((∀ j ∈ places, k < j → args.linked? j ≠ some (.named x)) →
        c'.table.namedType? x = some e.type) := by
  obtain ⟨rest, hplaces, hrest⟩ := exists_append_of_mem hsorted hk
  rw [hplaces, assignTypes_append] at h
  obtain ⟨typed, c₁, hbefore, h⟩ := exists_of_bind_ok h
  obtain ⟨type, args₂, c₂, htype, hhead, htail⟩ := assignTypes_cons h
  have hlinked : ∀ j, args₂.linked? j = args.linked? j := fun j =>
    (linked?_assignArgument hhead j).trans (linked?_assignTypes hbefore j)
  obtain ⟨e, hget, he, htyped, htable⟩ := typed_assignArgument
    ((isSome_binds_assignTypes hbefore).trans hbinds) hhead
    ((linked?_assignTypes hbefore k).trans hlinks)
  have hsuffix : rest.Pairwise (· < ·) := by
    rw [hplaces] at hsorted
    exact (List.pairwise_cons.mp (List.pairwise_append.mp hsorted).2.1).2
  have hfree : k ∉ rest := fun hmem => Nat.lt_irrefl k (hrest k hmem)
  refine ⟨e, ((assignTypes_spec htail hsuffix).1 k hfree).trans hget, he, ?_, ?_, ?_⟩
  · rw [typeAt?, hbefore]
    dsimp only
    rw [htype, htyped]
    rfl
  · intro p hp
    rw [variableType_of_parameter hp] at htype
    cases htype
    exact htyped
  · intro hlast
    refine (type?_assignTypes (x := .named x) htail fun j hj => ?_).trans htable
    rw [hlinked]
    refine hlast j ?_ (hrest j hj)
    rw [hplaces]
    exact List.mem_append_right _ (List.mem_cons_of_mem _ hj)

/-- Arguments past the parameters are not rewritten. -/
theorem get?_rewriteAll_of_le {binds : BindTable} {i j : Nat} {ps : List Parameter}
    (h : rewriteAll binds i ps args = .ok args') (hj : i + ps.length ≤ j) :
    args'.get? j = args.get? j := by
  induction ps generalizing i args with
  | nil =>
    cases h
    rfl
  | cons p ps ih =>
    obtain ⟨args₁, hrest, hothers, -⟩ := rewriteAll_cons h
    rw [List.length_cons] at hj
    rw [ih hrest (by omega), hothers j (by omega)]

/-- What a place gives its type is prepared no further. -/
theorem rewriteArgument_of_type_eq {p : Parameter} {e : Evaluator}
    (hvariable : e.isConstant = false) (htype : e.type = p.type) (binds : BindTable)
    (position : Span) :
    rewriteArgument binds p.tag e position = .ok e := by
  have hkept : ∀ source, source ≠ .array → source ≠ .string →
      (p.tag == .string && e.type.tag == source) = false := by
    intro source harray hstring
    rw [htype, Parameter.tag, Parameter.isArray, ColumnType.isArray, Bool.and_eq_false_iff,
      beq_eq_false_iff_ne, beq_eq_false_iff_ne]
    by_cases hsource : p.type.tag = source
    · left
      rw [hsource, beq_false_of_ne harray, if_neg Bool.false_ne_true]
      exact hstring
    · exact .inr hsource
  unfold rewriteArgument
  simp only [hvariable, Bool.and_false, Bool.false_eq_true, if_false,
    hkept .uuid (by decide) (by decide), hkept .interval (by decide) (by decide)]

/-- The links to a named variable that a call has prepared, and the type that the variable has then.
-/
theorem named_adjust {name : String} {x : String} {k : Nat} {adjusted : Args}
    (hbinds : c.binds.isSome = true) (hsorted : places.Pairwise (· < ·))
    (h : o.adjust name places args c = (.ok adjusted, c'))
    (hk : k ∈ places) (hlinks : args.linked? k = some (.named x)) :
    ∃ e, adjusted.get? k = some e ∧ e.linked? = some (.named x) ∧
      o.typeAt? name places args c k = some e.type ∧
      (∀ p, o.signature.parameters[k]? = some p → e.type = p.type) ∧
      ((∀ j ∈ places, k < j → args.linked? j ≠ some (.named x)) →
        c'.table.namedType? x = some e.type) := by
  obtain ⟨typed, htypes, hrewrite⟩ := adjust_ok h
  obtain ⟨e, hget, he, hgiven, hparameter, htable⟩ :=
    named_assignTypes hbinds hsorted htypes hk hlinks
  refine ⟨e, ?_, he, hgiven, hparameter, htable⟩
  cases hp : o.signature.parameters[k]? with
  | none =>
    rw [get?_rewriteAll_of_le hrewrite (by simpa using hp), hget]
  | some p =>
    obtain ⟨e', position, hget', hresult⟩ :=
      (rewriteAll_spec hrewrite).2 k p e hp (by rwa [Nat.zero_add])
    rw [rewriteArgument_of_type_eq (Evaluator.isConstant_of_linked? he) (hparameter p hp)]
      at hresult
    cases hresult
    rwa [Nat.zero_add] at hget'

end Overload

namespace Catalog

variable {cat : Catalog} {settings : Settings} {name x : String} {span : Span} {args : Args}
  {c after : Context} {e : Evaluator} {j k : Nat}

/-- What a call makes of a named variable that it links at several places and that has no type yet.
Each link keeps the type that is given at its place, which is that of the place's parameter, and the
bind table has the type that is given at the last of the places. So the links agree with each other
and with the table exactly where the types that are given at these places are all the same. -/
theorem namedLinks_of_resolve {type : ColumnType} (hentry : c.table.namedType? x = some type)
    (huntyped : type.isUndefined = true)
    (htypes : ∀ e ∈ args.evaluators, e.linked? = some (.named x) → e.type = type)
    (hj : args.linked? j = some (.named x)) (hk : args.linked? k = some (.named x)) (hne : j ≠ k)
    (h : cat.resolve settings name span args c = (.ok e, after)) :
    ∃ overloads o adjusted, cat.overloads? name = some overloads ∧
      let scanned := scan c.table false c.inWindow 0 overloads .start args
      let given := o.typeAt? name (undefinedPlaces args) scanned.2 c
      scanned.1.winner.bind (overloads[·]?) = some o ∧
        o.adjust name (undefinedPlaces args) scanned.2 c = (.ok adjusted, after) ∧
        o.create settings name span adjusted after = (.ok e, after) ∧
        (∀ i, args.linked? i = some (.named x) → ∃ link, adjusted.get? i = some link ∧
          link.linked? = some (.named x) ∧ given i = some link.type ∧
          ∀ p, o.signature.parameters[i]? = some p → link.type = p.type) ∧
        (∃ last, args.linked? last = some (.named x) ∧
          (∀ i, args.linked? i = some (.named x) → i ≤ last) ∧
          after.table.namedType? x = given last) ∧
        ((∀ i link, args.linked? i = some (.named x) → adjusted.get? i = some link →
            after.table.namedType? x = some link.type) ↔
          ∀ i i', args.linked? i = some (.named x) → args.linked? i' = some (.named x) →
            given i = given i') := by
  obtain ⟨overloads, o, adjusted, found, wins, adjusts, creates⟩ := exists_ranked_of_resolve
    (Args.isCastCall_of_linked? hj hk hne name) (Args.isEmpty_of_linked? hj) h
  have hplace : ∀ i, args.linked? i = some (.named x) → i ∈ undefinedPlaces args := by
    intro i hi
    obtain ⟨link, hget, hlinked⟩ := Option.bind_eq_some_iff.mp hi
    refine mem_undefinedPlaces.mpr ⟨link, hget, ?_⟩
    rw [Evaluator.isUndefined, htypes link (List.mem_of_getElem? hget) hlinked, huntyped]
  have hscored := (evolve_scan c.table false c.inWindow 0 overloads .start args).linked?_eq
  have hprepared := fun i (hi : args.linked? i = some (.named x)) =>
    Overload.named_adjust (Context.isSome_binds_of_namedType? hentry)
      (pairwise_undefinedPlaces args) adjusts (hplace i hi) ((hscored i).trans hi)
  obtain ⟨last, hlast, hmax⟩ := Args.exists_last_linked hj
  refine ⟨overloads, o, adjusted, found, ?_⟩
  intro scanned given
  have htable : after.table.namedType? x = given last := by
    obtain ⟨link, -, -, hgiven, -, htable⟩ := hprepared last hlast
    refine (htable fun i _ hi hlinks => ?_).trans hgiven.symm
    have := hmax i ((hscored i).symm.trans hlinks)
    omega
  refine ⟨wins, adjusts, creates, ?_, ⟨last, hlast, hmax, htable⟩, ?_, ?_⟩
  · intro i hi
    obtain ⟨link, hget, hlinked, hgiven, hparameter, -⟩ := hprepared i hi
    exact ⟨link, hget, hlinked, hgiven, hparameter⟩
  · intro hagree
    have hsame : ∀ i, args.linked? i = some (.named x) → given i = after.table.namedType? x := by
      intro i hi
      obtain ⟨link, hget, -, hgiven, -⟩ := hprepared i hi
      exact hgiven.trans (hagree i link hi hget).symm
    exact fun i i' hi hi' => (hsame i hi).trans (hsame i' hi').symm
  · intro hsame i link hi hget
    obtain ⟨link', hget', -, hgiven, -⟩ := hprepared i hi
    rw [hget] at hget'
    cases hget'
    exact htable.trans ((hsame last i hlast hi).trans hgiven)

/-- A function of two parameters, which holds its arguments. -/
def pairFunction (first second : ColumnType) : Overload :=
  ⟨⟨"f", [⟨first, false⟩, ⟨second, false⟩], none⟩,
    { (default : Factory) with
      build := fun _ args _ _ => .ok (some
        (.custom ⟨"f", .long, .none, .scalar, fun _ _ => .null⟩ 0 args.evaluators)) }⟩

/-- The arguments of `f(:x, :x)`, where the variable has no type. -/
def repeatedName : Args :=
  ⟨[.namedLink "x" .undefined, .namedLink "x" .undefined], [⟨2, 2⟩, ⟨6, 2⟩]⟩

/-- A context whose table has the variable without a type. -/
def withUntypedName : Context :=
  (Context.fresh 0).withTable (BindTable.empty.setNamed "x" .undefined .null)

/-- A function of two numbers of one type gives its two links, and their variable, that type. -/
theorem namedLinks_of_resolve_int_int :
    let o := pairFunction .int .int
    let cat : Catalog := ⟨[("f", [o])], []⟩
    ∃ e adjusted after,
      cat.resolve .default "f" ⟨0, 1⟩ repeatedName withUntypedName = (.ok e, after) ∧
        o.create .default "f" ⟨0, 1⟩ adjusted after = (.ok e, after) ∧
        ∀ i link, repeatedName.linked? i = some (.named "x") → adjusted.get? i = some link →
          after.table.namedType? "x" = some link.type := by
  intro o cat
  have hentry : withUntypedName.table.namedType? "x" = some .undefined := rfl
  have hfirst : repeatedName.linked? 0 = some (.named "x") := rfl
  have hsecond : repeatedName.linked? 1 = some (.named "x") := rfl
  have huntyped : ∀ e ∈ repeatedName.evaluators, e.linked? = some (.named "x") →
      e.type = .undefined := by
    intro e he _
    obtain rfl | he := List.mem_cons.mp he
    · rfl
    · rw [List.mem_singleton.mp he]
      rfl
  obtain ⟨e, after, hresolve⟩ : ∃ e after,
      cat.resolve .default "f" ⟨0, 1⟩ repeatedName withUntypedName = (.ok e, after) := ⟨_, _, rfl⟩
  obtain ⟨overloads, o', adjusted, found, wins, -, creates, links, -, hagree⟩ :=
    namedLinks_of_resolve hentry rfl huntyped hfirst hsecond (by decide) hresolve
  cases found
  cases wins
  refine ⟨e, adjusted, after, hresolve, creates, hagree.mpr ?_⟩
  have hint : ∀ i, repeatedName.linked? i = some (.named "x") →
      o.typeAt? "f" (undefinedPlaces repeatedName) repeatedName withUntypedName i = some .int := by
    intro i hi
    obtain ⟨link, -, -, hgiven, hparameter⟩ := links i hi
    refine hgiven.trans (congrArg some ?_)
    match i with
    | 0 => exact hparameter ⟨.int, false⟩ rfl
    | 1 => exact hparameter ⟨.int, false⟩ rfl
    | _ + 2 => cases hi
  intro i i' hi hi'
  exact (hint i hi).trans (hint i' hi').symm

/-- `f(int, string)` leaves the first link of a variable an INT, and the bind table, like the second
link, with a STRING. -/
theorem named_disagree_int_string :
    let cat : Catalog := ⟨[("f", [pairFunction .int .string])], []⟩
    withUntypedName.table.namedType? "x" = some .undefined ∧
      ∃ e after, cat.resolve .default "f" ⟨0, 1⟩ repeatedName withUntypedName = (.ok e, after) ∧
        e.args = [.namedLink "x" .int, .namedLink "x" .string] ∧
        after.table.namedType? "x" = some .string :=
  ⟨rfl, _, _, rfl, rfl, rfl⟩

end Catalog
end SqlResolution
