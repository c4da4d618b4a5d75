import SqlResolution.Proofs.Builtin.Congruence
import SqlResolution.Proofs.Builtin.TypeSoundness

/-!
# Binding other values after a resolution

Resolution reads the types of variables, and the values of constants. It reads the value of a
variable in one place: the list of an `in` call is read when the call is built. So values may be
bound anew after a resolution, except to the variables of such a list.
-/
namespace SqlResolution

open Steps

/-- Contexts that differ only in the values of variables. -/
structure Context.SameTypes (c c' : Context) : Prop where
  frame : c.frame = c'.frame
  type? : ∀ x, c.table.type? x = c'.table.type? x

namespace Context.SameTypes

variable {c c' : Context}

theorem isSome_binds (h : c.SameTypes c') : c.binds.isSome = c'.binds.isSome :=
  isSome_binds_of_frame h.frame

theorem typeGiven (h : c.SameTypes c') (type : ColumnType) (x : Variable) :
    c.table.typeGiven type x = c'.table.typeGiven type x := by
  cases x with
  | named name => rfl
  | slot i =>
    have hslot : c.table.slotType? i = c'.table.slotType? i := h.type? (.slot i)
    simp only [BindTable.typeGiven, BindTable.definedType, hslot]

/-- Variables are given their types alike. -/
theorem give (h : c.SameTypes c') (type : ColumnType) (x : Variable) :
    (c.withTable (c.table.give type x)).SameTypes (c'.withTable (c'.table.give type x)) := by
  refine ⟨by simp [h.frame], ?_⟩
  have hsome := h.isSome_binds
  cases hbinds : c.binds with
  | none =>
    have hbinds' : c'.binds = none := by simpa [hbinds] using hsome
    rw [withTable_of_none hbinds, withTable_of_none hbinds']
    exact h.type?
  | some b =>
    have hbinds' : c'.binds.isSome = true := by simpa [hbinds] using hsome.symm
    rw [table_withTable (by simp [hbinds]), table_withTable hbinds']
    intro y
    by_cases hy : y = x
    · simp only [hy, BindTable.type?, BindTable.lookup?_give_self, Option.map_some,
        h.typeGiven type x]
    · have htype := h.type? y
      simp only [BindTable.type?, BindTable.lookup?_give_of_ne hy] at htype ⊢
      exact htype

end Context.SameTypes

/-- Contexts that differ only in the values of variables, which are those of two tables. -/
structure Context.Rebound (b b' : BindTable) (c c' : Context) : Prop where
  sameTypes : c.SameTypes c'
  settles : b.Settles c.table
  settles' : b'.Settles c'.table

/-- A plain evaluator shows the same to the resolver, whatever the values of variables are. -/
theorem uniform_rebound (b b' : BindTable) (P : Variable → Prop) :
    Uniform (Context.Rebound b b') (SameEvaluator (Evaluator.Plain P)) where
  type := by
    rintro e _ ⟨rfl, -⟩
    rfl
  isConstant := by
    rintro e _ ⟨rfl, -⟩
    rfl
  isRuntimeConstant := by
    rintro e _ ⟨rfl, -⟩
    rfl
  typeConstant := by
    rintro e _ ⟨rfl, -⟩
    rfl
  evalConstant := by
    rintro c c' e _ - ⟨rfl, hplain⟩ hconstant
    have hvalue := hplain.value_of_isConstant c.table c'.table .empty .empty hconstant
    rw [Evaluator.evalConstant, Evaluator.evalConstant, hplain.eval_eq, hplain.eval_eq]
    exact ⟨hvalue, rfl, hplain⟩
  assignType := by
    rintro c c' e _ hS ⟨rfl, hplain⟩ - type
    obtain ⟨declared, x, hx, rfl⟩ | hrefuses := hplain.link_or_cannotAssign
    · rw [Evaluator.assignType_link, Evaluator.assignType_link, hS.sameTypes.typeGiven type x]
      refine .ok ⟨⟨rfl, Evaluator.plain_link_iff.mpr hx⟩, hS.sameTypes.give type x, ?_, ?_⟩
      · exact Context.settles_give hS.settles type x
      · exact Context.settles_give hS.settles' type x
    · rw [hrefuses, hrefuses]
      exact .error _
  constant _ _ := ⟨rfl, by simp [Evaluator.Plain]⟩
  adapt := by
    rintro e _ adapter ⟨rfl, hplain⟩ -
    exact ⟨rfl, by simpa [Evaluator.Plain] using hplain⟩

namespace Node

/-- Whether two tables hold the same values for the variables of a tree. -/
def Agrees (b b' : BindTable) (n : Node) : Prop :=
  ∀ m ∈ n.postorder, ∀ x, m.Links x → b.valueOf x = b'.valueOf x

/-- Whether two tables hold the same values for the variables in the list of an `in` call. -/
def ListAgrees (b b' : BindTable) (n : Node) : Prop :=
  n.calls "in" = true → ∀ m ∈ n.args.tail, m.Agrees b b'

/-- A variable that keeps its value where the variables of a tree do. -/
def Fixes (b b' : BindTable) (n : Node) (x : Variable) : Prop :=
  n.Agrees b b' → b.valueOf x = b'.valueOf x

variable {b b' : BindTable} {n m : Node}

theorem Agrees.of_mem_args (h : n.Agrees b b') (hm : m ∈ n.args) : m.Agrees b b' := by
  intro k hk x hx
  refine h k ?_ x hx
  rw [postorder_eq, postorders_eq_flatMap]
  exact List.mem_append_left _ (List.mem_flatMap.mpr ⟨m, hm, hk⟩)

theorem mem_postorder_self (n : Node) : n ∈ n.postorder := by
  rw [postorder_eq]
  exact List.mem_append_right _ (List.mem_singleton_self n)

end Node

/-- The builtins build plain evaluators from plain arguments, whatever the values of variables are. -/
theorem Builtin.congruence_plain (P : Variable → Prop) :
    Congruence (SameEvaluator (Evaluator.Plain P)) where
  type := by
    rintro e _ ⟨rfl, -⟩
    rfl
  isConstant := by
    rintro e _ ⟨rfl, -⟩
    rfl
  value_of_isConstant := by
    rintro e _ b b' ⟨rfl, hplain⟩ hconstant
    exact hplain.value_of_isConstant b b' .empty .empty hconstant
  refl hplain := ⟨rfl, hplain.mono fun _ hx => hx.elim⟩
  fold := by
    rintro e _ b b' ⟨rfl, hplain⟩ hconstant
    exact ⟨hplain.fold_congr hconstant b b', hplain.fold b⟩
  adapt := by
    rintro e _ adapter source target - ⟨rfl, hplain⟩
    exact ⟨rfl, by simpa [Evaluator.Plain] using hplain⟩
  scalar := by
    intro es es' i k haligned
    obtain ⟨rfl, hplain⟩ := forall_mem_of_aligned_same haligned
    exact ⟨rfl, by simpa [Evaluator.Plain] using Evaluator.plainAll_iff.mpr hplain⟩
  concat := by
    intro es es' i scales haligned
    obtain ⟨rfl, hplain⟩ := forall_mem_of_aligned_same haligned
    exact ⟨rfl, by simpa [Evaluator.Plain] using Evaluator.plainAll_iff.mpr hplain⟩
  member := by
    rintro e _ texts holdsNull ⟨rfl, hplain⟩
    exact ⟨rfl, by simpa [Evaluator.Plain] using hplain⟩
  castOrNull := by
    rintro e _ scales target - ⟨rfl, hplain⟩
    refine ⟨rfl, ?_⟩
    unfold castOrNull
    split
    · simp [Evaluator.nullOf, Evaluator.Plain]
    · simpa [Evaluator.Plain] using hplain
  total := by
    rintro e _ which ⟨rfl, hplain⟩
    exact ⟨rfl, by simpa [Evaluator.Plain] using hplain⟩
  runningAverage := by
    rintro e _ ⟨rfl, hplain⟩
    exact ⟨rfl, by simpa [Evaluator.Plain] using hplain⟩

namespace Node

/-- An evaluator of a node whose variables are those of the node. -/
def SameOf (b b' : BindTable) (n : Node) : Evaluator → Evaluator → Prop :=
  SameEvaluator (Evaluator.Plain (n.Fixes b b'))

/-- A node that calls no random function, and whose list, if it calls `in`, stays as it is. -/
def IsRebindable (b b' : BindTable) (n : Node) : Prop := n.isRandom = false ∧ n.ListAgrees b b'

/-- A call of a builtin does alike under both tables. -/
theorem buildsAlike_rebound {b b' : BindTable} {n : Node} (hn : n.IsRebindable b b')
    (hcall : n.isCall = true) {overloads : List Overload} {o : Overload}
    (hname : Builtin.catalog.overloads? n.token = some overloads) (ho : o ∈ overloads)
    (settings : Settings) :
    o.BuildsAlike (Context.Rebound b b')
      (fun i => SameEvaluator (Evaluator.Plain fun x => ∃ m, n.args[i]? = some m ∧ m.Fixes b b' x))
      (n.SameOf b b') settings settings n.token n.span := by
  obtain ⟨hrandom, hlist⟩ := hn
  obtain ⟨builtin, hall, rfl, hcalls⟩ := Builtin.exists_of_call hcall hname ho
  refine builtin.buildsAlike ?_ ?_
  · intro c c' hS
    exact congrArg (·.allowNonDeterministic) hS.sameTypes.frame
  intro args args' haligned c c' hS
  have hargs : args.Aligned (fun _ => n.SameOf b b') args' := by
    refine ⟨haligned.positions, haligned.evaluators.mono ?_⟩
    rintro i e _ ⟨rfl, hplain⟩
    refine ⟨rfl, hplain.mono ?_⟩
    rintro x ⟨m, hm, hx⟩ hagrees
    exact hx (hagrees.of_mem_args (List.mem_of_getElem? hm))
  have hvalues : builtin = .member → args.evaluators.tail.map (fun e => e.value c.table .empty) =
      args'.evaluators.tail.map fun e => e.value c'.table .empty := by
    rintro rfl
    obtain ⟨rfl, hplaces⟩ := Args.eq_of_aligned_same
      (J := fun i => Evaluator.Plain fun x => ∃ m, n.args[i]? = some m ∧ m.Fixes b b' x) haligned
    refine List.map_congr_left fun e he => ?_
    obtain ⟨i, hi⟩ := List.getElem?_of_mem he
    rw [List.getElem?_tail] at hi
    refine (hplaces (i + 1) e hi).value_congr ?_ .empty
    rintro x ⟨m, hm, hx⟩
    rw [← List.getElem?_tail] at hm
    rw [hS.settles.valueOf, hS.settles'.valueOf]
    exact hx (hlist hcalls m (List.mem_of_getElem? hm))
  have hnow : c.now = c'.now := congrArg (·.now) hS.sameTypes.frame
  have hbuild := Builtin.outcome_build (Builtin.congruence_plain (n.Fixes b b'))
    n.span hall (Builtin.isRandom_of_call hrandom hcalls) (@rfl _ settings.scales) hnow hargs hvalues
  refine hbuild.mono ?_
  rintro e _ ⟨rfl, hplain⟩
  exact ⟨rfl, hplain.finish_congr settings c.table c'.table, hplain.finish settings c.table⟩

end Node

namespace Resolver

theorem nodesAlike_rebound (settings : Settings) (compilers : List Compiler) (b b' : BindTable) :
    NodesAlike (Context.Rebound b b') (Node.IsRebindable b b') (fun _ n => n.SameOf b b')
      ⟨Builtin.catalog, settings, compilers⟩ ⟨Builtin.catalog, settings, compilers⟩ where
  pushTimestampRequired required hS := by
    obtain ⟨⟨hframe, htype⟩, hsettles, hsettles'⟩ := hS
    exact ⟨⟨congrArg (·.pushTimestampRequired required) hframe, htype⟩, hsettles, hsettles'⟩
  popTimestampRequired hS := by
    obtain ⟨⟨hframe, htype⟩, hsettles, hsettles'⟩ := hS
    exact ⟨⟨congrArg (·.popTimestampRequired) hframe, htype⟩, hsettles, hsettles'⟩
  kind := by
    rintro schema n e _ ⟨rfl, -⟩
    rfl
  literal hliteral := ⟨rfl, hliteral.plain⟩
  column _ := ⟨rfl, by simp [Evaluator.Plain]⟩
  link := by
    intro schema n c c' _ hargs hkind hS
    rw [← Link.ofNode_congr hS.sameTypes.isSome_binds hS.sameTypes.type? n.span n.token]
    refine .refl fun e he => ⟨rfl, ?_⟩
    obtain ⟨x, hx, rfl⟩ := Link.ofNode_ok he
    rw [Evaluator.plain_link_iff]
    exact fun hagrees => hagrees n n.mem_postorder_self x ⟨hargs, hkind, hx⟩
  cursor _ _ _ := ⟨rfl, by simp [Evaluator.Plain]⟩
  call := by
    intro schema n es es' hn hcall haligned
    have hargs := haligned.aligned (R := fun i => SameEvaluator (Evaluator.Plain fun x =>
        ∃ m, n.args[i]? = some m ∧ m.Fixes b b' x)) (i := 0) (by
      rintro k m hm e _ ⟨rfl, hplain⟩
      rw [Nat.zero_add]
      exact ⟨rfl, hplain.mono fun x hx => ⟨m, hm, hx⟩⟩)
    refine Builtin.catalog.relates_resolve (fun _ => uniform_rebound b b' _) ?_ ?_ ?_ ⟨rfl, hargs⟩
    · intro c c' hS
      exact congrArg (·.inWindow) hS.sameTypes.frame
    · rintro e _ ⟨rfl, hplain⟩
      refine ⟨rfl, hplain.mono ?_⟩
      rintro x ⟨m, hm, hx⟩ hagrees
      exact hx (hagrees.of_mem_args (List.mem_of_getElem? hm))
    · intro overloads hname o ho
      exact n.buildsAlike_rebound hn hcall hname ho settings

end Resolver

/-- Values that are bound after a resolution are seen as if they had been bound before it. A tree
resolves to the same evaluator, or fails with the same error, under both tables, where no `in` call
has a variable in its list whose value they do not agree on. -/
theorem Builtin.rebinding_of_resolve (settings : Settings) (compilers : List Compiler)
    (root : Node) (schema : Schema) (w w' : Walk) (hcontexts : w.context.SameTypes w'.context)
    (hroot : ∀ n ∈ root.postorder, n.IsRebindable w.context.table w'.context.table)
    (hplans : ∀ compiler ∈ compilers, ∀ text, (compiler text).Alike Context.SameTypes
      (Node.IsRebindable w.context.table w'.context.table) (fun _ _ e e' => e = e')
      (compiler text))
    {result result' : Except ResolveError Evaluator} {after after' : Walk}
    (hresolve : (Resolver.mk catalog settings compilers).resolve root schema w = (result, after))
    (hresolve' : (Resolver.mk catalog settings compilers).resolve root schema w' =
      (result', after')) :
    result = result' ∧ after.context.SameTypes after'.context ∧
      ∀ e e', result = .ok e → result' = .ok e' → ∀ rebound : BindTable,
        (∀ x, rebound.valueOf x = w'.context.table.valueOf x) → ∀ rows,
          e.evalRows rebound rows = e'.evalRows after'.context.table rows ∧
          ∀ first, e.feed? rebound first rows = e'.feed? after'.context.table first rows := by
  have hnodes := Resolver.nodesAlike_rebound settings compilers w.context.table w'.context.table
  have hcompilers : ∀ compiler ∈ compilers, ∀ text, (compiler text).Alike
      (Context.Rebound w.context.table w'.context.table)
      (Node.IsRebindable w.context.table w'.context.table)
      (fun _ n => n.SameOf w.context.table w'.context.table) (compiler text) := by
    intro compiler hmem text
    exact (hplans compiler hmem text).mono (fun c c' hS => hS.sameTypes) (fun n hn => hn)
      fun schema n e e' hsame => hsame.1
  have hrun := hnodes.relates_resolve hroot rfl hcompilers schema w w'
    ⟨hcontexts, .refl _, .refl _⟩
  rw [hresolve, hresolve'] at hrun
  obtain ⟨hresult, hafter⟩ := hrun
  refine ⟨(hresult.mono fun e e' hsame => hsame.1).eq, hafter.sameTypes, ?_⟩
  rintro e e' rfl rfl rebound hrebound rows
  obtain ⟨hsame, hplain⟩ : root.SameOf w.context.table w'.context.table e e' := by
    cases hresult with
    | ok related => exact related
  have hvalues : ∀ x, rebound.valueOf x = after'.context.table.valueOf x := by
    intro x
    rw [hrebound]
    exact (hafter.settles'.valueOf x).symm
  rw [← hsame]
  exact ⟨hplain.evalRows_congr (fun x _ => hvalues x) rows,
    fun first => hplain.feed?_congr (fun x _ => hvalues x) first rows⟩

/-- The tree of `in($1, $2)`. -/
def memberTree : Node :=
  ⟨.function, "in", ⟨0, 2⟩, [⟨.bindVariable, "$1", ⟨3, 2⟩, [], none⟩,
    ⟨.bindVariable, "$2", ⟨7, 2⟩, [], none⟩], none⟩

/-- A context with texts in two slots. -/
def twoTexts (s t : String) : Context :=
  { Context.fresh 0 with binds := some ⟨[(0, ⟨.string, .str s⟩), (1, ⟨.string, .str t⟩)], []⟩ }

theorem Builtin.overloads?_in : catalog.overloads? "in" = some [member.overload] :=
  overloads?_of_filter (List.cons_ne_nil member []) (by decide +kernel)

/-- The text in the second slot is read when the call is built. -/
theorem resolve_memberTree {c : Catalog}
    (hname : c.overloads? "in" = some [Builtin.member.overload]) (s t : String) :
    (Resolver.mk c .default []).resolve memberTree .empty (.idle (twoTexts s t)) =
      (.ok (.member [t] false (.slotLink 0 .string)), .idle (twoTexts s t)) := by
  have hcall : c.resolve .default "in" ⟨0, 2⟩
      ⟨[.slotLink 0 .string, .slotLink 1 .string], [⟨3, 2⟩, ⟨7, 2⟩]⟩ (twoTexts s t) =
        (.ok (.member [t] false (.slotLink 0 .string)), twoTexts s t) := by
    rw [Catalog.resolve_eq hname]
    rfl
  exact Resolver.resolve_of_args (List.cons_ne_nil _ _) rfl rfl hcall

theorem sameTypes_twoTexts (s t s' t' : String) : (twoTexts s t).SameTypes (twoTexts s' t') := by
  refine ⟨rfl, ?_⟩
  intro x
  cases x with
  | named name => rfl
  | slot i =>
    match i with
    | 0 | 1 | _ + 2 => rfl

/-- The list of the tree is the second slot alone. -/
theorem isRebindable_memberTree (s s' t : String) :
    ∀ n ∈ memberTree.postorder, n.IsRebindable (twoTexts s t).table (twoTexts s' t).table := by
  have hleaf : ∀ n : Node, n.isCall = false →
      n.IsRebindable (twoTexts s t).table (twoTexts s' t).table := by
    intro n hn
    refine ⟨by simp [Node.isRandom, Node.calls, hn], ?_⟩
    intro hcalls
    simp [Node.calls, hn] at hcalls
  have hroot : memberTree.IsRebindable (twoTexts s t).table (twoTexts s' t).table := by
    refine ⟨by decide, ?_⟩
    intro _ m hm n hn x hx
    obtain rfl := List.mem_singleton.mp hm
    obtain rfl := List.mem_singleton.mp hn
    obtain ⟨-, -, hlinked⟩ := hx
    cases hlinked
    rfl
  intro n hn
  simp only [memberTree, Node.postorder, Node.postorders, List.nil_append, List.append_nil,
    List.cons_append, List.mem_cons, List.not_mem_nil, or_false] at hn
  obtain rfl | rfl | rfl := hn
  · exact hleaf _ rfl
  · exact hleaf _ rfl
  · exact hroot

/-- The first variable of `in($1, $2)` may be bound anew after the resolution. -/
theorem Builtin.rebinding_of_resolve_memberTree :
    let r : Resolver := ⟨catalog, .default, []⟩
    let w : Walk := .idle (twoTexts "a" "x")
    let w' : Walk := .idle (twoTexts "x" "x")
    w.context.SameTypes w'.context ∧
      (∀ n ∈ memberTree.postorder, n.IsRebindable w.context.table w'.context.table) ∧
      ∃ e e' after after', r.resolve memberTree .empty w = (.ok e, after) ∧
        r.resolve memberTree .empty w' = (.ok e', after') ∧
        e.evalRows w'.context.table [.empty] = e'.evalRows after'.context.table [.empty] ∧
        (e.evalRows w'.context.table [.empty]).1 = [.boolean true] := by
  intro r w w'
  have hcontexts := sameTypes_twoTexts "a" "x" "x" "x"
  have hroot := isRebindable_memberTree "a" "x" "x"
  have hrun := resolve_memberTree overloads?_in "a" "x"
  have hrun' := resolve_memberTree overloads?_in "x" "x"
  obtain ⟨-, -, hrebinds⟩ := rebinding_of_resolve .default [] memberTree .empty w w' hcontexts hroot
    (fun _ hmem => by cases hmem) hrun hrun'
  refine ⟨hcontexts, hroot, _, _, _, _, hrun, hrun', ?_, ?_⟩
  · exact (hrebinds _ _ rfl rfl w'.context.table (fun _ => rfl) [.empty]).1
  · simp only [Evaluator.evalRows, Evaluator.eval]
    rfl

/-- The second variable of `in($1, $2)` keeps the value that it had at resolution. -/
theorem Builtin.not_rebinding_of_memberTree :
    let r : Resolver := ⟨catalog, .default, []⟩
    let w : Walk := .idle (twoTexts "b" "a")
    let w' : Walk := .idle (twoTexts "b" "b")
    w.context.SameTypes w'.context ∧
      ∃ e e' after after', r.resolve memberTree .empty w = (.ok e, after) ∧
        r.resolve memberTree .empty w' = (.ok e', after') ∧
        e.value w'.context.table .empty = .boolean false ∧
        e'.value after'.context.table .empty = .boolean true := by
  intro r w w'
  refine ⟨sameTypes_twoTexts "b" "a" "b" "b", _, _, _, _, resolve_memberTree overloads?_in "b" "a",
    resolve_memberTree overloads?_in "b" "b", ?_, ?_⟩
  · rw [Evaluator.value_member]
    rfl
  · rw [Evaluator.value_member]
    rfl

end SqlResolution
