import SqlResolution.Evaluator.Explain
import SqlResolution.Proofs.Evaluator.Folding

/-!
# The evaluators of a tree

A tree is its root and the trees of the arguments, so what the arguments pass on to an evaluator
holds of a whole tree by induction. A property that evaluation and wrapping leave alone holds of
every evaluator of a tree after the tree was evaluated, folded or memoized.
-/
namespace SqlResolution.Evaluator

theorem nodes_eq (e : Evaluator) : e.nodes = e :: nodesOf e.args := by
  cases e <;> simp [nodes, args, nodesOf]

theorem mem_nodes_iff {n e : Evaluator} :
    n ∈ e.nodes ↔ n = e ∨ ∃ arg ∈ e.args, n ∈ arg.nodes := by
  rw [nodes_eq, List.mem_cons, nodesOf_eq_flatMap, List.mem_flatMap]

theorem sizeOf_lt_of_mem_args {arg : Evaluator} : {e : Evaluator} → arg ∈ e.args →
    sizeOf arg < sizeOf e
  | scalar _ args, h | concat _ args, h | custom _ _ args, h => by
    have hlt := List.sizeOf_lt_of_mem (show arg ∈ args from h)
    simp
    omega
  | adapt _ _ _ _, h | member _ _ _, h | cast _ _ _, h | total _ _ _, h
  | runningAverage _ _ _, h | memo _ _, h => by
    cases List.mem_singleton.mp h
    simp only [adapt.sizeOf_spec, member.sizeOf_spec, cast.sizeOf_spec, total.sizeOf_spec,
      runningAverage.sizeOf_spec, memo.sizeOf_spec]
    omega
  | constant _ _, h | typeName _, h | column _ _ _, h | slotLink _ _, h | namedLink _ _, h
  | cursor _, h | count _, h | rowNumber _, h | rank, h | randomInt _, h | randomDouble _, h
  | now _, h => by cases h

/-- What holds of an evaluator when it holds of its arguments holds of every evaluator. -/
@[elab_as_elim]
theorem induction_args {P : Evaluator → Prop} (h : ∀ e : Evaluator, (∀ arg ∈ e.args, P arg) → P e)
    (e : Evaluator) : P e :=
  h e fun arg _ => induction_args h arg
termination_by e
decreasing_by exact sizeOf_lt_of_mem_args ‹_›

/-- Every evaluator of the tree has a property. -/
def AllNodes (Q : Evaluator → Prop) (e : Evaluator) : Prop := ∀ n ∈ e.nodes, Q n

variable {Q : Evaluator → Prop} {e : Evaluator}

theorem allNodes_iff : e.AllNodes Q ↔ Q e ∧ ∀ arg ∈ e.args, arg.AllNodes Q := by
  unfold AllNodes
  constructor
  · intro h
    exact ⟨h e (mem_nodes_iff.mpr (.inl rfl)),
      fun arg harg n hn => h n (mem_nodes_iff.mpr (.inr ⟨arg, harg, hn⟩))⟩
  · rintro ⟨he, hargs⟩ n hn
    obtain rfl | ⟨arg, harg, hn⟩ := mem_nodes_iff.mp hn
    · exact he
    · exact hargs arg harg n hn

/-- What a node of a tree becomes when it is no call. -/
def isAtom : Evaluator → Bool
  | constant _ _ | typeName _ | column _ _ _ | slotLink _ _ | namedLink _ _ | cursor _ => true
  | _ => false

/-- Evaluation evaluates all arguments, or none. -/
theorem args_eval (b : BindTable) (row : Row) : (e : Evaluator) →
    (e.eval b row).2.args = e.args ∨
      (e.eval b row).2.args = e.args.map fun arg => (arg.eval b row).2
  | scalar _ es | concat _ es => by
    right
    have hes : ∀ es : List Evaluator,
        (evalAll b row es).2 = es.map fun arg => (arg.eval b row).2 := by
      intro es
      induction es with
      | nil => rfl
      | cons e es ih => simp only [evalAll, List.map_cons, ih]
    simp only [eval, args, hes]
  | adapt _ _ _ _ | member _ _ _ | cast _ _ _ => .inr (by simp [eval, args])
  | memo _ _ => by
    rw [eval]
    split
    · exact .inl rfl
    · exact .inr rfl
  | total _ _ _ | runningAverage _ _ _ | custom _ _ _ | constant _ _ | typeName _ | column _ _ _
  | slotLink _ _ | namedLink _ _ | cursor _ | count _ | rowNumber _ | rank | randomInt _
  | randomDouble _ | now _ => .inl (by simp only [eval, args])

/-- A property that atoms have, and that evaluating an evaluator, adapting it and keeping its results
leave alone. -/
structure Passes (Q : Evaluator → Prop) : Prop where
  atom : ∀ {e}, e.isAtom = true → Q e
  eval : ∀ {e} (b : BindTable) (row : Row), Q e → Q (e.eval b row).2
  adapt : ∀ {e} (adapter : Adapter) (source target : ColumnType), Q e →
    Q (.adapt adapter source target e)
  memo : ∀ {e} (cache : Option (Int64 × Value)), Q e → Q (.memo cache e)

namespace AllNodes

theorem root (h : e.AllNodes Q) : Q e := (allNodes_iff.mp h).1

theorem args (h : e.AllNodes Q) : ∀ arg ∈ e.args, arg.AllNodes Q := (allNodes_iff.mp h).2

theorem atom (hQ : Passes Q) (h : e.isAtom = true) : e.AllNodes Q := by
  have hargs : e.args = [] := by
    cases e <;> first | rfl | cases h
  refine allNodes_iff.mpr ⟨hQ.atom h, fun arg harg => ?_⟩
  rw [hargs] at harg
  cases harg

theorem adapt (hQ : Passes Q) (h : e.AllNodes Q) (adapter : Adapter) (source target : ColumnType) :
    (Evaluator.adapt adapter source target e).AllNodes Q :=
  allNodes_iff.mpr ⟨hQ.adapt adapter source target h.root, List.forall_mem_singleton.mpr h⟩

theorem memo (hQ : Passes Q) (h : e.AllNodes Q) (cache : Option (Int64 × Value)) :
    (Evaluator.memo cache e).AllNodes Q :=
  allNodes_iff.mpr ⟨hQ.memo cache h.root, List.forall_mem_singleton.mpr h⟩

theorem eval (hQ : Passes Q) (h : e.AllNodes Q) (b : BindTable) (row : Row) :
    (e.eval b row).2.AllNodes Q := by
  induction e using induction_args with
  | h e ih =>
    refine allNodes_iff.mpr ⟨hQ.eval b row h.root, fun evaluated hmem => ?_⟩
    obtain hargs | hargs := args_eval b row e
    · rw [hargs] at hmem
      exact h.args evaluated hmem
    · rw [hargs] at hmem
      obtain ⟨arg, harg, rfl⟩ := List.mem_map.mp hmem
      exact ih arg harg (h.args arg harg)

theorem finish (hQ : Passes Q) (h : e.AllNodes Q) (settings : Settings) (b : BindTable) :
    (e.finish settings b).AllNodes Q := by
  have hfinish := finishes_finish settings b e
  generalize e.finish settings b = r at hfinish ⊢
  cases hfinish with
  | folded => exact atom hQ rfl
  | evaluated => exact h.eval hQ b .empty
  | memoized => exact h.memo hQ none
  | unfoldable | unchanged => exact h

/-- Of a tree that is given a type, only links and what keeps their results are left. -/
theorem assignType (hQ : Passes Q) {b b' : BindTable} {type : ColumnType} {e e' : Evaluator}
    (h : e.assignType b type = .ok (e', b')) : e'.AllNodes Q := by
  replace h := assigned_of_assignType h
  induction h with
  | slot => exact atom hQ rfl
  | named => exact atom hQ rfl
  | memo cache _ ih => exact ih.memo hQ cache

end AllNodes

/-- What is made of given evaluators by evaluating, adapting and keeping results. Constants may
come from anywhere. -/
inductive MadeOver (given : List Evaluator) : Evaluator → Prop
  | given {e : Evaluator} (mem : e ∈ given) : MadeOver given e
  | constant (type : ColumnType) (v : Value) : MadeOver given (constant type v)
  | evaluated {e : Evaluator} (made : MadeOver given e) (b : BindTable) (row : Row) :
      MadeOver given (e.eval b row).2
  | adapt {e : Evaluator} (made : MadeOver given e) (adapter : Adapter)
      (source target : ColumnType) : MadeOver given (adapt adapter source target e)
  | memo {e : Evaluator} (made : MadeOver given e) (cache : Option (Int64 × Value)) :
      MadeOver given (memo cache e)

namespace MadeOver

variable {given : List Evaluator}

theorem allNodes (hQ : Passes Q) (hgiven : ∀ e ∈ given, e.AllNodes Q) (h : e.MadeOver given) :
    e.AllNodes Q := by
  induction h with
  | given mem => exact hgiven _ mem
  | constant => exact .atom hQ rfl
  | evaluated _ b row ih => exact ih.eval hQ b row
  | adapt _ adapter source target ih => exact ih.adapt hQ adapter source target
  | memo _ cache ih => exact ih.memo hQ cache

theorem fold (h : e.MadeOver given) (b : BindTable) : (e.fold b).MadeOver given := by
  have hfolds := foldsTo_fold b e
  generalize e.fold b = r at hfolds ⊢
  cases hfolds with
  | folded => exact .constant _ _
  | evaluated => exact h.evaluated b .empty
  | unfoldable => exact h

end MadeOver
end SqlResolution.Evaluator
