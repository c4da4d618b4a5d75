import SqlResolution.Proofs.Evaluator.Nodes

/-!
# Where non-determinism comes from

Of the evaluators of the library only the random functions are non-deterministic of their own. The
others are what their arguments are, but for a running average, which tells nothing of its argument.
So a tree is non-deterministic exactly where it exposes a random function: where one stands in it
under no running average.
-/
namespace SqlResolution

namespace Evaluator

/-- A random function, whose value is another at every evaluation. -/
def isRandom : Evaluator → Bool
  | randomInt _ | randomDouble _ => true
  | _ => false

/-- Made outside the library. -/
def isCustom : Evaluator → Bool
  | custom _ _ _ => true
  | _ => false

/-- Whether an evaluator tells nothing of its argument. -/
def hidesArgument : Evaluator → Bool
  | runningAverage _ _ _ => true
  | _ => false

@[simp] theorem isCustom_eval (b : BindTable) (row : Row) (e : Evaluator) :
    (e.eval b row).2.isCustom = e.isCustom := by
  cases e with
  | memo cache inner =>
    rw [eval]
    split <;> rfl
  | _ => simp only [eval, isCustom]

@[simp] theorem hidesArgument_eval (b : BindTable) (row : Row) (e : Evaluator) :
    (e.eval b row).2.hidesArgument = e.hidesArgument := by
  cases e with
  | memo cache inner =>
    rw [eval]
    split <;> rfl
  | _ => simp only [eval, hidesArgument]

/-- An evaluator of the tree with nothing above it that hides its argument. -/
inductive Exposes : Evaluator → Evaluator → Prop
  | root (e : Evaluator) : Exposes e e
  | through {e arg n : Evaluator} (mem : arg ∈ e.args) (tells : e.hidesArgument = false)
      (exposes : Exposes arg n) : Exposes e n

variable {e n : Evaluator}

theorem Exposes.mem_nodes (h : e.Exposes n) : n ∈ e.nodes := by
  induction h with
  | root e => exact mem_nodes_iff.mpr (.inl rfl)
  | through mem _ _ ih => exact mem_nodes_iff.mpr (.inr ⟨_, mem, ih⟩)

/-- Where nothing hides its argument the whole tree is exposed. -/
theorem exposes_of_mem_nodes (h : e.AllNodes fun n => n.hidesArgument = false) (hn : n ∈ e.nodes) :
    e.Exposes n := by
  induction e using induction_args with
  | h e ih =>
    obtain rfl | ⟨arg, harg, hn⟩ := mem_nodes_iff.mp hn
    · exact .root n
    · exact .through harg h.root (ih arg harg (h.args arg harg) hn)

/-- An evaluator of the library is non-deterministic if it is random, or if it tells that an argument
is. -/
theorem isNonDeterministic_iff (h : e.isCustom = false) :
    e.isNonDeterministic = true ↔ e.isRandom = true ∨
      e.hidesArgument = false ∧ ∃ arg ∈ e.args, arg.isNonDeterministic = true := by
  cases e with
  | custom => cases h
  | scalar _ es | concat _ es =>
    simp only [isNonDeterministic, traits, Traits.nonDeterministic_inherited, traitsOf_eq_map,
      List.any_map, List.any_eq_true, isRandom, hidesArgument, args]
    simp
  | adapt | member | cast | memo | total =>
    simp [isNonDeterministic, traits, Traits.determinacy, isRandom, hidesArgument, args]
  | randomInt | randomDouble | runningAverage =>
    simp [isNonDeterministic, traits, Traits.none, isRandom, hidesArgument]
  | constant | typeName | column | slotLink | namedLink | cursor | count | rowNumber | rank | now =>
    simp [isNonDeterministic, traits, Traits.none, isRandom, args]

/-- A tree of the library is non-deterministic exactly where it exposes a random function. -/
theorem isNonDeterministic_iff_exposes (h : e.AllNodes fun n => n.isCustom = false) :
    e.isNonDeterministic = true ↔ ∃ n, e.Exposes n ∧ n.isRandom = true := by
  induction e using induction_args with
  | h e ih =>
    rw [isNonDeterministic_iff h.root]
    constructor
    · rintro (hrandom | ⟨htells, arg, harg, hrandom⟩)
      · exact ⟨e, .root e, hrandom⟩
      · obtain ⟨n, hexposes, hrandom⟩ := (ih arg harg (h.args arg harg)).mp hrandom
        exact ⟨n, .through harg htells hexposes, hrandom⟩
    · rintro ⟨n, hexposes, hrandom⟩
      cases hexposes with
      | root => exact .inl hrandom
      | @through _ arg _ harg htells hexposes =>
        exact .inr ⟨htells, arg, harg,
          (ih arg harg (h.args arg harg)).mpr ⟨n, hexposes, hrandom⟩⟩

/-- Some evaluator of a tree of the library is non-deterministic where one is random. -/
theorem exists_isNonDeterministic_iff (h : e.AllNodes fun n => n.isCustom = false) :
    (∃ n ∈ e.nodes, n.isNonDeterministic = true) ↔ ∃ n ∈ e.nodes, n.isRandom = true := by
  induction e using induction_args with
  | h e ih =>
    constructor
    · rintro ⟨n, hn, hrandom⟩
      obtain rfl | ⟨arg, harg, hn⟩ := mem_nodes_iff.mp hn
      · obtain ⟨m, hexposes, hrandom⟩ := (isNonDeterministic_iff_exposes h).mp hrandom
        exact ⟨m, hexposes.mem_nodes, hrandom⟩
      · obtain ⟨m, hm, hrandom⟩ := (ih arg harg (h.args arg harg)).mp ⟨n, hn, hrandom⟩
        exact ⟨m, mem_nodes_iff.mpr (.inr ⟨arg, harg, hm⟩), hrandom⟩
    · rintro ⟨n, hn, hrandom⟩
      exact ⟨n, hn, (isNonDeterministic_iff (h n hn)).mpr (.inl hrandom)⟩

end Evaluator
end SqlResolution
