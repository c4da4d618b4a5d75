import SqlResolution.Evaluator.Rows
import SqlResolution.Fold
import SqlResolution.Proofs.Overload.Evolution

/-!
# Values of the declared type

A kernel and a cast yield values of their types, whatever they are applied to. So an evaluator that
is sound yields only values of its type: it reads values of the types that it declares, and what it
has kept conforms to its type.
-/
namespace SqlResolution

namespace Value

theorem eq_null_of_conformsTo_undefined {v : Value} {t : ColumnType} (h : v.conformsTo t = true)
    (ht : t.isUndefined = true) : v = .null := by
  have htag : t.tag = .undefined := eq_of_beq ht
  cases v <;> simp [conformsTo, htag, TypeTag.isString, TypeTag.isGeohash] at h ⊢

/-- A value that is made for a type, or null in its place. -/
theorem conformsTo_getD {o : Option Value} {t : ColumnType}
    (h : ∀ v, o = some v → v.conformsTo t = true) : (o.getD .null).conformsTo t = true := by
  cases o with
  | none => rfl
  | some v => exact h v rfl

theorem conformsTo_map_getD {α : Type} {f : α → Value} {t : ColumnType}
    (h : ∀ a, (f a).conformsTo t = true) (o : Option α) :
    ((o.map f).getD .null).conformsTo t = true := by
  cases o with
  | none => rfl
  | some a => exact h a

theorem conformsTo_ofInt32? {n : Int} {v : Value} (h : ofInt32? n = some v) :
    v.conformsTo .int = true := by
  unfold ofInt32? at h
  split at h
  · cases h
    rfl
  · cases h

theorem conformsTo_ofInt64? {n : Int} {v : Value} (h : ofInt64? n = some v) :
    v.conformsTo .long = true := by
  unfold ofInt64? at h
  split at h
  · cases h
    rfl
  · cases h

/-- What a cast makes is of its target, where it makes anything. -/
theorem conformsTo_convert? {scales : TextScales} {target : ColumnType} {v w : Value}
    (h : v.convert? scales target.tag = some w) : w.conformsTo target = true := by
  unfold convert? at h
  split at h
  all_goals
    first
    | cases h
    | obtain ⟨a, -, rfl⟩ := Option.map_eq_some_iff.mp h
      simp [conformsTo, *, TypeTag.isString]

theorem conformsTo_cast (scales : TextScales) (target : ColumnType) (v : Value) :
    (v.cast scales target.tag).conformsTo target = true := by
  unfold cast
  split
  · rfl
  · exact conformsTo_getD fun w hw => conformsTo_convert? hw

end Value

/-- The values of a sound text are strings and null. -/
theorem str_or_null {t : ColumnType} {v : Value} (ht : t.tag.isString = true)
    (h : v.conformsTo t = true) : v = .null ∨ ∃ s, v = .str s := by
  cases v with
  | null => exact .inl rfl
  | str s => exact .inr ⟨s, rfl⟩
  | _ =>
    simp only [Value.conformsTo] at h
    generalize t.tag = tag at ht h
    cases tag <;> first | exact absurd ht Bool.false_ne_true | exact absurd h Bool.false_ne_true

namespace Kernel

theorem conformsTo_onNumbers? {op : Arithmetic} {kind : NumberKind} {a b v : Value}
    (h : onNumbers? op kind a b = some v) : v.conformsTo kind.type = true := by
  cases kind with
  | int =>
    simp only [onNumbers?, bind, Option.bind_eq_some_iff] at h
    obtain ⟨_, -, _, -, n, -, hn⟩ := h
    exact Value.conformsTo_ofInt32? hn
  | long =>
    simp only [onNumbers?, bind, Option.bind_eq_some_iff] at h
    obtain ⟨_, -, _, -, n, -, hn⟩ := h
    exact Value.conformsTo_ofInt64? hn
  | double =>
    simp only [onNumbers?, bind, Option.bind_eq_some_iff] at h
    obtain ⟨_, -, _, -, hv⟩ := h
    cases hv
    rfl

theorem conformsTo_onNumber? {f : Int → Int} {g : Float → Float} {kind : NumberKind} {a v : Value}
    (h : onNumber? f g kind a = some v) : v.conformsTo kind.type = true := by
  have honInteger : ∀ (fit : Int → Option Value) {t : ColumnType},
      (∀ n w, fit n = some w → w.conformsTo t = true) →
        onInteger? f fit a = some v → v.conformsTo t = true := by
    intro fit t hfit h
    simp only [onInteger?, bind, Option.bind_eq_some_iff] at h
    obtain ⟨n, -, hn⟩ := h
    split at hn
    · exact hfit _ v hn
    · cases hn
  cases kind with
  | int => exact honInteger Value.ofInt32? (fun _ _ => Value.conformsTo_ofInt32?) h
  | long => exact honInteger Value.ofInt64? (fun _ _ => Value.conformsTo_ofInt64?) h
  | double =>
    obtain ⟨x, -, rfl⟩ := Option.map_eq_some_iff.mp h
    rfl

theorem conformsTo_test (holds : Ordering → Bool) (a b : Value) :
    (test holds a b).conformsTo .boolean = true :=
  Value.conformsTo_map_getD (fun _ => rfl) _

/-- A kernel yields values of its result type, of whatever kinds its arguments are. -/
theorem conformsTo_apply (k : Kernel) (values : List Value) :
    (k.apply values).conformsTo k.resultType = true := by
  have hunlessNull : ∀ {v : Value} {t : ColumnType}, v.conformsTo t = true →
      (if values.any Value.isNull then .null else v).conformsTo t = true := by
    intro v t hv
    split
    · rfl
    · exact hv
  cases k with
  | arithmetic op kind =>
    exact hunlessNull (Value.conformsTo_getD fun _ => conformsTo_onNumbers?)
  | negate kind => exact hunlessNull (Value.conformsTo_getD fun _ => conformsTo_onNumber?)
  | magnitude kind => exact hunlessNull (Value.conformsTo_getD fun _ => conformsTo_onNumber?)
  | equal operands => exact hunlessNull (conformsTo_test _ _ _)
  | less operands => exact hunlessNull (conformsTo_test _ _ _)
  | conjunction =>
    simp only [apply]
    split <;> rfl
  | disjunction =>
    simp only [apply]
    split <;> rfl
  | negation => exact Value.conformsTo_map_getD (fun _ => rfl) _
  | length => rfl
  | upper => exact Value.conformsTo_map_getD (fun _ => rfl) _

end Kernel

theorem conformsTo_mean (sum : Float) (count : Nat) : (mean sum count).conformsTo .double = true := by
  unfold mean
  split <;> rfl

theorem Sums.conformsTo_report (s : Sums) (which : Total) :
    (s.report which).conformsTo which.type = true := by
  cases which with
  | longSum =>
    unfold report
    dsimp only
    split <;> rfl
  | doubleSum =>
    unfold report
    dsimp only
    split <;> rfl
  | average => exact conformsTo_mean _ _

/-- The values of the columns conform to the schema. -/
def Row.Conforms (schema : Schema) (row : Row) : Prop :=
  ∀ i, i < schema.columns.length → (row.value i).conformsTo (schema.type i) = true

theorem Row.conforms_empty (schema : Schema) : empty.Conforms schema := by
  intro i _
  rw [value_empty]
  rfl

namespace Evaluator

/-- What makes an evaluator yield values of its type: links to variables whose values conform to the
links' types, columns of the schema, and constants, results kept and adapters of the right types. Its
arguments need not be sound. -/
def Sound (binds : BindTable) (schema : Schema) : Evaluator → Prop
  | constant type v => v.conformsTo type = true
  | column i type _ => type = schema.type i ∧ type.isUndefined = false
  | slotLink slot type => (binds.slotValue slot).conformsTo type = true
  | namedLink name type => (binds.namedValue name).conformsTo type = true
  | adapt adapter source target _ => ∀ v, (adapter.apply source target v).conformsTo target = true
  | memo cache inner =>
    (∀ id v, cache = some (id, v) → v.conformsTo inner.type = true) ∧ inner.Sound binds schema
  | custom _ _ _ => False
  | _ => True

variable {binds : BindTable} {schema : Schema} {row : Row}

/-- A sound evaluator yields a value of its type and stays sound. -/
theorem Sound.eval (hrow : row.Conforms schema) : {e : Evaluator} → e.Sound binds schema →
    (e.value binds row).conformsTo e.type = true ∧ (e.eval binds row).2.Sound binds schema
  | constant type v, h => by
    simp only [value, Evaluator.eval]
    exact ⟨h, h⟩
  | column i type label, h => by
    obtain ⟨rfl, hdefined⟩ := h
    have hlt : i < schema.columns.length := by
      refine Nat.lt_of_not_le fun hge => ?_
      rw [Schema.type, List.getElem?_eq_none hge] at hdefined
      cases hdefined
    simp only [value, Evaluator.eval]
    exact ⟨hrow i hlt, rfl, hdefined⟩
  | slotLink slot type, h => by
    simp only [value, Evaluator.eval]
    exact ⟨h, h⟩
  | namedLink name type, h => by
    simp only [value, Evaluator.eval]
    exact ⟨h, h⟩
  | adapt adapter source target arg, h => by
    simp only [value, Evaluator.eval]
    refine ⟨?_, h⟩
    split
    · rfl
    · exact h _
  | scalar kernel args, _ => by
    simp only [value, Evaluator.eval]
    exact ⟨kernel.conformsTo_apply _, trivial⟩
  | cast scales target arg, _ => by
    simp only [value, Evaluator.eval]
    exact ⟨Value.conformsTo_cast scales target _, trivial⟩
  | memo cache inner, ⟨hcache, hinner⟩ => by
    obtain ⟨hvalue, hnext⟩ := Sound.eval hrow hinner
    rw [value, Evaluator.eval]
    split
    · rename_i id v hkept
      have hv := hcache id v (Option.filter_eq_some_iff.mp hkept).1
      exact ⟨hv, hcache, hinner⟩
    · refine ⟨hvalue, ?_, hnext⟩
      intro id v hnew
      rw [type_eval]
      split at hnew
      · cases hnew
        exact hvalue
      · exact hcache id v hnew
  | total which sums arg, _ => by
    simp only [value, Evaluator.eval]
    exact ⟨sums.conformsTo_report which, trivial⟩
  | runningAverage sum seen arg, _ => by
    simp only [value, Evaluator.eval]
    exact ⟨conformsTo_mean sum seen, trivial⟩
  | typeName _, _ | concat _ _, _ | member _ _ _, _ | cursor _, _ | count _, _ | rowNumber _, _
  | rank, _ | randomInt _, _ | randomDouble _, _ | now _, _ => by
    simp only [value, Evaluator.eval]
    exact ⟨rfl, trivial⟩
  | custom _ _ _, h => h.elim

/-- A sound evaluator yields values of its type on rows one after another. -/
theorem Sound.evalRows {rows : List Row} (hrows : ∀ row ∈ rows, row.Conforms schema)
    {e : Evaluator} (h : e.Sound binds schema) :
    ∀ v ∈ (e.evalRows binds rows).1, v.conformsTo e.type = true := by
  induction rows generalizing e with
  | nil =>
    intro v hv
    cases hv
  | cons row rows ih =>
    obtain ⟨hrow, hrest⟩ := List.forall_mem_cons.mp hrows
    obtain ⟨hvalue, hnext⟩ := h.eval hrow
    have hvalues := ih hrest hnext
    rw [type_eval] at hvalues
    exact List.forall_mem_cons.mpr ⟨hvalue, hvalues⟩

theorem type_accumulate? {e e' : Evaluator} {first : Bool}
    (h : e.accumulate? binds first row = some e') : e'.type = e.type := by
  cases e <;> simp only [accumulate?, Option.some.injEq, reduceCtorEq] at h
  case runningAverage =>
    split at h <;> split at h <;> (cases h; rfl)
  all_goals
    subst h
    rfl

/-- An aggregate or window function stays sound when it is fed. -/
theorem sound_accumulate? (schema : Schema) {e e' : Evaluator} {first : Bool}
    (h : e.accumulate? binds first row = some e') : e'.Sound binds schema := by
  cases e <;> simp only [accumulate?, Option.some.injEq, reduceCtorEq] at h
  case runningAverage =>
    split at h <;> split at h <;> (cases h; trivial)
  all_goals
    subst h
    trivial

/-- An aggregate or window function yields values of its type after each row that it is fed. -/
theorem Sound.feed? {rows : List Row} (hrows : ∀ row ∈ rows, row.Conforms schema)
    {e e' : Evaluator} {first : Bool} {vs : List Value}
    (h : e.feed? binds first rows = some (vs, e')) : ∀ v ∈ vs, v.conformsTo e.type = true := by
  induction rows generalizing e e' first vs with
  | nil =>
    cases h
    intro v hv
    cases hv
  | cons row rows ih =>
    obtain ⟨hrow, hrest⟩ := List.forall_mem_cons.mp hrows
    simp only [Evaluator.feed?, bind, Option.bind_eq_some_iff] at h
    obtain ⟨fed, hfed, ⟨rest, last⟩, hlast, h⟩ := h
    cases h
    obtain ⟨hvalue, -⟩ := (sound_accumulate? schema hfed).eval hrow
    have hvalues := ih hrest hlast
    rw [type_eval] at hvalues
    rw [type_accumulate? hfed] at hvalue hvalues
    exact List.forall_mem_cons.mpr ⟨hvalue, hvalues⟩

end Evaluator
end SqlResolution
