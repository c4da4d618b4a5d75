import SqlResolution.Proofs.Evaluator.Conformance
import SqlResolution.Proofs.Evaluator.Equivalence

/-!
# Replacing an argument

An evaluator may stand in for another whose values it maps, on rows one after another. A function
with it in the place of an argument is given the argument's mapped values and all else as before.
What the resolver does to a function that it has built does not change the function's values, if the
constants among its arguments are plain.
-/
namespace SqlResolution.Evaluator

variable {b : BindTable} {rows : List Row} {first : Bool} {f : Value → Value}
  {e r : Evaluator} {es : List Evaluator} {i : Nat}

/-- The values of evaluators on rows one after another, a list of values for each row. -/
def evalRowsAll (b : BindTable) : List Row → List Evaluator → List (List Value)
  | [], _ => []
  | row :: rows, es => (evalAll b row es).1 :: evalRowsAll b rows (evalAll b row es).2

/-- On rows one after another, an evaluator has the values of another, mapped. -/
def Maps (b : BindTable) (f : Value → Value) (e r : Evaluator) : Prop :=
  ∀ rows, (r.evalRows b rows).1 = (e.evalRows b rows).1.map f

theorem fst_evalRows_cons (b : BindTable) (row : Row) (rows : List Row) (e : Evaluator) :
    (e.evalRows b (row :: rows)).1 = e.value b row :: ((e.eval b row).2.evalRows b rows).1 := by
  rw [evalRows]
  rfl

theorem Maps.value (h : Maps b f e r) (row : Row) : r.value b row = f (e.value b row) := by
  have hrow := h [row]
  rw [fst_evalRows_cons, fst_evalRows_cons] at hrow
  exact (List.cons.inj hrow).1

theorem Maps.eval (h : Maps b f e r) (row : Row) : Maps b f (e.eval b row).2 (r.eval b row).2 := by
  intro rows
  have hrows := h (row :: rows)
  rw [fst_evalRows_cons, fst_evalRows_cons] at hrows
  exact (List.cons.inj hrows).2

/-- Functions of one argument that compute a value from the argument's. -/
theorem maps_of_unary (make : Evaluator → Evaluator)
    (hmake : ∀ e row, (make e).eval b row = (f (e.value b row), make (e.eval b row).2))
    (e : Evaluator) : Maps b f e (make e) := by
  intro rows
  induction rows generalizing e with
  | nil => rfl
  | cons row rows ih =>
    rw [fst_evalRows_cons, fst_evalRows_cons, Evaluator.value, hmake, List.map_cons, ih]

theorem maps_cast (b : BindTable) (scales : TextScales) (target : ColumnType) (e : Evaluator) :
    Maps b (Value.cast scales target.tag) e (.cast scales target e) :=
  maps_of_unary (.cast scales target) (fun e row => by simp only [Evaluator.eval, value]) e

theorem maps_member (b : BindTable) (texts : List String) (holdsNull : Bool) (e : Evaluator) :
    Maps b (fun v => .boolean (membership texts holdsNull v)) e (.member texts holdsNull e) :=
  maps_of_unary (.member texts holdsNull)
    (fun e row => by simp only [Evaluator.eval, value]) e

theorem maps_adapt (b : BindTable) (adapter : Adapter) (source target : ColumnType)
    (e : Evaluator) :
    Maps b (fun v => if v.isNull then .null else adapter.apply source target v) e
      (.adapt adapter source target e) := by
  refine maps_of_unary (.adapt adapter source target) (fun e row => ?_) e
  simp only [Evaluator.eval, value]
  rfl

/-- A constant stands in for an evaluator by mapping every value to its own. -/
theorem maps_constant (b : BindTable) (type : ColumnType) (v : Value) (e : Evaluator) :
    Maps b (fun _ => v) e (.constant type v) := by
  intro rows
  induction rows generalizing e with
  | nil => rfl
  | cons row rows ih =>
    rw [fst_evalRows_cons, fst_evalRows_cons, value_constant, List.map_cons, ← ih]
    simp only [Evaluator.eval]

/-! ### Functions of a list of arguments -/

/-- A kernel is applied to the values on each row. -/
theorem fst_evalRows_scalar (b : BindTable) (rows : List Row) (k : Kernel) (es : List Evaluator) :
    ((scalar k es).evalRows b rows).1 = (evalRowsAll b rows es).map k.apply := by
  induction rows generalizing es with
  | nil => rfl
  | cons row rows ih =>
    rw [fst_evalRows_cons, evalRowsAll, List.map_cons, ← ih]
    simp only [value, Evaluator.eval]

theorem evalAll_set (b : BindTable) (row : Row) (es : List Evaluator) (i : Nat) (r : Evaluator) :
    evalAll b row (es.set i r) =
      ((evalAll b row es).1.set i (r.value b row),
        (evalAll b row es).2.set i (r.eval b row).2) := by
  induction es generalizing i with
  | nil => rfl
  | cons e es ih =>
    cases i with
    | zero => rfl
    | succ i => simp only [List.set_cons_succ, evalAll, ih]

theorem getElem?_evalAll (b : BindTable) (row : Row) (es : List Evaluator) (i : Nat) :
    (evalAll b row es).1[i]? = es[i]?.map (value b row) ∧
      (evalAll b row es).2[i]? = es[i]?.map fun e => (e.eval b row).2 := by
  induction es generalizing i with
  | nil => exact ⟨rfl, rfl⟩
  | cons e es ih =>
    cases i with
    | zero => exact ⟨rfl, rfl⟩
    | succ i => exact ih i

/-- With a stand-in for one argument, the values on each row are the same but for the argument's,
which is mapped. -/
theorem evalRowsAll_set (he : es[i]? = some e) (h : Maps b f e r) (rows : List Row) :
    evalRowsAll b rows (es.set i r) = (evalRowsAll b rows es).map fun vs => vs.modify i f := by
  induction rows generalizing es e r with
  | nil => rfl
  | cons row rows ih =>
    obtain ⟨hvalue, hnext⟩ := getElem?_evalAll b row es i
    rw [he, Option.map_some] at hvalue hnext
    rw [evalRowsAll, evalRowsAll, evalAll_set, List.map_cons, ih hnext (h.eval row), h.value,
      List.modify_eq_set, hvalue, Option.getD_some]

/-- What an argument contributes to the values on the rows are its own. -/
theorem map_getElem?_evalRowsAll (he : es[i]? = some e) (rows : List Row) :
    (evalRowsAll b rows es).map (·[i]?) = (e.evalRows b rows).1.map some := by
  induction rows generalizing es e with
  | nil => rfl
  | cons row rows ih =>
    obtain ⟨hvalue, hnext⟩ := getElem?_evalAll b row es i
    rw [he, Option.map_some] at hvalue hnext
    rw [evalRowsAll, fst_evalRows_cons, List.map_cons, List.map_cons, hvalue, ih hnext]

theorem mem_evalRows_iff (he : es[i]? = some e) {v : Value} :
    v ∈ (e.evalRows b rows).1 ↔ ∃ vs ∈ evalRowsAll b rows es, vs[i]? = some v := by
  have hmem : some v ∈ (evalRowsAll b rows es).map (·[i]?) ↔
      ∃ vs ∈ evalRowsAll b rows es, vs[i]? = some v := List.mem_map
  rw [← hmem, map_getElem?_evalRowsAll he]
  simp

/-- On each of the rows the argument has a value. -/
theorem exists_of_mem_evalRowsAll (he : es[i]? = some e) {vs : List Value}
    (hvs : vs ∈ evalRowsAll b rows es) : ∃ v, vs[i]? = some v ∧ v ∈ (e.evalRows b rows).1 := by
  have hmem := List.mem_map_of_mem (f := (·[i]?)) hvs
  rw [map_getElem?_evalRowsAll he, List.mem_map] at hmem
  obtain ⟨v, hv, heq⟩ := hmem
  exact ⟨v, heq.symm, hv⟩

/-! ### Functions with a state -/

/-- What an evaluation neither reads the row for nor changes has one value on all rows. -/
theorem fst_evalRows_of_eval {e : Evaluator} {v : Value} (h : ∀ row, e.eval b row = (v, e)) :
    (e.evalRows b rows).1 = rows.map fun _ => v := by
  induction rows with
  | nil => rfl
  | cons row rows ih => rw [fst_evalRows_cons, List.map_cons, value, h row, ih]

/-- A total reports its sums whatever its argument is. -/
theorem fst_evalRows_total (which : Total) (sums : Sums) (e : Evaluator) :
    ((total which sums e).evalRows b rows).1 = rows.map fun _ => sums.report which :=
  fst_evalRows_of_eval fun row => by simp only [Evaluator.eval]

theorem fst_evalRows_runningAverage (sum : Float) (count : Nat) (e : Evaluator) :
    ((runningAverage sum count e).evalRows b rows).1 = rows.map fun _ => mean sum count :=
  fst_evalRows_of_eval fun row => by simp only [Evaluator.eval]

/-- A total does alike with a stand-in for its argument whose values it adds alike. -/
theorem fedValues?_total (which : Total) (sums : Sums) (h : Maps b f e r)
    (hadd : ∀ v ∈ (e.evalRows b rows).1, ∀ s, Sums.add which (f v) s = Sums.add which v s) :
    (total which sums r).fedValues? b first rows =
      (total which sums e).fedValues? b first rows := by
  induction rows generalizing first sums e r with
  | nil => rfl
  | cons row rows ih =>
    rw [fst_evalRows_cons] at hadd
    obtain ⟨hhead, htail⟩ := List.forall_mem_cons.mp hadd
    have hvalue := h.value row
    have hrest := fun first sums => @ih first _ _ sums (h.eval row) htail
    simp only [value] at hvalue hhead
    simp only [fedValues?_cons, accumulate?, Option.bind_some, Evaluator.eval, hvalue, hhead, hrest]

theorem fedValues?_runningAverage (sum : Float) (count : Nat) (h : Maps b f e r)
    (hreads : ∀ v ∈ (e.evalRows b rows).1,
      ((f v).asDouble?.filter fun x => !x.isNaN) = v.asDouble?.filter fun x => !x.isNaN) :
    (runningAverage sum count r).fedValues? b first rows =
      (runningAverage sum count e).fedValues? b first rows := by
  induction rows generalizing first sum count e r with
  | nil => rfl
  | cons row rows ih =>
    rw [fst_evalRows_cons] at hreads
    obtain ⟨hhead, htail⟩ := List.forall_mem_cons.mp hreads
    have hvalue := h.value row
    have hrest := fun first sum count => @ih first _ _ sum count (h.eval row) htail
    simp only [value] at hvalue hhead
    simp only [fedValues?_cons, accumulate?, hvalue, hhead]
    split
    · simp only [Option.bind_some, Evaluator.eval, hrest]
    · simp only [Option.bind_some, Evaluator.eval, hrest]

/-! ### Finished functions -/

/-- A constant is plain, so that its value depends on nothing. Other evaluators may be random or
keep results. -/
def FixesConstants (e : Evaluator) : Prop := e.isConstant = true → e.Plain fun _ => False

theorem FixesConstants.of_plain (h : e.Plain fun _ => False) : e.FixesConstants := fun _ => h

theorem FixesConstants.of_variable (h : e.isConstant = false) : e.FixesConstants := by
  intro hconstant
  rw [h] at hconstant
  cases hconstant

/-- Evaluators that show the same values, row after row and after each of the rows they are fed. -/
structure SameValues (b : BindTable) (rows : List Row) (e e' : Evaluator) : Prop where
  evalRows : (e.evalRows b rows).1 = (e'.evalRows b rows).1
  fedValues? : ∀ first, e.fedValues? b first rows = e'.fedValues? b first rows

theorem SameValues.refl (e : Evaluator) : SameValues b rows e e := ⟨rfl, fun _ => rfl⟩

theorem SameValues.symm {e e' : Evaluator} (h : SameValues b rows e e') :
    SameValues b rows e' e := ⟨h.evalRows.symm, fun first => (h.fedValues? first).symm⟩

theorem SameValues.trans {e e' e'' : Evaluator} (h : SameValues b rows e e')
    (h' : SameValues b rows e' e'') : SameValues b rows e e'' :=
  ⟨h.evalRows.trans h'.evalRows, fun first => (h.fedValues? first).trans (h'.fedValues? first)⟩

/-- Of what cannot be fed only the values on rows show. -/
theorem sameValues_iff_of_not_accumulates {e e' : Evaluator} (h : e.accumulates = false)
    (h' : e'.accumulates = false) :
    SameValues b rows e e' ↔ (e.evalRows b rows).1 = (e'.evalRows b rows).1 := by
  refine ⟨SameValues.evalRows, fun hvalues => ⟨hvalues, fun first => ?_⟩⟩
  rw [fedValues?_of_not_accumulates h, fedValues?_of_not_accumulates h']

/-- A kernel has the same values with the stand-in where it does alike with the mapped values of
the argument. -/
theorem sameValues_scalar_set {k : Kernel} (he : es[i]? = some e) (h : Maps b f e r) :
    SameValues b rows (scalar k es) (scalar k (es.set i r)) ↔
      ∀ vs ∈ evalRowsAll b rows es, k.apply (vs.modify i f) = k.apply vs := by
  rw [sameValues_iff_of_not_accumulates rfl rfl, fst_evalRows_scalar, fst_evalRows_scalar,
    evalRowsAll_set he h, List.map_map, List.map_inj_left]
  exact forall₂_congr fun vs _ => eq_comm

/-- What the resolver does in the end leaves the values as they are, unless results are kept. -/
theorem FixesConstants.sameValues_finish (h : e.FixesConstants)
    (hmemoize : e.traits.memoize = false) (settings : Settings) (b' : BindTable) :
    SameValues b rows (e.finish settings b') e := by
  cases hconstant : e.isConstant with
  | true =>
    have hplain : e.Plain fun _ => True := (h hconstant).mono fun _ hnone => hnone.elim
    have hsame := hplain.equivalent_finish settings b'
    refine ⟨?_, fun first => (hsame.fedValues? b first rows).symm⟩
    rw [hsame.plain'.evalRows_eq, hsame.plain.evalRows_eq]
    exact List.map_congr_left fun row _ => (hsame.value b row).symm
  | false =>
    have hfinish : e.finish settings b' = e := by
      unfold Evaluator.finish
      rw [hconstant, hmemoize, Bool.and_false, Bool.and_false, Bool.false_and]
      rfl
    rw [hfinish]
    exact .refl e

end SqlResolution.Evaluator
