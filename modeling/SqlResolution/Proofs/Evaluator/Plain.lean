import SqlResolution.Evaluator.Rows
import SqlResolution.Fold
import SqlResolution.Proofs.Variables
import SqlResolution.Proofs.Walk.Leaves

/-!
# Plain evaluators

A plain evaluator is of the library and has no state that an evaluation changes. Its value depends on
the row and on the variables that it links, and not even on these where it is constant.
-/
namespace SqlResolution.Evaluator

mutual

/-- An evaluator of the library without random numbers and results kept for a row. The variables
that it links have a property. -/
def Plain (P : Variable → Prop) : Evaluator → Prop
  | slotLink slot _ => P (.slot slot)
  | namedLink name _ => P (.named name)
  | adapt _ _ _ arg | member _ _ arg | cast _ _ arg | total _ _ arg | runningAverage _ _ arg =>
    arg.Plain P
  | scalar _ args | concat _ args => PlainAll P args
  | memo _ _ | randomInt _ | randomDouble _ | custom _ _ _ => False
  | constant _ _ | typeName _ | column _ _ _ | cursor _ | count _ | rowNumber _ | rank | now _ =>
    True

def PlainAll (P : Variable → Prop) : List Evaluator → Prop
  | [] => True
  | e :: es => e.Plain P ∧ PlainAll P es

end

variable {P P' : Variable → Prop} {b b' : BindTable} {row row' : Row}

theorem plainAll_iff {es : List Evaluator} : PlainAll P es ↔ ∀ e ∈ es, e.Plain P := by
  induction es with
  | nil => simp [PlainAll]
  | cons e es ih => simp [PlainAll, ih]

/-- The values of a list are those of its evaluators. -/
theorem fst_evalAll (b : BindTable) (row : Row) (es : List Evaluator) :
    (evalAll b row es).1 = es.map (value b row) := by
  induction es with
  | nil => rfl
  | cons e es ih => simp only [evalAll, List.map_cons, ih, value]

theorem value_scalar (k : Kernel) (args : List Evaluator) :
    (scalar k args).value b row = k.apply (args.map (value b row)) := by
  simp only [value, eval, fst_evalAll]

theorem value_concat (scales : TextScales) (args : List Evaluator) :
    (concat scales args).value b row = .str (concatenation scales (args.map (value b row))) := by
  simp only [value, eval, fst_evalAll]

theorem value_adapt (adapter : Adapter) (source target : ColumnType) (arg : Evaluator) :
    (adapt adapter source target arg).value b row =
      if (arg.value b row).isNull then .null
      else adapter.apply source target (arg.value b row) := by
  rw [value, eval]
  rfl

theorem value_member (texts : List String) (holdsNull : Bool) (arg : Evaluator) :
    (member texts holdsNull arg).value b row =
      .boolean (membership texts holdsNull (arg.value b row)) := by
  simp only [value, eval]

theorem value_cast (scales : TextScales) (target : ColumnType) (arg : Evaluator) :
    (cast scales target arg).value b row = (arg.value b row).cast scales target.tag := by
  simp only [value, eval]

/-- A function is constant where it has arguments and all of them are. -/
theorem constant_inherited (es : List Evaluator) :
    (Traits.inherited (traitsOf es)).constant = (!es.isEmpty && es.all isConstant) := by
  rw [Traits.constant_inherited, traitsOf_eq_map, List.isEmpty_map, List.all_map]
  rfl

/-- A mark for traits of evaluators whose values are fixed. All constants have it, and a function only
where each of its arguments does. -/
structure Marks (mark : Traits → Bool) : Prop where
  of_constant : ∀ {t : Traits}, t.constant = true → mark t = true
  fixed : ∀ {t}, mark t = true → t.isConstantOrRuntimeConstant = true
  congr : ∀ {t t'}, t.constant = t'.constant → t.runtimeConstant = t'.runtimeConstant →
    mark t = mark t'
  inherited : ∀ {ts}, mark (.inherited ts) = true → ∀ t ∈ ts, mark t = true

theorem marks_constant : Marks Traits.constant where
  of_constant h := h
  fixed h := by rw [Traits.isConstantOrRuntimeConstant, h, Bool.true_or]
  congr h _ := h
  inherited {ts} h := by
    rw [Traits.constant_inherited, Bool.and_eq_true] at h
    exact List.all_eq_true.mp h.2

theorem marks_fixed : Marks Traits.isConstantOrRuntimeConstant where
  of_constant h := by rw [Traits.isConstantOrRuntimeConstant, h, Bool.true_or]
  fixed h := h
  congr h h' := by rw [Traits.isConstantOrRuntimeConstant, h, h', Traits.isConstantOrRuntimeConstant]
  inherited {ts} h := by
    rw [Traits.isConstantOrRuntimeConstant_inherited, Bool.and_eq_true] at h
    exact List.all_eq_true.mp h.2

/-- What is neither constant nor fixed for an execution has no mark. -/
theorem Marks.eq_false {mark : Traits → Bool} (h : Marks mark) {t : Traits}
    (hvaries : t.isConstantOrRuntimeConstant = false) : mark t = false := by
  rw [Bool.eq_false_iff]
  intro hmark
  rw [h.fixed hmark] at hvaries
  cases hvaries

theorem Marks.of_same {mark : Traits → Bool} (h : Marks mark) {t t' : Traits}
    (hmark : mark t' = true) (hconstant : t.constant = t'.constant)
    (hruntime : t.runtimeConstant = t'.runtimeConstant) : mark t = true :=
  (h.congr hconstant hruntime).trans hmark

theorem Marks.of_inherited {mark : Traits → Bool} (h : Marks mark) {es : List Evaluator}
    (hmark : mark (.inherited (traitsOf es)) = true) : ∀ e ∈ es, mark e.traits = true := by
  rw [traitsOf_eq_map] at hmark
  exact fun e he => h.inherited hmark _ (List.mem_map_of_mem he)

mutual

theorem Plain.mono (hP : ∀ x, P x → P' x) : {e : Evaluator} → e.Plain P → e.Plain P'
  | slotLink slot _, h => by
    rw [Plain] at h ⊢
    exact hP _ h
  | namedLink name _, h => by
    rw [Plain] at h ⊢
    exact hP _ h
  | adapt _ _ _ arg, h | member _ _ arg, h | cast _ _ arg, h | total _ _ arg, h
  | runningAverage _ _ arg, h => by
    rw [Plain] at h ⊢
    exact Plain.mono hP h
  | scalar _ args, h | concat _ args, h => by
    rw [Plain] at h ⊢
    exact PlainAll.mono hP h
  | memo _ _, h | randomInt _, h | randomDouble _, h | custom _ _ _, h => by
    rw [Plain] at h
    exact h.elim
  | constant _ _, _ | typeName _, _ | column _ _ _, _ | cursor _, _ | count _, _ | rowNumber _, _
  | rank, _ | now _, _ => by
    rw [Plain]
    trivial

theorem PlainAll.mono (hP : ∀ x, P x → P' x) : {es : List Evaluator} → PlainAll P es →
    PlainAll P' es
  | [], _ => trivial
  | _ :: _, h => ⟨Plain.mono hP h.1, PlainAll.mono hP h.2⟩

end

mutual

/-- An evaluation leaves a plain evaluator as it is. -/
theorem Plain.snd_eval (b : BindTable) (row : Row) : {e : Evaluator} → e.Plain P →
    (e.eval b row).2 = e
  | adapt _ _ _ arg, h | member _ _ arg, h | cast _ _ arg, h => by
    rw [Plain] at h
    simp only [eval, Plain.snd_eval b row h]
  | scalar _ args, h | concat _ args, h => by
    rw [Plain] at h
    simp only [eval, PlainAll.snd_evalAll b row h]
  | memo _ _, h | randomInt _, h | randomDouble _, h | custom _ _ _, h => by
    rw [Plain] at h
    exact h.elim
  | constant _ _, _ | typeName _, _ | column _ _ _, _ | slotLink _ _, _ | namedLink _ _, _
  | cursor _, _ | count _, _ | total _ _ _, _ | rowNumber _, _ | rank, _ | runningAverage _ _ _, _
  | now _, _ => by simp only [eval]

theorem PlainAll.snd_evalAll (b : BindTable) (row : Row) : {es : List Evaluator} → PlainAll P es →
    (evalAll b row es).2 = es
  | [], _ => rfl
  | e :: es, h => by simp only [evalAll, Plain.snd_eval b row h.1, PlainAll.snd_evalAll b row h.2]

end

mutual

/-- The value of a plain evaluator depends on no variables but those that it links. -/
theorem Plain.value_congr (hP : ∀ x, P x → b.valueOf x = b'.valueOf x) (row : Row) :
    {e : Evaluator} → e.Plain P → e.value b row = e.value b' row
  | slotLink slot _, h => by
    rw [Plain] at h
    simp only [value, eval]
    exact hP _ h
  | namedLink name _, h => by
    rw [Plain] at h
    simp only [value, eval]
    exact hP _ h
  | adapt _ _ _ arg, h => by
    rw [Plain] at h
    rw [value_adapt, value_adapt, Plain.value_congr hP row h]
  | member _ _ arg, h => by
    rw [Plain] at h
    rw [value_member, value_member, Plain.value_congr hP row h]
  | cast _ _ arg, h => by
    rw [Plain] at h
    rw [value_cast, value_cast, Plain.value_congr hP row h]
  | scalar _ args, h => by
    rw [Plain] at h
    rw [value_scalar, value_scalar, PlainAll.values_congr hP row h]
  | concat _ args, h => by
    rw [Plain] at h
    rw [value_concat, value_concat, PlainAll.values_congr hP row h]
  | memo _ _, h | randomInt _, h | randomDouble _, h | custom _ _ _, h => by
    rw [Plain] at h
    exact h.elim
  | constant _ _, _ | typeName _, _ | column _ _ _, _ | cursor _, _ | count _, _ | total _ _ _, _
  | rowNumber _, _ | rank, _ | runningAverage _ _ _, _ | now _, _ => by simp only [value, eval]

theorem PlainAll.values_congr (hP : ∀ x, P x → b.valueOf x = b'.valueOf x) (row : Row) :
    {es : List Evaluator} → PlainAll P es → es.map (value b row) = es.map (value b' row)
  | [], _ => rfl
  | e :: es, h => by
    rw [List.map_cons, List.map_cons, Plain.value_congr hP row h.1, PlainAll.values_congr hP row h.2]

end

/-- The traits of links. -/
def linkTraits : Traits := { Traits.none with runtimeConstant := true }

section

variable {mark : Traits → Bool}

mutual

/-- The value of an evaluator with a mark does not depend on the row, and on variables only where links
have the mark. -/
theorem Plain.value_of_mark (hmark : Marks mark) (row row' : Row)
    (hlinks : mark linkTraits = true →
      ∀ x, P x → b.valueOf x = b'.valueOf x) :
    {e : Evaluator} → e.Plain P → mark e.traits = true → e.value b row = e.value b' row'
  | slotLink slot _, h, hm | namedLink name _, h, hm => by
    rw [Plain] at h
    simp only [traits] at hm
    simp only [value, eval]
    exact hlinks hm _ h
  | adapt _ _ _ arg, h, hm => by
    rw [Plain] at h
    simp only [traits] at hm
    rw [value_adapt, value_adapt,
      Plain.value_of_mark hmark row row' hlinks h (hmark.of_same hm rfl rfl)]
  | member _ _ arg, h, hm => by
    rw [Plain] at h
    simp only [traits] at hm
    rw [value_member, value_member,
      Plain.value_of_mark hmark row row' hlinks h (hmark.of_same hm rfl rfl)]
  | cast _ _ arg, h, hm => by
    rw [Plain] at h
    simp only [traits] at hm
    rw [value_cast, value_cast,
      Plain.value_of_mark hmark row row' hlinks h (hmark.of_same hm rfl rfl)]
  | scalar _ args, h, hm => by
    rw [Plain] at h
    simp only [traits] at hm
    rw [value_scalar, value_scalar,
      PlainAll.values_of_mark hmark row row' hlinks h (hmark.of_inherited hm)]
  | concat _ args, h, hm => by
    rw [Plain] at h
    simp only [traits] at hm
    rw [value_concat, value_concat,
      PlainAll.values_of_mark hmark row row' hlinks h (hmark.of_inherited hm)]
  | memo _ _, h, _ | randomInt _, h, _ | randomDouble _, h, _ | custom _ _ _, h, _ => by
    rw [Plain] at h
    exact h.elim
  | constant _ _, _, _ | typeName _, _, _ | cursor _, _, _ | count _, _, _ | total _ _ _, _, _
  | rowNumber _, _, _ | rank, _, _ | runningAverage _ _ _, _, _ | now _, _, _ => by
    simp only [value, eval]
  | column _ _ _, _, hm => by
    simp only [traits] at hm
    cases hmark.fixed hm

theorem PlainAll.values_of_mark (hmark : Marks mark) (row row' : Row)
    (hlinks : mark linkTraits = true →
      ∀ x, P x → b.valueOf x = b'.valueOf x) :
    {es : List Evaluator} → PlainAll P es → (∀ e ∈ es, mark e.traits = true) →
      es.map (value b row) = es.map (value b' row')
  | [], _, _ => rfl
  | e :: es, h, hm => by
    obtain ⟨hhead, htail⟩ := List.forall_mem_cons.mp hm
    rw [List.map_cons, List.map_cons, Plain.value_of_mark hmark row row' hlinks h.1 hhead,
      PlainAll.values_of_mark hmark row row' hlinks h.2 htail]

end

end

/-- The value of a constant depends neither on variables nor on the row. -/
theorem Plain.value_of_isConstant (b b' : BindTable) (row row' : Row) {e : Evaluator}
    (h : e.Plain P) (hconstant : e.isConstant = true) : e.value b row = e.value b' row' :=
  h.value_of_mark marks_constant row row' nofun hconstant

/-- Traits that no plain evaluator has. -/
structure PlainTraits (t : Traits) : Prop where
  memoize : t.memoize = false
  extendedOps : t.extendedOps = false
  nonDeterministic : t.nonDeterministic = false

theorem plainTraits_inherited {ts : List Traits} (h : ∀ t ∈ ts, PlainTraits t) :
    PlainTraits (.inherited ts) where
  memoize := Traits.memoize_inherited ts
  extendedOps := Traits.extendedOps_inherited ts
  nonDeterministic := by
    rw [Traits.nonDeterministic_inherited, List.any_eq_false]
    intro t ht
    rw [(h t ht).nonDeterministic]
    exact Bool.false_ne_true

mutual

theorem Plain.traits : {e : Evaluator} → e.Plain P → PlainTraits e.traits
  | adapt _ _ _ arg, h | member _ _ arg, h | cast _ _ arg, h | total _ _ arg, h => by
    rw [Plain] at h
    have harg := (Plain.traits h).nonDeterministic
    rw [Evaluator.traits]
    exact ⟨rfl, rfl, harg⟩
  | scalar _ args, h | concat _ args, h => by
    rw [Plain] at h
    rw [Evaluator.traits]
    exact plainTraits_inherited (PlainAll.traits h)
  | memo _ _, h | randomInt _, h | randomDouble _, h | custom _ _ _, h => by
    rw [Plain] at h
    exact h.elim
  | constant _ _, _ | typeName _, _ | column _ _ _, _ | slotLink _ _, _ | namedLink _ _, _
  | cursor _, _ | count _, _ | rowNumber _, _ | rank, _ | runningAverage _ _ _, _ | now _, _ => by
    simp only [Evaluator.traits]
    exact ⟨rfl, rfl, rfl⟩

theorem PlainAll.traits : {es : List Evaluator} → PlainAll P es →
    ∀ t ∈ traitsOf es, PlainTraits t
  | [], _ => fun _ ht => by cases ht
  | _ :: _, h => List.forall_mem_cons.mpr ⟨Plain.traits h.1, PlainAll.traits h.2⟩

end

/-- Constants are evaluated for each row. -/
theorem Plain.kind_of_isConstant {e : Evaluator} (h : e.Plain P) (hconstant : e.isConstant = true) :
    e.kind = .scalar := by
  cases e
  case memo => exact h.elim
  case custom => exact h.elim
  all_goals first | rfl | cases hconstant

theorem Plain.eval_eq {e : Evaluator} (h : e.Plain P) (b : BindTable) (row : Row) :
    e.eval b row = (e.value b row, e) := Prod.ext rfl (h.snd_eval b row)

/-- On rows one after another, a plain evaluator yields its value on each. -/
theorem Plain.evalRows_eq {e : Evaluator} (h : e.Plain P) (b : BindTable) (rows : List Row) :
    e.evalRows b rows = (rows.map (e.value b), e) := by
  induction rows with
  | nil => rfl
  | cons row rows ih =>
    rw [evalRows, h.eval_eq]
    dsimp only
    rw [ih, List.map_cons]

theorem Plain.fold_eq {e : Evaluator} (h : e.Plain P) (b : BindTable) :
    e.fold b =
      if e.isFoldable && (e.value b .empty).conformsTo e.type then
        constant e.type (e.value b .empty)
      else e := by
  unfold Evaluator.fold evalConstant
  rw [h.eval_eq]
  cases e.isFoldable with
  | false => rfl
  | true => rfl

/-- A plain evaluator is never memoized, and is folded where that is asked for and it is constant. -/
theorem Plain.finish_eq {e : Evaluator} (h : e.Plain P) (settings : Settings) (b : BindTable) :
    e.finish settings b = if settings.foldConstants && e.isConstant then e.fold b else e := by
  obtain ⟨hmemoize, hextendedOps, -⟩ := h.traits
  unfold finish
  rw [hmemoize, hextendedOps, Bool.not_false, Bool.and_true, Bool.and_false]
  rfl

theorem Plain.fold {e : Evaluator} (h : e.Plain P) (b : BindTable) : (e.fold b).Plain P := by
  rw [h.fold_eq]
  split
  · rw [Plain]
    trivial
  · exact h

theorem Plain.finish {e : Evaluator} (h : e.Plain P) (settings : Settings) (b : BindTable) :
    (e.finish settings b).Plain P := by
  rw [h.finish_eq]
  split
  · exact h.fold b
  · exact h

/-- A constant is folded alike under all tables. -/
theorem Plain.fold_congr {e : Evaluator} (h : e.Plain P) (hconstant : e.isConstant = true)
    (b b' : BindTable) : e.fold b = e.fold b' := by
  rw [h.fold_eq, h.fold_eq, h.value_of_isConstant b b' .empty .empty hconstant]

theorem Plain.finish_congr {e : Evaluator} (h : e.Plain P) (settings : Settings)
    (b b' : BindTable) : e.finish settings b = e.finish settings b' := by
  rw [h.finish_eq, h.finish_eq]
  cases hconstant : e.isConstant with
  | false => rw [Bool.and_false, if_neg Bool.false_ne_true, if_neg Bool.false_ne_true]
  | true => rw [h.fold_congr hconstant b b']

/-- A row is added to the state that a plain evaluator has, and to no other. -/
theorem Plain.accumulate? {e e' : Evaluator} (h : e.Plain P) {first : Bool}
    (haccumulate : e.accumulate? b first row = some e') : e'.Plain P := by
  cases e
  case total which sums arg =>
    rw [Plain] at h
    simp only [Evaluator.accumulate?, h.eval_eq, Option.some.injEq] at haccumulate
    rw [← haccumulate, Plain]
    exact h
  case runningAverage sum seen arg =>
    rw [Plain] at h
    simp only [Evaluator.accumulate?, h.eval_eq] at haccumulate
    split at haccumulate
    · cases haccumulate
      rw [Plain]
      exact h
    · cases haccumulate
      rw [Plain]
      exact h
  all_goals
    first
    | cases haccumulate
      rw [Plain]
      trivial
    | cases haccumulate

/-- What a plain evaluator is fed depends on no variables but those that it links. -/
theorem Plain.accumulate?_congr {e : Evaluator} (h : e.Plain P)
    (hP : ∀ x, P x → b.valueOf x = b'.valueOf x) (first : Bool) (row : Row) :
    e.accumulate? b first row = e.accumulate? b' first row := by
  cases e
  case total which sums arg =>
    rw [Plain] at h
    simp only [Evaluator.accumulate?, h.eval_eq, h.value_congr hP row]
  case runningAverage sum seen arg =>
    rw [Plain] at h
    simp only [Evaluator.accumulate?, h.eval_eq, h.value_congr hP row]
  all_goals rfl

theorem Plain.evalRows_congr {e : Evaluator} (h : e.Plain P)
    (hP : ∀ x, P x → b.valueOf x = b'.valueOf x) (rows : List Row) :
    e.evalRows b rows = e.evalRows b' rows := by
  have hvalues : rows.map (fun row => e.value b row) = rows.map fun row => e.value b' row :=
    List.map_congr_left fun row _ => h.value_congr hP row
  rw [h.evalRows_eq, h.evalRows_eq, hvalues]

theorem Plain.feed?_congr {e : Evaluator} (h : e.Plain P)
    (hP : ∀ x, P x → b.valueOf x = b'.valueOf x) (first : Bool) (rows : List Row) :
    e.feed? b first rows = e.feed? b' first rows := by
  induction rows generalizing e first with
  | nil => rfl
  | cons row rows ih =>
    simp only [feed?, ← h.accumulate?_congr hP first row]
    cases haccumulate : e.accumulate? b first row with
    | none => rfl
    | some fed =>
      have hfed := h.accumulate? haccumulate
      simp only [Option.bind_eq_bind, Option.bind_some, hfed.eval_eq, hfed.value_congr hP row,
        ih hfed]

theorem IsLiteral.plain {e : Evaluator} (h : e.IsLiteral) : e.Plain P := by
  cases h with
  | constant =>
    rw [Plain]
    trivial
  | typeName =>
    rw [Plain]
    trivial

theorem plain_link_iff {type : ColumnType} {x : Variable} : (link type x).Plain P ↔ P x := by
  cases x with
  | slot i => rw [link, Plain]
  | named name => rw [link, Plain]

theorem assignType_link (type given : ColumnType) (x : Variable) (b : BindTable) :
    (link type x).assignType b given = .ok (link (b.typeGiven given x) x, b.give given x) := by
  cases x with
  | slot i => rfl
  | named name => rfl

/-- A link that is given a type keeps its traits. -/
theorem traits_assignType {type : ColumnType} {e : Evaluator} {given : Evaluator × BindTable}
    (h : e.assignType b type = .ok given) : given.1.traits = e.traits := by
  obtain ⟨typed, b'⟩ := given
  replace h := assigned_of_assignType h
  induction h with
  | slot => rfl
  | named => rfl
  | memo _ _ ih => rw [Evaluator.traits, Evaluator.traits, ih]

/-- A plain evaluator is a link, or it is given no type. -/
theorem Plain.link_or_cannotAssign {e : Evaluator} (h : e.Plain P) :
    (∃ type x, P x ∧ e = link type x) ∨
      ∀ b given, e.assignType b given = .error (.internal (.cannotAssign e.name given)) := by
  cases e
  case slotLink slot type =>
    rw [Plain] at h
    exact .inl ⟨type, .slot slot, h, rfl⟩
  case namedLink name type =>
    rw [Plain] at h
    exact .inl ⟨type, .named name, h, rfl⟩
  case memo =>
    rw [Plain] at h
    exact h.elim
  all_goals exact .inr fun _ _ => rfl

end SqlResolution.Evaluator
