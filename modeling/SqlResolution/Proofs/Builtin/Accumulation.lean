import Mathlib.Algebra.BigOperators.Group.List.Basic
import Mathlib.Data.List.Induction
import SqlResolution.Proofs.Builtin.Building
import SqlResolution.Proofs.Evaluator.Inputs
import SqlResolution.Proofs.Value.Coercion

/-!
# Aggregates over groups

An aggregate or window function is fed rows, each as the first of a group or as a later one. What it
reports is determined by the values of its argument on the rows of the group that is being fed: no
group leaves anything behind for the next. Counts and sums of integers do not depend on the order of
the rows, and both averages report the same.
-/
namespace SqlResolution

/-- A row that is fed, as the first of a group or as a later one. -/
structure Feed where
  first : Bool
  input : Input

namespace Feed

/-- The rows of the group that is being fed: those from the latest first one on, or all where none
was the first. -/
def current (feeds : List Feed) : List Row :=
  feeds.foldl (fun rows feed => (if feed.first then [] else rows) ++ [feed.input.row]) []

/-- Feeds a group from its first row on. -/
def ofGroup : List Input → List Feed
  | [] => []
  | head :: tail => ⟨true, head⟩ :: tail.map (⟨false, ·⟩)

theorem current_concat (feeds : List Feed) (feed : Feed) :
    current (feeds ++ [feed]) = (if feed.first then [] else current feeds) ++ [feed.input.row] := by
  simp [current]

/-- The group that is fed last is the one that is being fed, whatever came before. -/
theorem current_append_ofGroup (history : List Feed) (head : Input) (tail : List Input) :
    current (history ++ ofGroup (head :: tail)) = (head :: tail).map (·.row) := by
  induction tail using List.reverseRecOn with
  | nil => simp [ofGroup, current_concat]
  | append_singleton tail last ih =>
    have hgroup : history ++ ofGroup (head :: (tail ++ [last])) =
        (history ++ ofGroup (head :: tail)) ++ [⟨false, last⟩] := by simp [ofGroup]
    rw [hgroup, current_concat, ih]
    simp

theorem current_ofGroup (group : List Input) : current (ofGroup group) = group.map (·.row) := by
  cases group with
  | nil => rfl
  | cons head tail => exact current_append_ofGroup [] head tail

theorem forall_ofGroup {P : Input → Prop} {group : List Input} (h : ∀ input ∈ group, P input) :
    ∀ feed ∈ ofGroup group, P feed.input := by
  cases group with
  | nil => simp [ofGroup]
  | cons head tail => simpa [ofGroup] using h

end Feed

/-- The evaluator after it was fed rows in turn. -/
def Evaluator.fed? (feeds : List Feed) (e : Evaluator) : Option Evaluator :=
  feeds.foldlM (fun e feed => e.accumulate? feed.input.table feed.first feed.input.row) e

namespace Value

/-- The number that a value is read as, unless it is missing. -/
def asNumber? (v : Value) : Option Float := v.asDouble?.filter fun x => !x.isNaN

/-- The integers among values, which whole numbers, instants and characters are. -/
def integers (vs : List Value) : List Int64 := vs.filterMap asInt64?

/-- The numbers among values, without missing ones. -/
def numbers (vs : List Value) : List Float := vs.filterMap asNumber?

theorem asInt64?_of_isNull {v : Value} (h : v.isNull = true) : v.asInt64? = none := by
  cases v <;> first | rfl | cases h

theorem asNumber?_of_isNull {v : Value} (h : v.isNull = true) : v.asNumber? = none :=
  filter_asDouble?_of_isNull h

/-- What is not missing is not read as a missing number. -/
theorem isNaN_of_asDouble? {v : Value} {x : Float} (h : v.isNull = false)
    (hx : v.asDouble? = some x) : x.isNaN = false := by
  cases hfloating : v.isFloating with
  | false =>
    rw [asDouble?_of_not_isFloating hfloating] at hx
    obtain ⟨n, -, rfl⟩ := Option.map_eq_some_iff.mp hx
    exact Binary.isNaN_doubleOfInt _
  | true =>
    cases v
    case double => cases hx; exact h
    case float y => cases hx; exact (Binary.isNaN_widen y).trans h
    all_goals cases hfloating

theorem asNumber?_of_not_isNull {v : Value} (h : v.isNull = false) : v.asNumber? = v.asDouble? := by
  cases hx : v.asDouble? with
  | none => rw [asNumber?, hx, Option.filter_none]
  | some x =>
    rw [asNumber?, hx, Option.filter_some, isNaN_of_asDouble? h hx, Bool.not_false, if_pos rfl]

@[simp] theorem integers_concat (vs : List Value) (v : Value) :
    integers (vs ++ [v]) = integers vs ++ v.asInt64?.toList := by
  cases h : v.asInt64? <;> simp [integers, h]

@[simp] theorem numbers_concat (vs : List Value) (v : Value) :
    numbers (vs ++ [v]) = numbers vs ++ v.asNumber?.toList := by
  cases h : v.asNumber? <;> simp [numbers, h]

@[simp] theorem numbers_singleton (v : Value) : numbers [v] = v.asNumber?.toList :=
  numbers_concat [] v

end Value

/-- Words are added without regard to what a word holds. -/
theorem foldl_add_eq_ofInt (ns : List Int64) :
    ns.foldl (· + ·) 0 = Int64.ofInt (ns.map Int64.toInt).sum := by
  induction ns using List.reverseRecOn with
  | nil => rfl
  | append_singleton ns n ih => simp [ih, Int64.ofInt_add]

namespace Sums

/-- The sums of the values of a group. -/
def ofValues (which : Total) (vs : List Value) : Sums :=
  vs.foldl (fun s v => s.add which v) .zero

theorem ofValues_concat (which : Total) (vs : List Value) (v : Value) :
    ofValues which (vs ++ [v]) = (ofValues which vs).add which v := by
  simp [ofValues]

open Value

theorem ofValues_longSum (vs : List Value) :
    ofValues .longSum vs =
      ⟨Int64.ofInt ((integers vs).map Int64.toInt).sum, 0, (integers vs).length⟩ := by
  rw [← foldl_add_eq_ofInt]
  induction vs using List.reverseRecOn with
  | nil => rfl
  | append_singleton vs v ih =>
    rw [ofValues_concat, ih, add]
    by_cases hnull : v.isNull = true
    · simp [hnull, asInt64?_of_isNull hnull]
    · cases hn : v.asInt64? <;> simp [hnull, hn]

/-- Both sums of doubles skip what is no number in the way that a running average does. -/
theorem ofValues_of_ne {which : Total} (h : which ≠ .longSum) (vs : List Value) :
    ofValues which vs = ⟨0, (numbers vs).foldl (· + ·) 0, (numbers vs).length⟩ := by
  induction vs using List.reverseRecOn with
  | nil => rfl
  | append_singleton vs v ih =>
    rw [ofValues_concat, ih]
    -- A total asks for null before it reads a number, a running average for NaN afterwards.
    cases hnull : v.isNull with
    | true => simp [add, hnull, asNumber?_of_isNull hnull]
    | false =>
      rw [numbers_concat, asNumber?_of_not_isNull hnull]
      cases which with
      | longSum => exact absurd rfl h
      | doubleSum | average => cases hx : v.asDouble? <;> simp [add, hnull, hx]

end Sums

namespace Builtin

open Evaluator Value

/-- What an aggregate or window function reports of a group, by the values of its argument on the
rows. -/
def report : Builtin → List Value → Value
  | count, vs | rowNumber, vs => .long (Int64.ofNat vs.length)
  | total .longSum, vs =>
    if integers vs = [] then .null else .long (Int64.ofInt ((integers vs).map Int64.toInt).sum)
  | total .doubleSum, vs =>
    if numbers vs = [] then .null else .double ((numbers vs).foldl (· + ·) 0)
  | total .average, vs | runningAverage, vs =>
    mean ((numbers vs).foldl (· + ·) 0) (numbers vs).length
  | rank, _ => .long 1
  | _, _ => .null

theorem report_ofValues (which : Total) (vs : List Value) :
    (Sums.ofValues which vs).report which = (total which).report vs := by
  cases which with
  | longSum => simp [Sums.ofValues_longSum, Sums.report, report]
  | doubleSum => simp [Sums.ofValues_of_ne, Sums.report, report]
  | average => simp [Sums.ofValues_of_ne, Sums.report, report]

variable {P : Input → Prop} {f : Row → Value} {b : Builtin} {e : Evaluator} {vs : List Value}

/-- A running average adds the number that it is fed, if it is fed one. -/
theorem accumulate?_runningAverage (table : BindTable) (first : Bool) (row : Row) (sum : Float)
    (n : Nat) (arg : Evaluator) :
    (Evaluator.runningAverage sum n arg).accumulate? table first row =
      let fed := (arg.value table row).asNumber?.toList
      some (.runningAverage (fed.foldl (· + ·) (if first then 0 else sum))
        ((if first then 0 else n) + fed.length) (arg.eval table row).2) := by
  have hfed : (arg.value table row).asNumber? =
      ((arg.eval table row).1.asDouble?.filter fun x => !x.isNaN) := rfl
  simp only [accumulate?, ← hfed]
  cases first <;> cases (arg.value table row).asNumber? <;> rfl

/-- An evaluator that has been fed a group whose rows have some values, over an argument that is a
function of the row. -/
inductive Summarizes (P : Input → Prop) (f : Row → Value) (vs : List Value) :
    Builtin → Evaluator → Prop
  | count {n : Nat} (rows : n = vs.length) : Summarizes P f vs count (.count n)
  | total {which : Total} {sums : Sums} {arg : Evaluator} (values : sums = .ofValues which vs)
      (computes : arg.IsFunctionOn P f) : Summarizes P f vs (total which) (.total which sums arg)
  | rowNumber {n : Nat} (rows : n = vs.length) : Summarizes P f vs rowNumber (.rowNumber n)
  | rank : Summarizes P f vs rank .rank
  | runningAverage {sum : Float} {n : Nat} {arg : Evaluator}
      (values : sum = (numbers vs).foldl (· + ·) 0) (seen : n = (numbers vs).length)
      (computes : arg.IsFunctionOn P f) :
      Summarizes P f vs runningAverage (.runningAverage sum n arg)

namespace Summarizes

theorem eval_eq (h : Summarizes P f vs b e) (table : BindTable) (row : Row) :
    e.eval table row = (b.report vs, e) := by
  cases h with
  | count rows | rowNumber rows => simp [eval, report, rows]
  | total values => simp [eval, values, report_ofValues]
  | rank => simp [eval, report]
  | runningAverage values seen => simp [eval, report, values, seen]

/-- One more row is one more value of the group, or the first of another one. -/
theorem accumulate (h : Summarizes P f vs b e) {input : Input} (hinput : P input) (first : Bool) :
    ∃ fed, e.accumulate? input.table first input.row = some fed ∧
      Summarizes P f ((if first then [] else vs) ++ [f input.row]) b fed := by
  have hnext : ∀ {arg : Evaluator}, arg.IsFunctionOn P f →
      arg.eval input.table input.row = (f input.row, arg.after [input]) ∧
        (arg.after [input]).IsFunctionOn P f := fun {arg} computes =>
    ⟨Prod.ext (computes.valueOn hinput) rfl, computes.after (by simpa using hinput)⟩
  cases h with
  | count rows => exact ⟨_, rfl, .count (by cases first <;> simp [rows])⟩
  | rowNumber rows => exact ⟨_, rfl, .rowNumber (by cases first <;> simp [rows])⟩
  | rank => exact ⟨_, rfl, .rank⟩
  | total values computes =>
    obtain ⟨hvalue, hcomputes⟩ := hnext computes
    refine ⟨_, rfl, ?_⟩
    rw [hvalue]
    refine .total ?_ hcomputes
    -- The first row of a group discards the sums, which are then those of no values.
    rw [Sums.ofValues_concat]
    cases first <;> simp [values, Sums.ofValues]
  | runningAverage values seen computes =>
    obtain ⟨hvalue, hcomputes⟩ := hnext computes
    refine ⟨_, accumulate?_runningAverage .., ?_⟩
    rw [value, hvalue]
    refine .runningAverage ?_ ?_ hcomputes <;> cases first <;> simp [values, seen]

end Summarizes

/-- Rows that are fed can be summarized by those of the group that is being fed. -/
theorem Summarizes.exists_fed (h : Summarizes P f [] b e) {feeds : List Feed}
    (hfeeds : ∀ feed ∈ feeds, P feed.input) :
    ∃ fed, e.fed? feeds = some fed ∧ Summarizes P f ((Feed.current feeds).map f) b fed := by
  induction feeds using List.reverseRecOn with
  | nil => exact ⟨e, rfl, h⟩
  | append_singleton feeds feed ih =>
    obtain ⟨fed, hfed, hvalues⟩ := ih fun feed hfeed => hfeeds feed (List.mem_append_left _ hfeed)
    obtain ⟨next, hnext, hvalues⟩ := hvalues.accumulate (hfeeds feed (by simp)) feed.first
    rw [Evaluator.fed?] at hfed
    refine ⟨next, by simp [Evaluator.fed?, hfed, hnext], ?_⟩
    rw [Feed.current_concat]
    cases hfirst : feed.first <;> simpa [hfirst] using hvalues

/-- Before the first row, an aggregate or window function summarizes no values. -/
theorem summarizes_of_build {position : Span} {args : Args} {settings : Settings} {c : Context}
    (hb : b ∈ aggregates ++ windows) (hbuild : b.build position args settings c = .ok e)
    (hargs : ∀ arg ∈ args.evaluators, arg.IsFunctionOn P f) : Summarizes P f [] b e := by
  cases makes_of_build hbuild with
  | count => exact .count rfl
  | total which one => exact .total rfl (hargs _ (by simp [one]))
  | rowNumber => exact .rowNumber rfl
  | rank => exact .rank
  | runningAverage one => exact .runningAverage rfl rfl (hargs _ (by simp [one]))
  | _ => simp [aggregates, windows] at hb

/-- What was fed reports the group that is being fed, and reporting changes nothing. -/
theorem exists_report_of_fed {position : Span} {args : Args} {settings : Settings} {c : Context}
    (hb : b ∈ aggregates ++ windows) (hbuild : b.build position args settings c = .ok e)
    (hargs : ∀ arg ∈ args.evaluators, arg.IsFunctionOn P f) {feeds : List Feed}
    (hfeeds : ∀ feed ∈ feeds, P feed.input) :
    ∃ fed, e.fed? feeds = some fed ∧
      ∀ table row, fed.eval table row = (b.report ((Feed.current feeds).map f), fed) := by
  obtain ⟨fed, hfed, hvalues⟩ := (summarizes_of_build hb hbuild hargs).exists_fed hfeeds
  exact ⟨fed, hfed, hvalues.eval_eq⟩

/-- A count and a sum of integers do not depend on the order of the values. -/
theorem report_perm (hb : b = count ∨ b = total .longSum) {vs vs' : List Value}
    (h : vs'.Perm vs) : b.report vs' = b.report vs := by
  obtain rfl | rfl := hb
  · simp [report, h.length_eq]
  · have hintegers : (integers vs').Perm (integers vs) := h.filterMap asInt64?
    have hnone : integers vs' = [] ↔ integers vs = [] := by
      rw [← List.length_eq_zero_iff, ← List.length_eq_zero_iff, hintegers.length_eq]
    simp only [report, hnone, (hintegers.map Int64.toInt).sum_eq]

theorem report_longSum (vs : List Value) :
    ((total .longSum).report vs = .null ↔ integers vs = []) ∧
      (integers vs ≠ [] → (total .longSum).report vs =
        .long (Int64.ofInt ((integers vs).map Int64.toInt).sum)) := by
  by_cases hnone : integers vs = [] <;> simp [report, hnone]

/-- An aggregate or window function that is fed a group reports the same whatever it was fed before.
A count and a sum of integers report the same for the group in any order. A sum of integers is null
where no row has an integer, and otherwise the sum of the integers modulo `2 ^ 64`, in two's
complement. -/
theorem groups_independent {position : Span} {args : Args} {settings : Settings} {c : Context}
    (hb : b ∈ aggregates ++ windows) (hbuild : b.build position args settings c = .ok e)
    (hargs : ∀ arg ∈ args.evaluators, arg.IsFunctionOn P f) {history : List Feed}
    (hhistory : ∀ feed ∈ history, P feed.input) {head : Input} {tail : List Input}
    (hgroup : ∀ input ∈ head :: tail, P input) :
    ∃ later alone v, e.fed? (history ++ Feed.ofGroup (head :: tail)) = some later ∧
      e.fed? (Feed.ofGroup (head :: tail)) = some alone ∧
      (∀ table row, later.eval table row = (v, later) ∧ alone.eval table row = (v, alone)) ∧
      (b = count ∨ b = total .longSum → ∀ group : List Input, group.Perm (head :: tail) →
        ∃ other, e.fed? (Feed.ofGroup group) = some other ∧
          ∀ table row, other.eval table row = (v, other)) ∧
      (b = total .longSum →
        let ns := integers ((head :: tail).map fun input => f input.row)
        (v = .null ↔ ns = []) ∧ (ns ≠ [] → v = .long (Int64.ofInt (ns.map Int64.toInt).sum))) := by
  have hreport : ∀ group : List Input, (∀ input ∈ group, P input) →
      ∃ fed, e.fed? (Feed.ofGroup group) = some fed ∧ ∀ table row, fed.eval table row =
        (b.report (group.map fun input => f input.row), fed) := by
    intro group hgroup
    obtain ⟨fed, hfed, heval⟩ :=
      exists_report_of_fed hb hbuild hargs (Feed.forall_ofGroup hgroup)
    rw [Feed.current_ofGroup, List.map_map] at heval
    exact ⟨fed, hfed, heval⟩
  obtain ⟨alone, halone, hevalAlone⟩ := hreport _ hgroup
  have hfeeds : ∀ feed ∈ history ++ Feed.ofGroup (head :: tail), P feed.input :=
    List.forall_mem_append.mpr ⟨hhistory, Feed.forall_ofGroup hgroup⟩
  obtain ⟨later, hlater, hevalLater⟩ := exists_report_of_fed hb hbuild hargs hfeeds
  rw [Feed.current_append_ofGroup, List.map_map] at hevalLater
  refine ⟨later, alone, _, hlater, halone, fun table row => ⟨hevalLater table row,
    hevalAlone table row⟩, fun horderless group hperm => ?_, ?_⟩
  · obtain ⟨other, hother, hevalOther⟩ :=
      hreport group fun input hinput => hgroup input (hperm.mem_iff.mp hinput)
    rw [report_perm horderless (hperm.map _)] at hevalOther
    exact ⟨other, hother, hevalOther⟩
  · rintro rfl
    exact report_longSum _

/-- A row of one value. -/
def holding (v : Value) : Input := ⟨.empty, ⟨-1, [v]⟩⟩

theorem isFunctionOn_onlyColumn {P : Input → Prop} {type : ColumnType} {position : Span} :
    ∀ arg ∈ (Args.mk [.column 0 type "x"] [position]).evaluators,
      arg.IsFunctionOn P fun row => row.value 0 := by
  simp [isFunctionOn_column]

/-- The greatest LONG and one, with a null between them, sum up to the least LONG in either order,
also after another group was fed. -/
theorem groups_independent_wrapping :
    let args : Args := ⟨[.column 0 .long "x"], [⟨4, 1⟩]⟩
    let fresh : Evaluator := .total .longSum .zero (.column 0 .long "x")
    let history : List Feed := [⟨false, holding (.long 5)⟩, ⟨true, holding (.long 7)⟩]
    let head := holding (.long Int64.maxValue)
    let tail := [holding .null, holding (.long 1)]
    total .longSum ∈ aggregates ++ windows ∧
      (total .longSum).build ⟨0, 3⟩ args .default (.fresh 0) = .ok fresh ∧
      (∀ arg ∈ args.evaluators, arg.IsFunctionOn (fun _ => True) fun row => row.value 0) ∧
      ∃ later alone other, fresh.fed? (history ++ Feed.ofGroup (head :: tail)) = some later ∧
        fresh.fed? (Feed.ofGroup (head :: tail)) = some alone ∧
        fresh.fed? (Feed.ofGroup (head :: tail).reverse) = some other ∧
        later.value .empty .empty = .long Int64.minValue ∧
        alone.value .empty .empty = .long Int64.minValue ∧
        other.value .empty .empty = .long Int64.minValue := by
  intro args fresh history head tail
  have hb : total .longSum ∈ aggregates ++ windows := by decide
  have hbuild : (total .longSum).build ⟨0, 3⟩ args .default (.fresh 0) = .ok fresh := rfl
  have hargs : ∀ arg ∈ args.evaluators, arg.IsFunctionOn (fun _ => True) fun row => row.value 0 :=
    isFunctionOn_onlyColumn
  have hhistory : ∀ feed ∈ history, True := fun _ _ => trivial
  have hgroup : ∀ input ∈ head :: tail, True := fun _ _ => trivial
  obtain ⟨later, alone, v, hlater, halone, heval, horder, hsum⟩ :=
    groups_independent hb hbuild hargs hhistory hgroup
  obtain ⟨other, hother, hevalOther⟩ := horder (.inr rfl) _ (List.reverse_perm _)
  have hv : v = .long Int64.minValue := (hsum rfl).2 (List.cons_ne_nil _ _)
  obtain ⟨hevalLater, hevalAlone⟩ := heval .empty .empty
  refine ⟨hb, hbuild, hargs, later, alone, other, hlater, halone, hother, ?_⟩
  simp only [value, hevalLater, hevalAlone, hevalOther, hv, and_self]

/-- The average of a group and the running average report the same after every row that is fed,
whether or not it is the first of a group: the mean of the numbers in the group that is being fed,
of which nulls and NaNs are none. -/
theorem averages_agree {position position' : Span} {args args' : Args}
    {settings settings' : Settings} {c c' : Context} {e e' : Evaluator}
    (haverage : (total .average).build position args settings c = .ok e)
    (hrunning : runningAverage.build position' args' settings' c' = .ok e')
    (hargs : ∀ arg ∈ args.evaluators, arg.IsFunctionOn P f)
    (hargs' : ∀ arg ∈ args'.evaluators, arg.IsFunctionOn P f) {feeds : List Feed}
    (hfeeds : ∀ feed ∈ feeds, P feed.input) (n : Nat) :
    let xs := numbers ((Feed.current (feeds.take n)).map f)
    ∃ average running, e.fed? (feeds.take n) = some average ∧
      e'.fed? (feeds.take n) = some running ∧ ∀ table row,
        average.eval table row = (mean (xs.foldl (· + ·) 0) xs.length, average) ∧
        running.eval table row = (mean (xs.foldl (· + ·) 0) xs.length, running) := by
  intro xs
  have htake : ∀ feed ∈ feeds.take n, P feed.input := fun feed hfeed =>
    hfeeds feed (List.mem_of_mem_take hfeed)
  obtain ⟨average, hfed, heval⟩ := exists_report_of_fed (by decide) haverage hargs htake
  obtain ⟨running, hfed', heval'⟩ := exists_report_of_fed (by decide) hrunning hargs' htake
  exact ⟨average, running, hfed, hfed', fun table row => ⟨heval table row, heval' table row⟩⟩

/-- Both averages of one and three are two, with a NaN and a null between them and no first row. -/
theorem averages_agree_missing :
    let args : Args := ⟨[.column 0 .double "x"], [⟨4, 1⟩]⟩
    let average : Evaluator := .total .average .zero (.column 0 .double "x")
    let running : Evaluator := .runningAverage 0 0 (.column 0 .double "x")
    let feeds : List Feed :=
      [.double 1, .double Float.nan, .null, .long 3].map fun v => ⟨false, holding v⟩
    (total .average).build ⟨0, 3⟩ args .default (.fresh 0) = .ok average ∧
      runningAverage.build ⟨0, 3⟩ args .default (.fresh 0) = .ok running ∧
      (∀ arg ∈ args.evaluators, arg.IsFunctionOn (fun _ => True) fun row => row.value 0) ∧
      ∃ e e', average.fed? feeds = some e ∧ running.fed? feeds = some e' ∧
        e.value .empty .empty = .double 2 ∧ e'.value .empty .empty = .double 2 := by
  intro args average running feeds
  have haverage : (total .average).build ⟨0, 3⟩ args .default (.fresh 0) = .ok average := rfl
  have hrunning : runningAverage.build ⟨0, 3⟩ args .default (.fresh 0) = .ok running := rfl
  have hargs : ∀ arg ∈ args.evaluators, arg.IsFunctionOn (fun _ => True) fun row => row.value 0 :=
    isFunctionOn_onlyColumn
  have hfeeds : ∀ feed ∈ feeds, True := fun _ _ => trivial
  obtain ⟨e, e', hfed, hfed', heval⟩ :=
    averages_agree haverage hrunning hargs hargs hfeeds 4
  have hnumbers : numbers ((Feed.current (feeds.take 4)).map fun row => row.value 0) = [1, 3] := by
    decide +kernel
  have hmean : mean (List.foldl (· + ·) 0 [1, 3]) 2 = .double 2 :=
    congrArg Value.double (by decide +kernel)
  simp only [hnumbers] at heval
  obtain ⟨he, he'⟩ := heval .empty .empty
  refine ⟨haverage, hrunning, hargs, e, e', hfed, hfed', ?_, ?_⟩
  · exact (congrArg Prod.fst he).trans hmean
  · exact (congrArg Prod.fst he').trans hmean

end Builtin
end SqlResolution
