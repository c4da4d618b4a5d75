import SqlResolution.Proofs.Builtin.TextRoundTrip
import SqlResolution.Proofs.Value.Integral

/-!
# Casts of floating-point numbers to integers

A DOUBLE or FLOAT operand cast to BYTE, SHORT, INT or LONG always resolves. Where the operand is a
number the cast is its integer part, or null where that is out of range. One number is an exception:
`2 ^ 63` as a LONG is the greatest LONG.
-/
namespace SqlResolution.Builtin

open Evaluator Steps
open Binary (Reading readDouble towardZero)

/-- The types of floating-point numbers. -/
def floatingTypes : List TypeTag := [.float, .double]

/-- There are casts from the floating-point types to the integer types. -/
theorem cast_mem_of_floating {S T : TypeTag} (hS : S ∈ floatingTypes)
    (hT : T ∈ Value.integerTypes) : cast (.of S) (.of T) ∈ all ∧ ColumnType.of S ≠ .of T := by
  have hall : ∀ S ∈ floatingTypes, ∀ T ∈ Value.integerTypes,
      ColumnType.of S ∈ castTypes ∧ ColumnType.of T ∈ castTypes ∧ converts S T = true ∧
        ColumnType.of S ≠ .of T := by
    decide
  obtain ⟨hsource, htarget, hconverts, hne⟩ := hall S hS T hT
  exact ⟨cast_mem_all_iff.mpr ⟨hsource, htarget, hconverts⟩, hne⟩

/-- The node of a cast to another type resolves. Row after row it has its operand's values, cast. -/
theorem exists_values_of_castNode {settings : Settings} {compilers : List Compiler} {n x : Node}
    {source target : ColumnType} {schema : Schema} {w after : Walk} {operand : Evaluator}
    (h : n.IsCast x target) (hcast : cast source target ∈ all) (hne : source ≠ target)
    (hresolve : (Resolver.mk catalog settings compilers).resolve x schema w = (.ok operand, after))
    (htype : operand.type = source) (hkind : operand.kind ≠ .groupBy) :
    ∃ e, (Resolver.mk catalog settings compilers).resolve n schema w = (.ok e, after) ∧
      e.type = target ∧ ∀ binds rows, (e.evalRows binds rows).1 =
        (operand.evalRows binds rows).1.map (Value.cast settings.scales target.tag) := by
  have hfixes := fixesConstants_of_resolve settings compilers x schema w hresolve
  refine ⟨_, resolve_castNode_of_ne h hcast hne hresolve htype hkind, ?_, fun binds rows => ?_⟩
  · rw [type_finish, type_castOrNull]
  · rw [maps_finish_castOrNull binds settings.scales target hfixes settings _ rows]

/-- The cast to a type of integers of a floating-point operand that is no aggregate always resolves.
Row after row, where the operand is a finite number, the cast is the number rounded toward zero, or
null where the type has no such integer, unless the number is `2 ^ 63` and the type LONG. Then it is
the greatest LONG. -/
theorem integerCast_of_resolve (settings : Settings) (compilers : List Compiler) {S T : TypeTag}
    (hS : S ∈ floatingTypes) (hT : T ∈ Value.integerTypes) {n x : Node} (hn : n.IsCast x (.of T))
    (schema : Schema) (w : Walk) {operand : Evaluator} {after : Walk}
    (hresolve : (Resolver.mk catalog settings compilers).resolve x schema w = (.ok operand, after))
    (htype : operand.type = .of S) (hkind : operand.kind ≠ .groupBy) :
    ∃ e, (Resolver.mk catalog settings compilers).resolve n schema w = (.ok e, after) ∧
      e.type = .of T ∧ ∀ binds rows, List.Forall₂
        (fun v v' => ∀ r, v.rational? = some r →
          (v' = Value.ofInteger T (towardZero r) ↔ ¬(T = .long ∧ r = 2 ^ 63)) ∧
            (T = .long ∧ r = 2 ^ 63 → v' = .long Int64.maxValue))
        (operand.evalRows binds rows).1 (e.evalRows binds rows).1 := by
  obtain ⟨hcast, hne⟩ := cast_mem_of_floating hS hT
  obtain ⟨e, he, hetype, hvalues⟩ :=
    exists_values_of_castNode hn hcast hne hresolve htype hkind
  refine ⟨e, he, hetype, fun binds rows => ?_⟩
  rw [hvalues, List.forall₂_map_right_iff, List.forall₂_same]
  intro v _ r hr
  refine ⟨Value.cast_eq_ofInteger_iff hT hr settings.scales, ?_⟩
  rintro ⟨rfl, rfl⟩
  exact Value.cast_long_bound hr settings.scales

/-- The tree of `cast(d, long)`. -/
def columnLong : Node :=
  ⟨.function, "cast", ⟨0, 4⟩, [⟨.column, "d", ⟨5, 1⟩, [], none⟩,
    ⟨.constant, "long", ⟨8, 4⟩, [], none⟩], none⟩

/-- The rows of a DOUBLE column `d` with the numbers of the given words. -/
def doubleRows (words : List UInt64) : List Row :=
  words.map fun word => ⟨0, [.double (Float.ofBits word)]⟩

theorem evalRows_doubleRows (binds : BindTable) (words : List UInt64) :
    ((Evaluator.column 0 .double "d").evalRows binds (doubleRows words)).1 =
      words.map fun word => .double (Float.ofBits word) := by
  induction words with
  | nil => rfl
  | cons word words ih =>
    rw [doubleRows, List.map_cons, fst_evalRows_cons, List.map_cons, ← ih]
    simp only [Evaluator.value, Evaluator.eval]
    rfl

theorem columnLong_isCast : columnLong.IsCast ⟨.column, "d", ⟨5, 1⟩, [], none⟩ (.of .long) :=
  ⟨by decide +kernel, _, rfl, rfl, rfl, rfl⟩

theorem resolve_double_column (settings : Settings) (compilers : List Compiler) :
    (Resolver.mk catalog settings compilers).resolve ⟨.column, "d", ⟨5, 1⟩, [], none⟩
      (.ofColumns [.plain "d" .double]) (.idle (.fresh 0)) =
        (.ok (.column 0 .double "d"), .idle (.fresh 0)) :=
  Resolver.resolve_of_leaf rfl rfl

/-- A negative number loses its fraction, the greatest number under the bound is a LONG and the
number twice the bound is null. -/
theorem integerCast_of_resolve_column :
    let schema : Schema := .ofColumns [.plain "d" .double]
    let w : Walk := .idle (.fresh 0)
    let r : Resolver := ⟨catalog, .default, []⟩
    let rows := doubleRows [0xC004000000000000, 0x43DFFFFFFFFFFFFF, 0x43F0000000000000]
    TypeTag.double ∈ floatingTypes ∧ TypeTag.long ∈ Value.integerTypes ∧
      columnLong.IsCast ⟨.column, "d", ⟨5, 1⟩, [], none⟩ (.of .long) ∧
      r.resolve ⟨.column, "d", ⟨5, 1⟩, [], none⟩ schema w = (.ok (.column 0 .double "d"), w) ∧
      (Value.double (Float.ofBits 0xC004000000000000)).rational? = some (-(5 / 2)) ∧
      (Value.double (Float.ofBits 0x43DFFFFFFFFFFFFF)).rational? = some (2 ^ 63 - 2 ^ 10) ∧
      (Value.double (Float.ofBits 0x43F0000000000000)).rational? = some (2 ^ 64) ∧
      ∃ e, r.resolve columnLong schema w = (.ok e, w) ∧ e.type = .long ∧
        (e.evalRows .empty rows).1 = [.long (-2), .long 9223372036854774784, .null] := by
  intro schema w r rows
  have hS : TypeTag.double ∈ floatingTypes := by decide
  have hT : TypeTag.long ∈ Value.integerTypes := by decide
  have hcolumn := resolve_double_column .default []
  obtain ⟨e, hresolve, htype, hvalues⟩ :=
    integerCast_of_resolve .default [] hS hT columnLong_isCast schema w hcolumn rfl (by decide)
  have hnegative : (Value.double (Float.ofBits 0xC004000000000000)).rational? = some (-(5 / 2)) := by
    have hread : readDouble (Float.ofBits 0xC004000000000000) = .finite true (5 * 2 ^ 50) (-51) := by
      decide +kernel
    rw [Value.rational?, hread, Reading.rational?]
    norm_num
  have hunder : (Value.double (Float.ofBits 0x43DFFFFFFFFFFFFF)).rational? =
      some (2 ^ 63 - 2 ^ 10) := by
    have hread : readDouble (Float.ofBits 0x43DFFFFFFFFFFFFF) = .finite false (2 ^ 53 - 1) 10 := by
      decide +kernel
    rw [Value.rational?, hread, Reading.rational?]
    norm_num
  have hover : (Value.double (Float.ofBits 0x43F0000000000000)).rational? = some (2 ^ 64) := by
    have hread : readDouble (Float.ofBits 0x43F0000000000000) = .finite false (2 ^ 52) 12 := by
      decide +kernel
    rw [Value.rational?, hread, Reading.rational?]
    norm_num
  refine ⟨hS, hT, columnLong_isCast, hcolumn, hnegative, hunder, hover, e, hresolve, htype, ?_⟩
  have hrows := hvalues .empty rows
  rw [evalRows_doubleRows] at hrows
  simp only [List.map_cons, List.map_nil, List.forall₂_cons_left_iff, List.forall₂_nil_left_iff]
    at hrows
  obtain ⟨v₁, _, h₁, ⟨v₂, _, h₂, ⟨v₃, _, h₃, rfl, rfl⟩, rfl⟩, heq⟩ := hrows
  rw [heq, (h₁ _ hnegative).1.mpr (by norm_num), (h₂ _ hunder).1.mpr (by norm_num),
    (h₃ _ hover).1.mpr (by norm_num)]
  have hcut : towardZero (-(5 / 2)) = -2 := by norm_num [towardZero]
  have hexact : towardZero (2 ^ 63 - 2 ^ 10) = 2 ^ 63 - 2 ^ 10 := by
    norm_num [towardZero]
  have hfar : towardZero (2 ^ 64) = 2 ^ 64 := by norm_num [towardZero]
  rw [hcut, hexact, hfar]
  rfl

/-- The bound itself is no LONG, and its cast is a LONG nonetheless. -/
theorem not_integerCast_of_bound :
    let schema : Schema := .ofColumns [.plain "d" .double]
    let w : Walk := .idle (.fresh 0)
    let r : Resolver := ⟨catalog, .default, []⟩
    (Value.double (Float.ofBits 0x43E0000000000000)).rational? = some (2 ^ 63) ∧
      Value.ofInteger .long (towardZero (2 ^ 63)) = .null ∧
      ∃ e, r.resolve columnLong schema w = (.ok e, w) ∧
        (e.evalRows .empty (doubleRows [0x43E0000000000000])).1 = [.long Int64.maxValue] := by
  intro schema w r
  have hrational : (Value.double (Float.ofBits 0x43E0000000000000)).rational? = some (2 ^ 63) := by
    have hread : readDouble (Float.ofBits 0x43E0000000000000) = .finite false (2 ^ 52) 11 := by
      decide +kernel
    rw [Value.rational?, hread, Reading.rational?]
    norm_num
  have hout : Value.ofInteger .long (towardZero (2 ^ 63)) = .null := by
    rw [Value.towardZero_bound, Value.ofInteger, if_neg (by norm_num)]
  obtain ⟨hcast, hne⟩ := cast_mem_of_floating (S := .double) (T := .long) (by decide) (by decide)
  obtain ⟨e, hresolve, -, hvalues⟩ := exists_values_of_castNode columnLong_isCast hcast hne
    (resolve_double_column .default []) rfl (by decide)
  refine ⟨hrational, hout, e, hresolve, ?_⟩
  rw [hvalues, evalRows_doubleRows]
  exact congrArg ([·]) (Value.cast_long_bound hrational _)

end SqlResolution.Builtin
