import SqlResolution.Builtin.Build
import SqlResolution.Proofs.Overload.Reading

/-!
# The catalog of the builtins

Every builtin registers, under the name and with the parameters of its descriptor. A name finds the
builtins with that name, in their order.
-/
namespace SqlResolution

/-- The catalog that a registration leaves. It is a function of its own so that the catalog of the
builtins is compared by its name, and not by running the registration. -/
def Catalog.ofRegistration (result : Catalog.Builder × Except RegistrationError Unit) : Catalog :=
  result.1.catalog

namespace Catalog.Builder

/-- Overloads whose factories register. -/
def Registers (b : Builder) (os : List Overload) : Prop :=
  ∀ o ∈ os, Signature.parse o.factory.signature = .ok o.signature ∧
    b.isValidName o.signature.name = true

/-- A factory registers under a name that is allowed, and its overload comes last. -/
theorem register_ok {b : Builder} {o : Overload}
    (hparse : Signature.parse o.factory.signature = .ok o.signature)
    (hname : b.isValidName o.signature.name = true) :
    ∃ b', b.register o.factory = .ok b' ∧ b'.forbidden = b.forbidden ∧
      b'.catalog.entries = append o.signature.name o b.catalog.entries := by
  refine ⟨{ b with catalog := { b.catalog with
    entries := append o.signature.name o b.catalog.entries } }, ?_, rfl, rfl⟩
  simp [register, Overload.ofFactory, hparse, Except.map, hname, bind, Except.bind, pure,
    Except.pure]

/-- Where every factory registers, a name keeps its overloads and takes those with the name. -/
theorem lookup_registerAll {b : Builder} {os : List Overload} (h : b.Registers os)
    (name : String) :
    ((b.registerAll (os.map (·.factory))).1.catalog.entries.lookup name).getD [] =
      (b.catalog.entries.lookup name).getD [] ++ os.filter (·.signature.name == name) := by
  induction os generalizing b with
  | nil => simp [registerAll]
  | cons o os ih =>
    obtain ⟨⟨hparse, hname⟩, hos⟩ := List.forall_mem_cons.mp h
    obtain ⟨b', hregister, hforbidden, hentries⟩ := register_ok hparse hname
    have hos' : b'.Registers os := by
      intro p hp
      rw [isValidName, hforbidden]
      exact hos p hp
    simp only [List.map_cons, registerAll, hregister]
    rw [ih hos', hentries]
    by_cases hsame : o.signature.name = name
    · subst hsame
      simp [lookup_append_self]
    · simp [lookup_append_of_ne (Ne.symm hsame), hsame]

theorem overloads?_ofRegistration {c : Catalog} {os : List Overload}
    {result : Builder × Except RegistrationError Unit} (hc : c = .ofRegistration result)
    (hresult : result = Builder.empty.registerAll (os.map (·.factory)))
    (h : Builder.empty.Registers os) (name : String) :
    (c.overloads? name).getD [] = os.filter (·.signature.name == Text.lowerAscii name) := by
  rw [hc, hresult]
  exact lookup_registerAll h (Text.lowerAscii name)

end Catalog.Builder

namespace Builtin

/-- The signature that a builtin is registered with. -/
def descriptor : Builtin → Signature
  | kernel k => ⟨k.symbol, k.operands.map (⟨·, false⟩), none⟩
  | varcharLength => ⟨"length", [⟨.varchar, false⟩], none⟩
  | cast source target => ⟨"cast", [⟨source, false⟩, ⟨target, true⟩], none⟩
  | concat => ⟨"concat", [], some ⟨false⟩⟩
  | member => ⟨"in", [⟨.string, false⟩], some ⟨true⟩⟩
  | randomInt => ⟨"rnd_int", [], none⟩
  | randomDouble => ⟨"rnd_double", [], none⟩
  | now => ⟨"now", [], none⟩
  | count => ⟨"count", [], none⟩
  | total which => ⟨which.name, [⟨if which == .longSum then .long else .double, false⟩], none⟩
  | rowNumber => ⟨"row_number", [], none⟩
  | rank => ⟨"rank", [], none⟩
  | runningAverage => ⟨"avg", [⟨.double, false⟩], none⟩

def overload (b : Builtin) : Overload := ⟨b.descriptor, b.factory⟩

/-- How a parameter is written, with the word for a constant after its type. -/
def parameterText (p : Parameter) : String := typeText p.type ++ if p.constant then " const" else ""

def tailText (t : Tail) : String := "var" ++ if t.constant then " const" else ""

/-- A builtin's text is the name and the parameters of its descriptor. -/
theorem signature_eq (b : Builtin) :
    b.signature = b.descriptor.name ++ "(" ++ ", ".intercalate
      (b.descriptor.parameters.map parameterText ++ (b.descriptor.tail.map tailText).toList) ++
        ")" := by
  rw [← String.toList_inj]
  cases b with
  | total which => cases which <;> simp [signature, descriptor, parameterText]
  | varcharLength | member | runningAverage => decide +kernel
  | _ => simp [signature, descriptor, parameterText, tailText, Function.comp_def]

open Signature

theorem parse_typeText : ∀ t ∈ castTypes, (typeText t).toList ≠ [] ∧
    (typeText t).toList.map Char.toLower ≠ "var".toList ∧
    ColumnType.parse (String.ofList (typeText t).toList) = .ok (some t) := by decide +kernel

theorem reads_parameterText {p : Parameter} (hp : p.type ∈ castTypes) :
    Reads (parameterText p).toList (.parameter p) := by
  have hwords : ∀ t ∈ castTypes, ∀ constant : Bool,
      let raw := (parameterText ⟨t, constant⟩).toList
      raw ≠ [] ∧ Text.IsTrimmed raw ∧ depthAfter? 0 raw = some 0 ∧
        takeConstantWord raw = ((typeText t).toList, constant) := by decide +kernel
  obtain ⟨type, constant⟩ := p
  obtain ⟨htext, hvar, htype⟩ := parse_typeText type hp
  obtain ⟨hne, htrimmed, hwhole, hword⟩ := hwords type hp constant
  exact reads_type hne htrimmed hwhole hword htext hvar htype

theorem reads_tailText (t : Tail) : Reads (tailText t).toList (.tail t) := by
  have hwords : ∀ constant : Bool,
      let raw := (tailText ⟨constant⟩).toList
      raw ≠ [] ∧ Text.IsTrimmed raw ∧ depthAfter? 0 raw = some 0 ∧
        takeConstantWord raw = ("var".toList, constant) := by decide +kernel
  obtain ⟨constant⟩ := t
  obtain ⟨hne, htrimmed, hwhole, hword⟩ := hwords constant
  exact reads_tail hne htrimmed hwhole hword rfl

/-- A name in small letters that may stand before the brackets of a signature. -/
def IsPlainName (name : String) : Prop :=
  name.toList ≠ [] ∧ Text.IsTrimmed name.toList ∧ '(' ∉ name.toList ∧ Text.lowerAscii name = name

instance (name : String) : Decidable (IsPlainName name) := inferInstanceAs (Decidable (_ ∧ _))

/-- The names of the builtins. -/
def names : List String :=
  ["+", "-", "*", "/", "abs", "=", "<", "and", "or", "not", "length", "upper", "cast", "concat",
    "in", "rnd_int", "rnd_double", "now", "count", "sum", "avg", "row_number", "rank"]

theorem name_mem (b : Builtin) : b.descriptor.name ∈ names := by
  cases b with
  | kernel k =>
    cases k with
    | arithmetic op kind => cases op <;> simp [descriptor, Kernel.symbol, Arithmetic.symbol, names]
    | _ => simp [descriptor, Kernel.symbol, names]
  | total which => cases which <;> simp [descriptor, Total.name, names]
  | _ => simp [descriptor, names]

theorem names_spec : ∀ name ∈ names,
    IsPlainName name ∧ Catalog.Builder.empty.isValidName name = true := by decide +kernel

theorem types_mem : ∀ b ∈ all, ∀ p ∈ b.descriptor.parameters, p.type ∈ castTypes := by
  decide +kernel

/-- There are casts between the types that convert. -/
theorem cast_mem_all_iff {source target : ColumnType} :
    cast source target ∈ all ↔
      source ∈ castTypes ∧ target ∈ castTypes ∧ converts source.tag target.tag = true := by
  have hcasts : cast source target ∈ all ↔ cast source target ∈ casts := by
    simp [all, arithmetics, comparisons, connectives, textFunctions, aggregates, windows]
  rw [hcasts]
  simp only [casts, List.mem_flatMap, List.mem_map, List.mem_filter]
  constructor
  · rintro ⟨_, htarget, _, ⟨hsource, hconverts⟩, heq⟩
    cases heq
    exact ⟨hsource, htarget, hconverts⟩
  · rintro ⟨hsource, htarget, hconverts⟩
    exact ⟨target, htarget, source, ⟨hsource, hconverts⟩, rfl⟩

theorem isUndefined_of_mem_castTypes : ∀ type ∈ castTypes, type.isUndefined = false := by decide

theorem isUndefined_target {source target : ColumnType} (h : cast source target ∈ all) :
    target.isUndefined = false :=
  isUndefined_of_mem_castTypes target (cast_mem_all_iff.mp h).2.1

theorem lowerAscii_cast : Text.lowerAscii "cast" = "cast" := by decide

/-- The text of a builtin reads as its descriptor. -/
theorem parse_signature {b : Builtin} (hb : b ∈ all) :
    Signature.parse b.signature = .ok b.descriptor := by
  obtain ⟨⟨hne, htrimmed, hopen, hlower⟩, -⟩ := names_spec _ b.name_mem
  have hparameters : List.Forall₂ Reads
      ((b.descriptor.parameters.map parameterText).map String.toList)
      (b.descriptor.parameters.map Part.parameter) := by
    rw [List.map_map, List.forall₂_map_left_iff, List.forall₂_map_right_iff, List.forall₂_same]
    exact fun p hp => reads_parameterText (types_mem b hb p hp)
  have htail : List.Forall₂ Reads (((b.descriptor.tail.map tailText).toList).map String.toList)
      (b.descriptor.tail.map Part.tail).toList := by
    cases b.descriptor.tail with
    | none => exact .nil
    | some t => exact .cons (reads_tailText t) .nil
  have hraws : List.Forall₂ Reads
      ((b.descriptor.parameters.map parameterText ++
        (b.descriptor.tail.map tailText).toList).map String.toList)
      (b.descriptor.parameters.map Part.parameter ++ (b.descriptor.tail.map Part.tail).toList) := by
    rw [List.map_append]
    exact List.rel_append hparameters htail
  rw [signature_eq, parse_of_reads hne htrimmed hopen hraws, hlower]

/-- The catalog that holds the builtins and nothing else. -/
def catalog : Catalog := .ofRegistration (registerAll .empty)

theorem catalog_eq : catalog = .ofRegistration (registerAll .empty) := rfl

attribute [irreducible] catalog

theorem registerAll_eq (b : Catalog.Builder) :
    registerAll b = b.registerAll ((all.map overload).map (·.factory)) := by
  rw [List.map_map]
  rfl

theorem registers_all : Catalog.Builder.empty.Registers (all.map overload) := by
  intro o ho
  obtain ⟨b, hb, rfl⟩ := List.mem_map.mp ho
  exact ⟨parse_signature hb, (names_spec _ b.name_mem).2⟩

/-- A name finds the builtins that have it, in their order. -/
theorem overloads?_catalog (name : String) :
    (catalog.overloads? name).getD [] =
      (all.filter (·.descriptor.name == Text.lowerAscii name)).map overload := by
  rw [Catalog.Builder.overloads?_ofRegistration catalog_eq (registerAll_eq .empty) registers_all,
    List.filter_map]
  rfl

/-- Each overload that a name finds is that of a builtin with the name. -/
theorem exists_of_mem_overloads {name : String} {overloads : List Overload} {o : Overload}
    (hname : catalog.overloads? name = some overloads) (ho : o ∈ overloads) :
    ∃ b ∈ all, o = b.overload ∧ b.descriptor.name = Text.lowerAscii name := by
  have hoverloads := overloads?_catalog name
  rw [hname, Option.getD_some] at hoverloads
  rw [hoverloads] at ho
  obtain ⟨b, hb, rfl⟩ := List.mem_map.mp ho
  obtain ⟨hall, hsame⟩ := List.mem_filter.mp hb
  exact ⟨b, hall, rfl, eq_of_beq hsame⟩

theorem overloads?_of_filter {name : String} {bs : List Builtin} (hne : bs ≠ [])
    (hfilter : all.filter (·.descriptor.name == Text.lowerAscii name) = bs) :
    catalog.overloads? name = some (bs.map overload) := by
  have hoverloads := overloads?_catalog name
  rw [hfilter] at hoverloads
  cases hfound : catalog.overloads? name with
  | none =>
    rw [hfound, Option.getD_none] at hoverloads
    exact absurd (List.map_eq_nil_iff.mp hoverloads.symm) hne
  | some os =>
    rw [hfound] at hoverloads
    exact congrArg some hoverloads

def additions : List Builtin :=
  [kernel (.arithmetic .add .int), kernel (.arithmetic .add .long),
    kernel (.arithmetic .add .double)]

theorem overloads?_plus : catalog.overloads? "+" = some (additions.map overload) :=
  overloads?_of_filter (List.cons_ne_nil _ _) (by decide +kernel)

end Builtin
end SqlResolution
