import Mathlib.Data.List.Find
import SqlResolution.Proofs.Overload.Adjustment

/-!
# Typing the variables of a call

The chosen overload gives each untyped variable among its arguments the type of the variable's
parameter. A numbered variable that the bind table knows keeps the type it has there, which another
argument of the call may have given it. So the overload takes its arguments once more exactly where
each such type fits.
-/
namespace SqlResolution

open Steps

theorem mem_undefinedPlaces {args : Args} {i : Nat} :
    i ∈ undefinedPlaces args ↔ ∃ e, args.get? i = some e ∧ e.isUndefined = true := by
  unfold undefinedPlaces
  rw [List.mem_filter, List.mem_range]
  constructor
  · rintro ⟨-, hany⟩
    exact Option.any_eq_true _ _ |>.mp hany
  · rintro ⟨e, he, hundefined⟩
    obtain ⟨hlt, -⟩ := List.getElem?_eq_some_iff.mp he
    refine ⟨hlt, ?_⟩
    rw [he]
    exact hundefined

theorem notMem_undefinedPlaces {args : Args} {i : Nat} {e : Evaluator} (he : args.get? i = some e)
    (hdefined : e.isUndefined = false) : i ∉ undefinedPlaces args := by
  intro hi
  obtain ⟨f, hf, hundefined⟩ := mem_undefinedPlaces.mp hi
  rw [he] at hf
  cases hf
  rw [hdefined] at hundefined
  cases hundefined

theorem pairwise_undefinedPlaces (args : Args) : (undefinedPlaces args).Pairwise (· < ·) :=
  List.pairwise_lt_range.filter _

/-- What had no type before the overloads of a call are scored has none after. -/
theorem isUndefined_of_evolve {args scored : Args} (h : args.Evolve scored) {i : Nat}
    (hi : i ∈ undefinedPlaces args) {e : Evaluator} (he : scored.get? i = some e) :
    e.isUndefined = true := by
  obtain ⟨before, hbefore, hundefined⟩ := mem_undefinedPlaces.mp hi
  obtain ⟨e', he', hevolves⟩ := h.exists_of_get? hbefore
  rw [he] at he'
  cases he'
  rw [Evaluator.isUndefined, hevolves.type]
  exact hundefined

theorem Context.table_withTable {c : Context} (hbinds : c.binds.isSome = true) (b : BindTable) :
    (c.withTable b).table = b := by
  obtain ⟨b', hb'⟩ := Option.isSome_iff_exists.mp hbinds
  simp [table, withTable, hb']

theorem Context.withTable_of_none {c : Context} (hbinds : c.binds = none) (b : BindTable) :
    c.withTable b = c := by
  obtain ⟨binds, _⟩ := c
  cases hbinds
  rfl

/-- The numbered variable that an argument links. -/
def Args.slot? (args : Args) (i : Nat) : Option Nat := (args.get? i).bind Evaluator.slot?

section Assign

variable {args args' : Args} {i : Nat} {type : ColumnType} {c c' : Context}

/-- An argument that is given a type. -/
theorem assignArgument_spec (hassign : assignArgument args i type c = (.ok args', c')) :
    (∀ j, j ≠ i → args'.get? j = args.get? j) ∧
    (∀ slot, args.slot? i ≠ some slot → c'.table.slotType? slot = c.table.slotType? slot) ∧
    ∀ e, args.get? i = some e → e.isConstant = false ∧ ∃ e', args'.get? i = some e' ∧
      e'.isConstant = false ∧ e'.type = (e.slot?.bind c.table.slotType?).getD type ∧
      ∀ slot, c.binds.isSome = true → args.slot? i = some slot →
        c'.table.slotType? slot = some e'.type := by
  rw [assignArgument_apply] at hassign
  cases hget : args.get? i with
  | none =>
    rw [hget] at hassign
    cases hassign
    exact ⟨fun _ _ => rfl, fun _ _ => rfl, fun _ he => by cases he⟩
  | some e =>
    rw [hget] at hassign
    simp only at hassign
    rcases hresult : e.assignType c.table type with error | ⟨e', b⟩
    · rw [hresult] at hassign
      cases hassign
    · rw [hresult] at hassign
      cases hassign
      obtain ⟨hvariable, hvariable', htype, hslots⟩ := Evaluator.assignType_spec hresult
      have hslot : args.slot? i = e.slot? := by rw [Args.slot?, hget, Option.bind_some]
      refine ⟨?_, ?_, ?_⟩
      · intro j hj
        exact List.getElem?_set_ne (Ne.symm hj)
      · intro slot hother
        rw [hslot] at hother
        cases hbinds : c.binds with
        | none => rw [Context.withTable_of_none hbinds]
        | some b' =>
          rw [Context.table_withTable (by rw [hbinds]; rfl), hslots, if_neg hother]
      · intro e₀ he₀
        cases he₀
        obtain ⟨hlt, -⟩ := List.getElem?_eq_some_iff.mp hget
        refine ⟨hvariable, e', List.getElem?_set_self hlt, hvariable', htype, ?_⟩
        intro slot hbinds hlinks
        rw [hslot] at hlinks
        rw [Context.table_withTable hbinds, hslots, if_pos hlinks]

theorem isSome_binds_assignArgument (hassign : assignArgument args i type c = (.ok args', c')) :
    c'.binds.isSome = c.binds.isSome := by
  have hframe := keeps_frame_assignArgument args i type c
  rw [hassign] at hframe
  exact Context.isSome_binds_of_frame hframe

end Assign

namespace Overload

/-- The type that a call gives to a numbered variable: what the bind table has for it, or else that
of the parameter of the first place that links it. -/
def slotType? (o : Overload) (c : Context) (places : List Nat) (args : Args) (slot : Nat) :
    Option ColumnType :=
  if c.binds.isSome then
    c.table.slotType? slot <|>
      ((places.find? fun i => args.slot? i == some slot).bind (o.signature.parameters[·]?)).map
        (·.type)
  else none

variable {o : Overload} {name : String} {places : List Nat} {args args' : Args} {c c' : Context}
  {p q : Parameter} {i slot : Nat}

theorem find?_links_head (hlinks : args.slot? i = some slot) :
    (i :: places).find? (fun i => args.slot? i == some slot) = some i := by
  rw [List.find?_cons_of_pos]
  simp [hlinks]

theorem slotType?_getD_head (hp : o.signature.parameters[i]? = some p)
    (hlinks : args.slot? i = some slot) :
    (o.slotType? c (i :: places) args slot).getD p.type =
      (c.table.slotType? slot).getD p.type := by
  unfold slotType?
  cases hbinds : c.binds with
  | none => simp [Context.table, hbinds, BindTable.slotType?, BindTable.slot?, BindTable.empty]
  | some b =>
    rw [find?_links_head hlinks, Option.bind_some, hp]
    cases c.table.slotType? slot <;> rfl

/-- After the first place is done, a variable is given the same type by those that are left. -/
theorem slotType?_tail (hp : o.signature.parameters[i]? = some p) (hplace : i ∉ places)
    (hassign : assignArgument args i p.type c = (.ok args', c')) (slot : Nat) :
    o.slotType? c' places args' slot = o.slotType? c (i :: places) args slot := by
  obtain ⟨hothers, hslots, hargument⟩ := assignArgument_spec hassign
  unfold slotType?
  rw [isSome_binds_assignArgument hassign]
  by_cases hbinds : c.binds.isSome = true
  · rw [if_pos hbinds, if_pos hbinds]
    by_cases hlinks : args.slot? i = some slot
    · obtain ⟨e, he, hslot⟩ := Option.bind_eq_some_iff.mp hlinks
      obtain ⟨-, e', -, -, htype, hdefined⟩ := hargument e he
      rw [hslot, Option.bind_some] at htype
      rw [hdefined slot hbinds hlinks, find?_links_head hlinks, Option.bind_some, hp, htype]
      cases c.table.slotType? slot <;> rfl
    · have hrest : places.find? (fun j => args'.slot? j == some slot) =
          places.find? fun j => args.slot? j == some slot := by
        apply List.find?_congr
        intro j hj
        have hne : j ≠ i := by
          rintro rfl
          exact hplace hj
        rw [Args.slot?, hothers j hne]
        rfl
      have hskip : (i :: places).find? (fun j => args.slot? j == some slot) =
          places.find? fun j => args.slot? j == some slot := by
        rw [List.find?_cons_of_neg]
        simpa using hlinks
      rw [hslots slot hlinks, hrest, hskip]
  · rw [if_neg hbinds, if_neg hbinds]

theorem variableType_of_parameter (hp : o.signature.parameters[i]? = some p) (name : String)
    (args : Args) : o.variableType name i args = .ok p.type := by
  rw [variableType, hp]

/-- A variable at the first of some places takes its type before the others do. -/
theorem assignTypes_cons
    (hassign : o.assignTypes name (i :: places) args c = (.ok args', c')) :
    ∃ type args₁ c₁, o.variableType name i args = .ok type ∧
      assignArgument args i type c = (.ok args₁, c₁) ∧
      o.assignTypes name places args₁ c₁ = (.ok args', c') := by
  rw [assignTypes] at hassign
  obtain ⟨type, c₀, hlift, hrest⟩ := exists_of_bind_ok hassign
  obtain ⟨args₁, c₁, hargument, htail⟩ := exists_of_bind_ok hrest
  rw [liftM_apply] at hlift
  obtain ⟨htype, rfl⟩ := Prod.mk.inj hlift
  exact ⟨type, args₁, c₁, htype, hargument, htail⟩

/-- The variables at fixed places are typed, and all else stays. -/
theorem assignTypes_spec (hassign : o.assignTypes name places args c = (.ok args', c'))
    (hsorted : places.Pairwise (· < ·)) :
    (∀ j, j ∉ places → args'.get? j = args.get? j) ∧
    ∀ i ∈ places, ∀ p e, o.signature.parameters[i]? = some p → args.get? i = some e →
      e.isConstant = false ∧ ∃ e', args'.get? i = some e' ∧ e'.isConstant = false ∧
        e'.type = ((args.slot? i).bind (o.slotType? c places args)).getD p.type := by
  induction places generalizing args c with
  | nil =>
    cases hassign
    exact ⟨fun _ _ => rfl, fun i hi => by cases hi⟩
  | cons i places ih =>
    obtain ⟨type, args₁, c₁, htype, hhead, htail⟩ := assignTypes_cons hassign
    obtain ⟨hbefore, hsorted⟩ := List.pairwise_cons.mp hsorted
    obtain ⟨hothers, -, hargument⟩ := assignArgument_spec hhead
    obtain ⟨hkept, htyped⟩ := ih htail hsorted
    have hplace : i ∉ places := fun hi => Nat.lt_irrefl i (hbefore i hi)
    constructor
    · intro j hj
      rw [List.mem_cons, not_or] at hj
      rw [hkept j hj.2, hothers j hj.1]
    · intro j hj p e hp he
      obtain rfl | hj := List.mem_cons.mp hj
      · rw [variableType_of_parameter hp] at htype
        cases htype
        obtain ⟨hvariable, e', he', hvariable', htype, -⟩ := hargument e he
        refine ⟨hvariable, e', (hkept j hplace).trans he', hvariable', ?_⟩
        have hslot : args.slot? j = e.slot? := by rw [Args.slot?, he, Option.bind_some]
        rw [htype, ← hslot]
        cases hlinks : args.slot? j with
        | none => rfl
        | some slot => exact (slotType?_getD_head hp hlinks).symm
      · have hlt := hbefore j hj
        obtain ⟨hlength, -⟩ := List.getElem?_eq_some_iff.mp hp
        have hq := List.getElem?_eq_getElem (show i < o.signature.parameters.length by omega)
        rw [variableType_of_parameter hq] at htype
        cases htype
        have hget : args₁.get? j = args.get? j := hothers j (by omega)
        have hslot : args₁.slot? j = args.slot? j := by rw [Args.slot?, hget, Args.slot?]
        obtain ⟨hvariable, e', he', hvariable', htype⟩ := htyped j hj p e hp (hget.trans he)
        refine ⟨hvariable, e', he', hvariable', ?_⟩
        rw [htype, hslot, funext (slotType?_tail hq hplace hhead)]

/-- The argument of the first of some parameters is brought into its form before the others. -/
theorem rewriteAll_cons {binds : BindTable} {ps : List Parameter}
    (hrewrite : rewriteAll binds i (p :: ps) args = .ok args') :
    ∃ args₁, rewriteAll binds (i + 1) ps args₁ = .ok args' ∧
      (∀ j, j ≠ i → args₁.get? j = args.get? j) ∧
      ∀ e, args.get? i = some e → ∃ e' position, args₁.get? i = some e' ∧
        rewriteArgument binds p.tag e position = .ok e' := by
  rw [rewriteAll, Args.mapAt] at hrewrite
  cases hget : args.get? i with
  | none =>
    simp only [hget] at hrewrite
    exact ⟨args, hrewrite, fun _ _ => rfl, fun e he => by cases he⟩
  | some e =>
    simp only [hget] at hrewrite
    rcases hresult : rewriteArgument binds p.tag e (args.position i) with error | e'
    · rw [hresult] at hrewrite
      cases hrewrite
    · rw [hresult] at hrewrite
      refine ⟨args.set i e', hrewrite, ?_, ?_⟩
      · intro j hj
        exact List.getElem?_set_ne (Ne.symm hj)
      · intro f hf
        cases hf
        obtain ⟨hlt, -⟩ := List.getElem?_eq_some_iff.mp hget
        exact ⟨e', args.position i, List.getElem?_set_self hlt, hresult⟩

/-- Each argument of a parameter is brought into its form, and those before stay. -/
theorem rewriteAll_spec {binds : BindTable} {ps : List Parameter}
    (hrewrite : rewriteAll binds i ps args = .ok args') :
    (∀ j, j < i → args'.get? j = args.get? j) ∧
    ∀ k p e, ps[k]? = some p → args.get? (i + k) = some e → ∃ e' position,
      args'.get? (i + k) = some e' ∧ rewriteArgument binds p.tag e position = .ok e' := by
  induction ps generalizing i args with
  | nil =>
    cases hrewrite
    exact ⟨fun _ _ => rfl, fun k p e hp => by cases hp⟩
  | cons p ps ih =>
    obtain ⟨args₁, hrest, hothers, hargument⟩ := rewriteAll_cons hrewrite
    obtain ⟨hkept, hrewritten⟩ := ih hrest
    constructor
    · intro j hj
      rw [hkept j (by omega), hothers j (by omega)]
    · intro k q e hq he
      cases k with
      | zero =>
        cases hq
        obtain ⟨e', position, he', hresult⟩ := hargument e he
        exact ⟨e', position, (hkept i (by omega)).trans he', hresult⟩
      | succ k =>
        have hplace : i + (k + 1) = i + 1 + k := by omega
        rw [hplace] at he ⊢
        exact hrewritten k q e hq ((hothers _ (by omega)).trans he)

/-- A call's arguments are typed, and then those of parameters are brought into their form. -/
theorem adjust_ok (hadjust : o.adjust name places args c = (.ok args', c')) :
    ∃ typed, o.assignTypes name places args c = (.ok typed, c') ∧
      rewriteAll c'.table 0 o.signature.parameters typed = .ok args' := by
  unfold adjust at hadjust
  cases htail : firstVariableInTail? o.signature args with
  | some i =>
    rw [htail] at hadjust
    cases hadjust
  | none =>
    rw [htail] at hadjust
    obtain ⟨typed, c₁, htypes, hadjust⟩ := exists_of_bind_ok hadjust
    rw [bind_of_ok (get_apply c₁), liftM_apply] at hadjust
    obtain ⟨hrewrite, rfl⟩ := Prod.mk.inj hadjust
    exact ⟨typed, htypes, hrewrite⟩

variable {isCast : Bool} {scored adjusted : Args}

theorem slot?_evolve (hevolve : args.Evolve scored) : scored.slot? = args.slot? := by
  funext i
  have hi := hevolve i
  unfold Args.slot?
  generalize args.get? i = e, scored.get? i = e' at hi
  cases hi with
  | none => rfl
  | some he => exact he.slot?_eq

theorem slotType?_evolve (hevolve : args.Evolve scored) (places : List Nat) :
    o.slotType? c places scored = o.slotType? c places args := by
  funext slot
  unfold slotType?
  rw [slot?_evolve hevolve]

/-- An argument of a parameter that is not typed is only brought into the form of the parameter. -/
theorem exists_rewritten (hsorted : places.Pairwise (· < ·)) (hplace : i ∉ places)
    (hadjust : o.adjust name places args c = (.ok adjusted, c'))
    (hp : o.signature.parameters[i]? = some p) {e : Evaluator} (he : args.get? i = some e) :
    ∃ g position, adjusted.get? i = some g ∧
      rewriteArgument c'.table p.tag e position = .ok g := by
  obtain ⟨typed, htypes, hrewrite⟩ := adjust_ok hadjust
  have hf : typed.get? i = some e := ((assignTypes_spec htypes hsorted).1 i hplace).trans he
  obtain ⟨g, position, hg, hresult⟩ :=
    (rewriteAll_spec hrewrite).2 i p e hp (by rw [Nat.zero_add, hf])
  rw [Nat.zero_add] at hg
  exact ⟨g, position, hg, hresult⟩

/-- What becomes of the argument of a parameter: one without a type is a variable and takes one,
and another is as the scoring left it. Then it is brought into the form of the parameter. -/
theorem exists_adjusted (hadmits : o.Admits isCast args) (hevolve : args.Evolve scored)
    (hadjust : o.adjust name (undefinedPlaces args) scored c = (.ok adjusted, c'))
    (hp : o.signature.parameters[i]? = some p) :
    ∃ e f g position, args.get? i = some e ∧ adjusted.get? i = some g ∧
      rewriteArgument c'.table p.tag f position = .ok g ∧
      (e.isUndefined = false ∧ e.Evolves f ∨
        e.isUndefined = true ∧ e.isConstant = false ∧ f.isConstant = false ∧
          f.type =
            ((args.slot? i).bind (o.slotType? c (undefinedPlaces args) args)).getD p.type) := by
  obtain ⟨e, he, -⟩ := hadmits i p hp
  obtain ⟨e', he', hevolves⟩ := hevolve.exists_of_get? he
  cases hundefined : e.isUndefined with
  | false =>
    obtain ⟨g, position, hg, hresult⟩ := exists_rewritten (pairwise_undefinedPlaces args)
      (notMem_undefinedPlaces he hundefined) hadjust hp he'
    exact ⟨e, e', g, position, he, hg, hresult, .inl ⟨hundefined, hevolves⟩⟩
  | true =>
    obtain ⟨typed, htypes, hrewrite⟩ := adjust_ok hadjust
    obtain ⟨-, htyped⟩ := assignTypes_spec htypes (pairwise_undefinedPlaces args)
    obtain ⟨-, hrewritten⟩ := rewriteAll_spec hrewrite
    have hplace : i ∈ undefinedPlaces args := mem_undefinedPlaces.mpr ⟨e, he, hundefined⟩
    obtain ⟨hvariable, f, hf, hvariable', htype⟩ := htyped i hplace p e' hp he'
    rw [slot?_evolve hevolve, slotType?_evolve hevolve] at htype
    have hconstant : e.isConstant = false := by
      rw [Evaluator.isConstant, ← hevolves.traits]
      exact hvariable
    obtain ⟨g, position, hg, hresult⟩ := hrewritten i p f hp (by rw [Nat.zero_add, hf])
    rw [Nat.zero_add] at hg
    exact ⟨e, f, g, position, he, hg, hresult, .inr ⟨hundefined, hconstant, hvariable', htype⟩⟩

end Overload

/-- The overload that a call chose takes the arguments that it prepared, exactly where each numbered
variable without a type is given one that its parameter takes, and no constant string has outgrown a
CHAR. -/
theorem adjust_accepted_iff {overloads : List Overload} {o : Overload} {name : String}
    {isCast inWindow : Bool} {args adjusted : Args} {c c' : Context}
    (hwinner : (scan c.table isCast inWindow 0 overloads .start args).1.winner.bind
      (overloads[·]?) = some o)
    (hadjust : o.adjust name (undefinedPlaces args)
      (scan c.table isCast inWindow 0 overloads .start args).2 c = (.ok adjusted, c')) :
    (o.score c'.table isCast inWindow adjusted).1.level ≠ .noMatch ↔
      (∀ i p e slot type, o.signature.parameters[i]? = some p → args.get? i = some e →
        e.isUndefined = true → e.slot? = some slot →
          o.slotType? c (undefinedPlaces args) args slot = some type →
            p.takes o.factory.charFitsString (isCast && i == 1) type = true) ∧
      ∀ i p e, o.signature.parameters[i]? = some p → adjusted.get? i = some e →
        p.isTooShortFor c'.table e = false := by
  have hadmits : o.Admits isCast args := Overload.admits_of_winner hwinner
  have hevolve := evolve_scan c.table isCast inWindow 0 overloads .start args
  rw [Overload.score_ne_noMatch_iff]
  refine and_congr_left fun _ => ?_
  constructor
  · intro hafter i p e slot type hp he hundefined hslot htype
    obtain ⟨e₀, f, g, position, he₀, hg, hrewrite, hargument⟩ :=
      Overload.exists_adjusted hadmits hevolve hadjust hp
    obtain ⟨g₀, hg₀, htaken⟩ := hafter i p hp
    obtain ⟨e₁, he₁, hadmit⟩ := hadmits i p hp
    rw [he] at he₀ he₁
    cases he₀
    cases he₁
    rw [hg] at hg₀
    cases hg₀
    obtain ⟨htyped, -⟩ | ⟨-, hvariable, hvariable', hftype⟩ := hargument
    · rw [hundefined] at htyped
      cases htyped
    · have htarget : (isCast && i == 1) = true → p.tag ≠ .string := by
        intro hcast
        rw [hcast] at hadmit
        rw [Parameter.tag_of_admits_target hadmit hvariable hundefined]
        decide
      have hbefore := Parameter.admits_of_rewriteArgument hvariable' htarget hrewrite htaken
      rw [Parameter.admits_of_variable hvariable', hftype, Args.slot?, he, Option.bind_some, hslot,
        Option.bind_some, htype, Option.getD_some] at hbefore
      exact hbefore
  · intro htypes i p hp
    obtain ⟨e, f, g, position, he, hg, hrewrite, hargument⟩ :=
      Overload.exists_adjusted hadmits hevolve hadjust hp
    obtain ⟨e₁, he₁, hadmit⟩ := hadmits i p hp
    rw [he] at he₁
    cases he₁
    refine ⟨g, hg, Parameter.admits_rewriteArgument ?_ hrewrite⟩
    obtain ⟨-, hevolves⟩ | ⟨hundefined, hvariable, hvariable', hftype⟩ := hargument
    · rw [Parameter.admits_congr hevolves.type hevolves.traits]
      exact hadmit
    · rw [Parameter.admits_of_variable hvariable', hftype]
      cases hgiven : (args.slot? i).bind (o.slotType? c (undefinedPlaces args) args) with
      | none => exact Parameter.takes_type hadmit hvariable hundefined
      | some type =>
        obtain ⟨slot, hslot, htype⟩ := Option.bind_eq_some_iff.mp hgiven
        rw [Args.slot?, he, Option.bind_some] at hslot
        exact htypes i p e slot type hp he hundefined hslot htype

/-- A function of two parameters. -/
def pairOverload (first second : ColumnType) : Overload :=
  ⟨⟨"f", [⟨first, false⟩, ⟨second, false⟩], none⟩, default⟩

/-- A variable that is linked twice. -/
def repeatedVariable : Args := ⟨[.slotLink 0 .undefined, .slotLink 0 .undefined], [⟨2, 2⟩, ⟨6, 2⟩]⟩

/-- `f(int, long)` takes a variable that is linked twice: a LONG may be an INT. -/
theorem adjust_accepted_int_long :
    let o := pairOverload .int .long
    let scanned := scan .empty false false 0 [o] .start repeatedVariable
    scanned.1.winner.bind ([o][·]?) = some o ∧
      ∃ adjusted c', o.adjust "f" (undefinedPlaces repeatedVariable) scanned.2 (.fresh 0) =
        (.ok adjusted, c') ∧ (o.score c'.table false false adjusted).1.level ≠ .noMatch := by
  intro o scanned
  let b : BindTable := ⟨[(0, ⟨.int, .null⟩)], []⟩
  let typed : Args := ⟨[.slotLink 0 .int, .slotLink 0 .int], [⟨2, 2⟩, ⟨6, 2⟩]⟩
  have hadjust : o.adjust "f" (undefinedPlaces repeatedVariable) scanned.2 (.fresh 0) =
      (.ok typed, (Context.fresh 0).withTable b) := rfl
  refine ⟨rfl, typed, _, hadjust, ?_⟩
  refine (@adjust_accepted_iff [o] o "f" false false repeatedVariable _ (.fresh 0) _ rfl
    hadjust).mpr ⟨?_, ?_⟩
  · intro i p e slot type hp he _ hslot htype
    match i with
    | 0 =>
      cases hp
      cases he
      cases hslot
      cases htype
      rfl
    | 1 =>
      cases hp
      cases he
      cases hslot
      cases htype
      rfl
    | _ + 2 => cases hp
  · intro i p e hp _
    match i with
    | 0 =>
      cases hp
      exact Parameter.isTooShortFor_of_ne_char (by decide)
    | 1 =>
      cases hp
      exact Parameter.isTooShortFor_of_ne_char (by decide)
    | _ + 2 => cases hp

/-- `f(int, string)` gives a variable that is linked twice the type INT, and does not take it as its
string. -/
theorem adjust_not_accepted_int_string :
    let o := pairOverload .int .string
    let scanned := scan .empty false false 0 [o] .start repeatedVariable
    scanned.1.winner.bind ([o][·]?) = some o ∧
      ∃ adjusted c', o.adjust "f" (undefinedPlaces repeatedVariable) scanned.2 (.fresh 0) =
        (.ok adjusted, c') ∧ (o.score c'.table false false adjusted).1.level = .noMatch :=
  ⟨rfl, ⟨[.slotLink 0 .int, .slotLink 0 .int], [⟨2, 2⟩, ⟨6, 2⟩]⟩, _, rfl, rfl⟩

end SqlResolution
