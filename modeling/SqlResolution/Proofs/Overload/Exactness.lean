import SqlResolution.Proofs.Overload.Reading
import SqlResolution.Proofs.Overload.Typing

/-!
# What an exact match hands on

Whether an argument meets its parameter exactly is told by its type and traits. Such an argument has
a type, since each parameter of a signature that is read has one, and the form of its parameter
already. So an overload that matches exactly is handed the evaluators that it was matched with.
These are the arguments of the call, but for the operand of a cast, which may be given a type before
the overloads are tried.
-/
namespace SqlResolution

open Steps

/-- Whether arguments of a tag meet no parameter of another tag exactly. -/
def TypeTag.isMetAlone (t : TypeTag) : Bool := t != .array && t != .char && !t.isGeohash

theorem TypeTag.isMetAlone_of_isString {t : TypeTag} (h : t.isString = true) :
    t.isMetAlone = true ∧ t.isTemporal = false := by
  cases t <;> first | exact ⟨rfl, rfl⟩ | cases h

namespace Parameter

variable {p : Parameter} {charFitsString : Bool} {e e' : Evaluator}

/-- Whether an argument meets a parameter exactly. -/
def meetsExactly (p : Parameter) (charFitsString : Bool) (e : Evaluator) : Bool :=
  if p.constant && !e.isConstant then false
  else if p.isArray != e.type.isArray ||
    (p.tag == .arrayString) != (e.type.tag == .arrayString) then false
  else if e.type.tag == .arrayString then true
  else if e.type.isArray then e.type.element == p.tag
  else p.matchesExactly charFitsString e

theorem matchArgument_eq_exact_iff (p : Parameter) (charFitsString isCastTarget : Bool)
    (binds : BindTable) (e : Evaluator) :
    (p.matchArgument charFitsString isCastTarget binds e).1 = .exact ↔
      p.meetsExactly charFitsString e = true := by
  unfold matchArgument meetsExactly
  dsimp only
  split_ifs <;> simp_all

theorem meetsExactly_congr (h : e.Evolves e') (p : Parameter) (charFitsString : Bool) :
    p.meetsExactly charFitsString e' = p.meetsExactly charFitsString e := by
  unfold meetsExactly matchesExactly takesCharAsString Evaluator.isConstant
  rw [h.type, h.traits]

/-- Apart from arrays, a CHAR and geohashes, what meets a parameter exactly has its tag. -/
theorem tag_of_meetsExactly (h : p.meetsExactly charFitsString e = true)
    (halone : e.type.tag.isMetAlone = true) : p.isArray = false ∧ p.tag = e.type.tag := by
  simp only [TypeTag.isMetAlone, Bool.and_eq_true, bne_iff_ne, Bool.not_eq_true'] at halone
  obtain ⟨⟨harray, hchar⟩, hgeohash⟩ := halone
  have hflat : e.type.isArray = false := beq_eq_false_iff_ne.mpr harray
  unfold meetsExactly matchesExactly takesCharAsString at h
  split_ifs at h <;> simp_all [ColumnType.isGeohash]

/-- What meets a parameter exactly has the form of the parameter. -/
theorem exists_rewriteArgument (h : p.meetsExactly charFitsString e = true) (binds : BindTable)
    (position : Span) :
    ∃ e', rewriteArgument binds p.tag e position = .ok e' ∧ e.Reevaluated e' := by
  have hsame : ∀ source : TypeTag, source.isMetAlone = true → e.type.tag = source →
      p.tag = source := by
    rintro source halone rfl
    exact (tag_of_meetsExactly h halone).2
  have hother : ∀ source : TypeTag, source.isMetAlone = true → source ≠ .string →
      ¬(p.tag == .string && e.type.tag == source) = true := by
    intro source halone hne hboth
    rw [Bool.and_eq_true, beq_iff_eq, beq_iff_eq] at hboth
    exact hne ((hsame source halone hboth.2).symm.trans hboth.1)
  unfold rewriteArgument
  dsimp only
  split
  · rename_i hdouble
    rw [Bool.and_eq_true, beq_iff_eq] at hdouble
    have hnull : ∀ target : TypeTag, target ≠ .double →
        ¬((e.evalConstant binds).1.isNull && p.tag == target) = true := by
      intro target hne hboth
      rw [hsame .double rfl hdouble.1, Bool.and_eq_true, beq_iff_eq] at hboth
      exact hne hboth.2.symm
    rw [if_neg (hnull .long (by decide)), if_neg (hnull .int (by decide))]
    exact ⟨_, rfl, .eval .refl hdouble.2 binds⟩
  · split
    · rename_i htext
      rw [Bool.and_eq_true] at htext
      obtain ⟨halone, hinstant⟩ := TypeTag.isMetAlone_of_isString htext.1
      rw [hsame _ halone rfl, hinstant, if_neg Bool.false_ne_true]
      exact ⟨e, rfl, .refl⟩
    · rw [if_neg (hother .uuid rfl (by decide)), if_neg (hother .interval rfl (by decide))]
      exact ⟨e, rfl, .refl⟩

/-- What meets a parameter exactly has a type where the parameter has. -/
theorem isUndefined_of_meetsExactly (h : p.meetsExactly charFitsString e = true)
    (htyped : p.type.tag ≠ .undefined) : e.isUndefined = false := by
  rw [Evaluator.isUndefined, ColumnType.isUndefined, beq_eq_false_iff_ne]
  intro hundefined
  obtain ⟨harray, htag⟩ := tag_of_meetsExactly h (by rw [hundefined]; rfl)
  rw [tag, harray, if_neg Bool.false_ne_true, hundefined] at htag
  exact htyped htag

end Parameter

namespace Overload

variable {o : Overload} {binds : BindTable} {isCast inWindow : Bool} {args args' : Args}

/-- Each argument of a parameter meets it exactly. -/
def MeetsExactly (o : Overload) (args : Args) : Prop :=
  ∀ i p, o.signature.parameters[i]? = some p → ∃ e, args.get? i = some e ∧
    p.meetsExactly o.factory.charFitsString e = true

theorem MeetsExactly.of_evolve (h : o.MeetsExactly args') (hevolve : args.Evolve args') :
    o.MeetsExactly args := by
  intro i p hp
  obtain ⟨e', he', hmeets⟩ := h i p hp
  obtain ⟨e, he, hevolves⟩ := hevolve.exists_of_some he'
  exact ⟨e, he, (p.meetsExactly_congr hevolves _).symm.trans hmeets⟩

/-- The level after an argument was coerced is not exact, and neither is any later one. So where it
is exact in the end, each argument of a parameter meets it exactly. -/
theorem meetsExactly_of_matchAll {charFitsString : Bool} {i : Nat} {ps : List Parameter}
    {es : List Evaluator} {s s' : CandidateScore}
    (hmatch : (matchAll charFitsString isCast binds i ps es s).1 = some s')
    (hexact : s'.level = .exact) :
    (s.level = .noMatch ∨ s.level = .exact) ∧
      ∀ (k : Nat) (p : Parameter), ps[k]? = some p → ∃ e, es[k]? = some e ∧
        p.meetsExactly charFitsString e = true := by
  induction ps generalizing i es s with
  | nil =>
    cases hmatch
    exact ⟨.inr hexact, fun k p hp => by cases hp⟩
  | cons p ps ih =>
    cases es with
    | nil => cases hmatch
    | cons e es =>
      simp only [matchAll] at hmatch
      split at hmatch
      · cases hmatch
      · rename_i houtcome
        obtain ⟨hlevel, hrest⟩ := ih hmatch
        refine ⟨s.level.mergeExact_eq_exact_iff.mp (hlevel.resolve_left ?_), ?_⟩
        · exact s.level.mergeExact_ne_noMatch
        · intro k q hq
          cases k with
          | zero =>
            cases hq
            exact ⟨e, rfl, (p.matchArgument_eq_exact_iff _ _ _ _).mp houtcome⟩
          | succ k => exact hrest k q hq
      · obtain ⟨hnone | hlevel, -⟩ := ih hmatch
        · exact absurd hnone (s.level.mergeCoerced_ne _).1
        · exact absurd hlevel (s.level.mergeCoerced_ne _).2

theorem meetsExactly_of_score (h : (o.score binds isCast inWindow args).1.level = .exact) :
    o.MeetsExactly args := by
  rw [fst_score] at h
  cases hmatch : o.rawScore? binds isCast args with
  | none =>
    rw [hmatch] at h
    cases h
  | some s =>
    rw [hmatch, Option.map_some, Option.getD_some, adjustForWindow] at h
    refine (meetsExactly_of_matchAll hmatch ?_).2
    split at h
    · cases h
    · split at h <;> exact h

/-- What wins a scan whose best level is exact has scored exactly. -/
theorem meetsExactly_of_scan {os : List Overload} {t : CandidateTracker} {scored : Args}
    (hscanned : scan binds isCast inWindow 0 os .start args = (t, scored))
    (hbest : t.best = .exact) (hwins : t.winner.bind (os[·]?) = some o) :
    o.MeetsExactly args := by
  obtain rfl : (scan binds isCast inWindow 0 os .start args).1 = t := by rw [hscanned]
  have hstart : CandidateTracker.start.best ≠ .exact := by decide
  obtain ⟨-, hnone⟩ | ⟨w, o', -, hchoice, hplace, hwinner, -, -⟩ :=
    scan_chooses binds isCast inWindow os args
  · rw [hwins] at hnone
    cases hnone
  · rw [hwins] at hwinner
    cases hwinner
    obtain ⟨k, o', args', hk, hindex, hevolve, hscore, -⟩ :=
      exists_overload_of_mem_candidates hchoice.mem
    obtain rfl : o = o' := by
      rw [hindex, Nat.zero_add, hk] at hplace
      exact (Option.some.inj hplace).symm
    cases hchoice with
    | exact level _ =>
      rw [Candidate.level, hscore] at level
      exact (meetsExactly_of_score level).of_evolve hevolve
    | leader inexact _ _ =>
      rw [scan_fst hstart, Candidate.upToExact_of_inexact inexact] at hbest
      exact absurd hbest (CandidateTracker.best_foldl_ne hstart inexact)

/-- An overload that is met exactly is handed what it was matched with. -/
theorem exists_handed {name : String} {scored handed : Args} {c c' : Context}
    (hmeets : o.MeetsExactly args)
    (htyped : ∀ p ∈ o.signature.parameters, p.type.tag ≠ .undefined)
    (hscored : args.Each Evaluator.Reevaluated scored)
    (hadjust : o.adjust name (undefinedPlaces args) scored c = (.ok handed, c')) {i : Nat}
    (hi : i < o.signature.fixedCount) :
    ∃ e g, args.get? i = some e ∧ handed.get? i = some g ∧ e.Reevaluated g := by
  have hp := List.getElem?_eq_getElem (show i < o.signature.parameters.length from hi)
  obtain ⟨e, he, hexact⟩ := hmeets i _ hp
  obtain ⟨f, hf, hef⟩ := hscored.exists_of_get? he
  have hdefined := Parameter.isUndefined_of_meetsExactly hexact (htyped _ (List.getElem_mem hi))
  obtain ⟨g, position, hg, hresult⟩ := exists_rewritten (pairwise_undefinedPlaces args)
    (notMem_undefinedPlaces he hdefined) hadjust hp hf
  obtain ⟨g', hresult', hfg⟩ := Parameter.exists_rewriteArgument
    ((Parameter.meetsExactly_congr hef.evolves _ _).trans hexact) c'.table position
  rw [hresult'] at hresult
  cases hresult
  exact ⟨e, g, he, hg, hef.trans hfg⟩

end Overload

namespace Catalog

/-! ### Catalogs whose signatures are read -/

/-- The signature of each overload is what its factory's text reads as. -/
def IsRead (cat : Catalog) : Prop :=
  ∀ entry ∈ cat.entries, ∀ o ∈ entry.2, Signature.parse o.factory.signature = .ok o.signature

/-- Each parameter of a catalog that is read has a type that a text names. -/
theorem IsRead.exists_name {cat : Catalog} (h : cat.IsRead) {name : String}
    {overloads : List Overload} (hfound : cat.overloads? name = some overloads) {o : Overload}
    (ho : o ∈ overloads) {p : Parameter} (hp : p ∈ o.signature.parameters) :
    ∃ text, ColumnType.parse text = .ok (some p.type) :=
  Signature.exists_name_of_parse
    (h (Text.lowerAscii name, overloads) (mem_of_lookup hfound) o ho) p hp

theorem IsRead.tag_ne_undefined {cat : Catalog} (h : cat.IsRead) {name : String}
    {overloads : List Overload} (hfound : cat.overloads? name = some overloads) {o : Overload}
    (ho : o ∈ overloads) : ∀ p ∈ o.signature.parameters, p.type.tag ≠ .undefined := by
  intro p hp
  obtain ⟨text, htext⟩ := h.exists_name hfound ho hp
  exact ColumnType.tag_ne_undefined_of_parse htext

theorem IsRead.element_ne_arrayString {cat : Catalog} (h : cat.IsRead) {name : String}
    {overloads : List Overload} (hfound : cat.overloads? name = some overloads) {o : Overload}
    (ho : o ∈ overloads) : ∀ p ∈ o.signature.parameters, p.type.element ≠ .arrayString := by
  intro p hp
  obtain ⟨text, htext⟩ := h.exists_name hfound ho hp
  exact ColumnType.element_ne_arrayString_of_parse htext

namespace Builder

theorem mem_append {name : String} {o o' : Overload} {entries : List (String × List Overload)}
    {entry : String × List Overload} (h : entry ∈ append name o entries) (ho : o' ∈ entry.2) :
    o' = o ∨ ∃ entry ∈ entries, o' ∈ entry.2 := by
  induction entries with
  | nil =>
    rw [append, List.mem_singleton] at h
    subst h
    exact .inl (List.mem_singleton.mp ho)
  | cons first rest ih =>
    obtain ⟨key, os⟩ := first
    rw [append] at h
    split at h
    · obtain rfl | h := List.mem_cons.mp h
      · obtain ho | ho := List.mem_append.mp ho
        · exact .inr ⟨(key, os), List.mem_cons_self, ho⟩
        · exact .inl (List.mem_singleton.mp ho)
      · exact .inr ⟨entry, List.mem_cons_of_mem _ h, ho⟩
    · obtain rfl | h := List.mem_cons.mp h
      · exact .inr ⟨(key, os), List.mem_cons_self, ho⟩
      · obtain hnew | ⟨entry', hentry', ho'⟩ := ih h
        · exact .inl hnew
        · exact .inr ⟨entry', List.mem_cons_of_mem _ hentry', ho'⟩

theorem isRead_register {b b' : Builder} {f : Factory} (h : b.catalog.IsRead)
    (hregister : b.register f = .ok b') : b'.catalog.IsRead := by
  unfold register Overload.ofFactory at hregister
  rcases hparse : Signature.parse f.signature with error | s
  · rw [hparse] at hregister
    cases hregister
  · rw [hparse] at hregister
    simp only [Except.map, bind, Except.bind] at hregister
    split at hregister
    · cases hregister
      intro entry hentry o ho
      obtain rfl | ⟨entry', hentry', ho'⟩ := mem_append hentry ho
      · exact hparse
      · exact h entry' hentry' o ho'
    · cases hregister

/-- A catalog that registration fills is read, also where a registration fails. -/
theorem isRead_registerAll {b : Builder} (h : b.catalog.IsRead) (fs : List Factory) :
    (b.registerAll fs).1.catalog.IsRead := by
  induction fs generalizing b with
  | nil => exact h
  | cons f fs ih =>
    rw [registerAll]
    cases hregister : b.register f with
    | ok b' => exact ih (isRead_register h hregister)
    | error error => exact h

end Builder

/-! ### From a call to its overload -/

variable {cat : Catalog} {name : String} {args handed : Args} {c after : Context}
  {level : MatchLevel} {o : Overload}

/-- A ranked call hands arguments to the overload that wins at a level. -/
inductive Hands (cat : Catalog) (name : String) (args : Args) (c : Context) (level : MatchLevel)
    (o : Overload) (handed : Args) (after : Context) : Prop
  | mk {overloads : List Overload} {prepared scored : Args} {ready : Context} {t : CandidateTracker}
      (found : cat.overloads? name = some overloads)
      (elides : elision name args c = (.ok (false, prepared), ready))
      (isEmpty : args.isEmpty = false)
      (scanned : scan ready.table (isCastCall name args) ready.inWindow 0 overloads .start prepared =
        (t, scored))
      (best : t.best = level)
      (wins : t.winner.bind (overloads[·]?) = some o)
      (adjusts : o.adjust name (undefinedPlaces prepared) scored ready = (.ok handed, after))

/-- The call comes to what the overload creates of the arguments that it is handed. -/
theorem Hands.resolve_eq (h : cat.Hands name args c level o handed after) (settings : Settings)
    (span : Span) :
    cat.resolve settings name span args c = o.create settings name span handed after := by
  obtain ⟨found, elides, isEmpty, scanned, -, wins, adjusts⟩ := h
  rw [resolve_of_elision found isEmpty elides, resolveRanked_apply, scanned]
  dsimp only
  rw [wins]
  exact bind_of_ok adjusts (fun handed => o.create settings name span handed)

/-- An overload that wins with an exact match is handed the arguments of the call, of which constants
may have been evaluated. Only the untyped operand of a cast may have been given a type before. -/
theorem handed_of_exact (hread : cat.IsRead) (h : cat.Hands name args c .exact o handed after) :
    (∀ settings span,
      cat.resolve settings name span args c = o.create settings name span handed after) ∧
    ∀ i < o.signature.fixedCount, ∃ e g, args.get? i = some e ∧ handed.get? i = some g ∧
      (e.Reevaluated g ∨ i = 0 ∧ ∃ b, TypesOperand name args c e g b) := by
  refine ⟨h.resolve_eq, fun i hi => ?_⟩
  cases h with
  | @mk overloads prepared scored ready t found elides _ scanned best wins adjusts =>
    obtain ⟨place, -, hplace⟩ := Option.bind_eq_some_iff.mp wins
    have hscored : prepared.Each Evaluator.Reevaluated scored := by
      have hscan := reevaluated_scan ready.table (isCastCall name args) ready.inWindow 0 overloads
        .start prepared
      rwa [scanned] at hscan
    obtain ⟨e, g, he, hg, heg⟩ := Overload.exists_handed
      (Overload.meetsExactly_of_scan scanned best wins)
      (hread.tag_ne_undefined found (List.mem_of_getElem? hplace)) hscored adjusts hi
    obtain ⟨rfl, -⟩ | ⟨operand, typed, b, htypes, rfl, -⟩ := elision_cases elides
    · exact ⟨e, g, he, hg, .inl heg⟩
    · cases i with
      | zero =>
        obtain ⟨-, first, -, -, -, assigns⟩ := id htypes
        rw [Args.get?_set_self first] at he
        cases he
        have hvariable := (Evaluator.assignType_spec assigns).2.1
        rw [heg.evolves.eq_of_variable hvariable] at hg
        exact ⟨operand, e, first, hg, .inr ⟨rfl, b, htypes⟩⟩
      | succ i =>
        rw [Args.get?_set_of_ne (Nat.succ_ne_zero i)] at he
        exact ⟨e, g, he, hg, .inl heg⟩

theorem isRead_single {key : String} {o : Overload} {operators : List String}
    (hparse : Signature.parse o.factory.signature = .ok o.signature) :
    IsRead ⟨[(key, [o])], operators⟩ := by
  intro entry hentry o' ho
  obtain rfl := List.mem_singleton.mp hentry
  obtain rfl := List.mem_singleton.mp ho
  exact hparse

/-- `f(string, double const)`, which takes a constant CHAR as a string. -/
def textAndNumber : Overload :=
  ⟨⟨"f", [⟨.string, false⟩, ⟨.double, true⟩], none⟩,
    { (default : Factory) with signature := "f(string, double const)" }⟩

/-- A constant CHAR and a constant DOUBLE that is null are handed on as they are. -/
theorem handed_of_exact_charAndNull :
    let cat : Catalog := ⟨[("f", [textAndNumber])], []⟩
    let args : Args := ⟨[.constant .char (.char 'x'), .constant .double .null], [⟨2, 3⟩, ⟨7, 4⟩]⟩
    cat.IsRead ∧ ∃ handed after, cat.Hands "f" args (.fresh 0) .exact textAndNumber handed after ∧
      ∀ i < 2, ∃ e g, args.get? i = some e ∧ handed.get? i = some g ∧ e.Reevaluated g := by
  intro cat args
  have hread : cat.IsRead := isRead_single (by decide +kernel)
  have hands : cat.Hands "f" args (.fresh 0) .exact textAndNumber args (.fresh 0) :=
    .mk rfl rfl rfl rfl rfl rfl rfl
  refine ⟨hread, args, .fresh 0, hands, fun i hi => ?_⟩
  obtain ⟨e, g, he, hg, heg | ⟨-, b, htypes⟩⟩ := (handed_of_exact hread hands).2 i hi
  · exact ⟨e, g, he, hg, heg⟩
  · obtain ⟨isCast, -⟩ := htypes
    cases isCast

/-- The cast to an INT of a DOUBLE. -/
def castToInt : Overload :=
  ⟨⟨"cast", [⟨.double, false⟩, ⟨.int, true⟩], none⟩,
    { (default : Factory) with signature := "cast(double, int const)" }⟩

/-- The cast of an untyped variable to an INT matches exactly, since the variable was made a DOUBLE
before. -/
theorem not_untouched_castVariable :
    let cat : Catalog := ⟨[("cast", [castToInt])], []⟩
    let args : Args := ⟨[.slotLink 0 .undefined, .typeName .int], [⟨5, 2⟩, ⟨11, 3⟩]⟩
    cat.IsRead ∧ ∃ handed after, cat.Hands "cast" args (.fresh 0) .exact castToInt handed after ∧
      args.get? 0 = some (.slotLink 0 .undefined) ∧ handed.get? 0 = some (.slotLink 0 .double) := by
  intro cat args
  refine ⟨isRead_single (by decide +kernel),
    ⟨[.slotLink 0 .double, .typeName .int], [⟨5, 2⟩, ⟨11, 3⟩]⟩, _,
    .mk rfl rfl rfl rfl rfl rfl rfl, rfl, rfl⟩

end Catalog
end SqlResolution
