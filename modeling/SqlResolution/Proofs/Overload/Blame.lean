import SqlResolution.Proofs.Overload.NamedLinks

/-!
# What the error of a call points at

A call that fails points at itself or at one of its arguments, where its factories do. It never
fails for a reason of the resolver's own: an argument without a type is a variable, which can be
given one.
-/
namespace SqlResolution

open Steps

namespace ResolveError

/-- The error is at a span, or at one of some positions. -/
def PointsInto (span : Span) (positions : List Span) (e : ResolveError) : Prop :=
  ∃ s, e.span? = some s ∧ (s = span ∨ s ∈ positions)

theorem PointsInto.of_empty {span : Span} {e : ResolveError} (h : e.PointsInto span [])
    (positions : List Span) : e.PointsInto span positions := by
  obtain ⟨s, hs, rfl | hmem⟩ := h
  · exact ⟨s, hs, .inl rfl⟩
  · cases hmem

end ResolveError

namespace Evaluator

/-- It has a type, or is a variable, which can be given one. -/
def TakesType (e : Evaluator) : Prop := e.isUndefined = true → ∃ x, e.linked? = some x

/-- A variable can be given any type. -/
theorem exists_assignType (binds : BindTable) (type : ColumnType) {e : Evaluator} {x : Variable}
    (h : e.linked? = some x) : ∃ typed b, e.assignType binds type = .ok (typed, b) := by
  induction isLinkTo_of_linked? h with
  | link => cases x <;> exact ⟨_, _, rfl⟩
  | memo cache _ ih =>
    obtain ⟨typed, b, hinner⟩ := ih h
    exact ⟨memo cache typed, b, by simp only [assignType, hinner]; rfl⟩

end Evaluator

namespace Args

variable {args : Args} {i : Nat} {e : Evaluator}

/-- Each argument has its position. -/
def IsPlaced (args : Args) : Prop := args.evaluators.length = args.positions.length

theorem IsPlaced.position_mem (h : args.IsPlaced) (hi : i < args.size) :
    args.position i ∈ args.positions := by
  have hlt : i < args.positions.length := h ▸ hi
  rw [position, List.getD_eq_getElem?_getD, List.getElem?_eq_getElem hlt, Option.getD_some]
  exact List.getElem_mem hlt

theorem IsPlaced.of_same {args' : Args} (h : args.IsPlaced) (hsize : args'.size = args.size)
    (hpositions : args'.positions = args.positions) : args'.IsPlaced := by
  have hlength : args'.evaluators.length = args.evaluators.length := hsize
  rw [IsPlaced, hlength, hpositions]
  exact h

theorem IsPlaced.set (h : args.IsPlaced) (i : Nat) (e : Evaluator) : (args.set i e).IsPlaced :=
  h.of_same (size_set args i e) rfl

/-- The arguments at some places are variables. -/
def LinksAt (places : List Nat) (args : Args) : Prop :=
  ∀ i ∈ places, ∀ e, args.get? i = some e → ∃ x, e.linked? = some x

theorem LinksAt.set {places : List Nat} (h : args.LinksAt places) (i : Nat)
    (he : ∃ x, e.linked? = some x) : (args.set i e).LinksAt places := by
  intro j hj f hf
  by_cases hji : j = i
  · subst hji
    rw [Args.set, get?, List.getElem?_set] at hf
    simp only [if_true] at hf
    split at hf
    · cases hf
      exact he
    · cases hf
  · rw [get?_set_of_ne hji] at hf
    exact h j hj f hf

end Args

section Assign

variable {args prepared scored : Args} {i : Nat} {type : ColumnType} {name : String}
  {c u : Context} {err : ResolveError} {places : List Nat}

/-- A variable takes any type that it is given. -/
theorem exists_assignArgument (h : args.LinksAt [i]) (type : ColumnType) (c : Context) :
    ∃ args' c', assignArgument args i type c = (.ok args', c') ∧ args'.positions = args.positions ∧
      args'.size = args.size ∧ ∀ places, args.LinksAt places → args'.LinksAt places := by
  rw [assignArgument_apply]
  cases hget : args.get? i with
  | none => exact ⟨args, c, rfl, rfl, rfl, fun _ h => h⟩
  | some e =>
    obtain ⟨x, hx⟩ := h i List.mem_cons_self e hget
    obtain ⟨typed, b, hassign⟩ := Evaluator.exists_assignType c.table type hx
    obtain ⟨y, -, hy, -, -⟩ := Evaluator.assignType_ok hassign
    refine ⟨args.set i typed, c.withTable b, ?_, rfl, Args.size_set args i typed, ?_⟩
    · simp only [hassign]
    · exact fun places hlinks => hlinks.set i ⟨y, hy⟩

/-- The first look at a call, which may type the operand of a cast, does not fail. -/
theorem exists_elision (hargs : ∀ e ∈ args.evaluators, e.TakesType) (name : String) (c : Context) :
    ∃ isElided prepared c', elision name args c = (.ok (isElided, prepared), c') := by
  unfold elision
  split
  · rw [elideCast_apply]
    cases hfirst : args.get? 0 with
    | none => exact ⟨_, _, _, rfl⟩
    | some operand =>
      cases args.get? 1 with
      | none => exact ⟨_, _, _, rfl⟩
      | some target =>
        dsimp only
        split
        · exact ⟨_, _, _, rfl⟩
        · split
          · rename_i hundefined
            cases castVariableType? target.type with
            | none => exact ⟨_, _, _, rfl⟩
            | some type =>
              -- The operand is given a type only where it has none, so it is a variable.
              have hlinks : args.LinksAt [0] := by
                intro i hi e he
                obtain rfl := List.mem_singleton.mp hi
                rw [hfirst] at he
                cases he
                exact hargs operand (List.mem_of_getElem? hfirst) hundefined
              obtain ⟨args', c', hassign, -⟩ := exists_assignArgument hlinks type c
              simp only [hassign]
              exact ⟨_, _, _, rfl⟩
          · exact ⟨_, _, _, rfl⟩
  · exact ⟨_, _, _, rfl⟩

/-- After the first look at a call, its untyped arguments are variables still. -/
theorem takesType_elision (hargs : ∀ e ∈ args.evaluators, e.TakesType) {isElided : Bool}
    (h : elision name args c = (.ok (isElided, prepared), u)) :
    ∀ e ∈ prepared.evaluators, e.TakesType := by
  obtain ⟨rfl, -⟩ | ⟨operand, typed, b, ⟨-, -, -, -, -, hassign⟩, rfl, -⟩ := elision_cases h
  · exact hargs
  · obtain ⟨x, -, hx, -, -⟩ := Evaluator.assignType_ok hassign
    intro e he
    obtain he | rfl := List.mem_or_eq_of_mem_set he
    · exact hargs e he
    · exact fun _ => ⟨x, hx⟩

/-- A cast that is its own operand has one. -/
theorem exists_operand_of_elided (h : elision name args c = (.ok (true, prepared), u)) :
    ∃ operand, prepared.get? 0 = some operand := by
  have hsize := size_elision h
  have hcast : isCastCall name args = true := by
    by_contra hcast
    rw [elision, if_neg hcast] at h
    cases h
  rw [isCastCall, Bool.and_eq_true, Bool.and_eq_true, beq_iff_eq] at hcast
  have hlt : 0 < prepared.evaluators.length := by
    have htwo : prepared.evaluators.length = 2 := hsize.trans hcast.1.2
    omega
  exact ⟨_, List.getElem?_eq_getElem hlt⟩

/-- Where the arguments of a call have no type, they are variables, also after the scan. -/
theorem linksAt_undefinedPlaces (hprepared : ∀ e ∈ prepared.evaluators, e.TakesType)
    (hevolve : prepared.Evolve scored) : scored.LinksAt (undefinedPlaces prepared) := by
  intro i hi e he
  obtain ⟨before, hbefore, hundefined⟩ := mem_undefinedPlaces.mp hi
  obtain ⟨x, hx⟩ := hprepared before (List.mem_of_getElem? hbefore) hundefined
  obtain ⟨e', he', hevolves⟩ := hevolve.exists_of_get? hbefore
  rw [he] at he'
  cases he'
  exact ⟨x, hevolves.linked?_eq.trans hx⟩

end Assign

/-! ### Errors of the steps of a call -/

section Errors

variable {o : Overload} {args : Args} {i : Nat} {name : String} {span position : Span}
  {settings : Settings} {c u : Context} {err : ResolveError} {places : List Nat}
  {binds : BindTable} {target : TypeTag} {e : Evaluator}

/-- Text that is to be a date or a timestamp may be neither. Else an argument is brought into any
form. -/
theorem error_of_rewriteArgument (h : rewriteArgument binds target e position = .error err) :
    ∃ text, err = .invalidDate text position := by
  unfold rewriteArgument at h
  dsimp only at h
  split at h
  · split at h
    · cases h
    · split at h <;> cases h
  · split at h
    · split at h
      · unfold readConstantInstant at h
        split at h
        · cases h
        · dsimp only at h
          split at h
          · cases h
          · cases h
            exact ⟨_, rfl⟩
      · cases h
    · split at h
      · cases h
      · split at h <;> cases h

namespace Overload

theorem pointsInto_rewriteAll {ps : List Parameter} (hplaced : args.IsPlaced)
    (h : rewriteAll binds i ps args = .error err) : err.PointsInto span args.positions := by
  induction ps generalizing i args with
  | nil => cases h
  | cons p ps ih =>
    rw [rewriteAll, Args.mapAt] at h
    cases hget : args.get? i with
    | none =>
      simp only [hget] at h
      exact ih hplaced h
    | some e =>
      simp only [hget] at h
      rcases hresult : rewriteArgument binds p.tag e (args.position i) with error | e'
      · rw [hresult] at h
        cases h
        obtain ⟨text, rfl⟩ := error_of_rewriteArgument hresult
        exact ⟨_, rfl, .inr (hplaced.position_mem (Args.lt_size_of_get? hget))⟩
      · rw [hresult] at h
        have hpoints : err.PointsInto span (args.set i e').positions := ih (hplaced.set i e') h
        exact hpoints

/-- Variables take their types, but for one in a tail that has none for it. -/
theorem pointsInto_assignTypes (hplaced : args.IsPlaced) (hplaces : ∀ i ∈ places, i < args.size)
    (hlinks : args.LinksAt places) (h : o.assignTypes name places args c = (.error err, u)) :
    err.PointsInto span args.positions := by
  induction places generalizing args c with
  | nil => cases h
  | cons i places ih =>
    have hi := hplaces i List.mem_cons_self
    rw [assignTypes] at h
    obtain h | ⟨type, c₁, -, h⟩ := cases_of_bind_error h
    · rw [liftM_apply] at h
      obtain ⟨htype, -⟩ := Prod.mk.inj h
      unfold variableType at htype
      split at htype
      · cases htype
      · split at htype
        · cases htype
        · cases htype
          exact ⟨_, rfl, .inr (hplaced.position_mem hi)⟩
    · have hfirst : args.LinksAt [i] := fun j hj =>
        hlinks j (List.mem_singleton.mp hj ▸ List.mem_cons_self)
      obtain ⟨args', c', hassign, hpositions, hsize, hkept⟩ :=
        exists_assignArgument hfirst type c₁
      rw [bind_of_ok hassign] at h
      rw [← hpositions]
      refine ih (hplaced.of_same hsize hpositions) ?_
        (hkept places fun j hj => hlinks j (List.mem_cons_of_mem _ hj)) h
      intro j hj
      rw [hsize]
      exact hplaces j (List.mem_cons_of_mem _ hj)

theorem positions_assignTypes {args' : Args}
    (h : o.assignTypes name places args c = (.ok args', u)) :
    args'.positions = args.positions ∧ args'.size = args.size := by
  induction places generalizing args c with
  | nil =>
    cases h
    exact ⟨rfl, rfl⟩
  | cons i places ih =>
    obtain ⟨type, args₁, c₁, -, hassign, hrest⟩ := assignTypes_cons h
    rw [(ih hrest).1, (ih hrest).2]
    rw [assignArgument_apply] at hassign
    split at hassign
    · cases hassign
      exact ⟨rfl, rfl⟩
    · split at hassign
      · cases hassign
        exact ⟨rfl, Args.size_set ..⟩
      · cases hassign

/-- The arguments of a call that cannot be prepared for an overload. -/
theorem pointsInto_adjust (hplaced : args.IsPlaced) (hplaces : ∀ i ∈ places, i < args.size)
    (hlinks : args.LinksAt places) (h : o.adjust name places args c = (.error err, u)) :
    err.PointsInto span args.positions := by
  unfold adjust at h
  cases htail : firstVariableInTail? o.signature args with
  | some i =>
    rw [htail] at h
    cases h
    unfold firstVariableInTail? at htail
    split at htail
    · have hmem := List.mem_of_find?_eq_some htail
      exact ⟨_, rfl, .inr (hplaced.position_mem (List.mem_range.mp (List.mem_of_mem_drop hmem)))⟩
    · cases htail
  | none =>
    rw [htail] at h
    obtain h | ⟨typed, c₁, htypes, h⟩ := cases_of_bind_error h
    · exact pointsInto_assignTypes hplaced hplaces hlinks h
    · rw [bind_of_ok (get_apply c₁), liftM_apply] at h
      obtain ⟨hpositions, hsize⟩ := positions_assignTypes htypes
      rw [← hpositions]
      exact pointsInto_rewriteAll (hplaced.of_same hsize hpositions) (Prod.mk.inj h).1

/-- The errors of an overload's factory point into the call. -/
def Blames (settings : Settings) (o : Overload) : Prop :=
  ∀ span args c err, o.factory.build span args settings c = .error err →
    err.PointsInto span args.positions

theorem pointsInto_create (hblames : o.Blames settings)
    (h : o.create settings name span args c = (.error err, u)) :
    err.PointsInto span args.positions := by
  unfold create at h
  rw [bind_of_ok (get_apply c)] at h
  obtain h | ⟨built, c₁, -, h⟩ := cases_of_bind_error h
  · rw [liftM_apply] at h
    exact hblames span args c err (Prod.mk.inj h).1
  · cases built with
    | none =>
      cases h
      exact ⟨span, rfl, .inl rfl⟩
    | some e =>
      dsimp only at h
      split at h
      · cases h
        exact ⟨span, rfl, .inl rfl⟩
      · cases h

theorem positions_rewriteAll {ps : List Parameter} {args' : Args}
    (h : rewriteAll binds i ps args = .ok args') : args'.positions = args.positions := by
  induction ps generalizing i args with
  | nil =>
    cases h
    rfl
  | cons p ps ih =>
    rw [rewriteAll, Args.mapAt] at h
    cases hget : args.get? i with
    | none =>
      simp only [hget] at h
      exact ih h
    | some e =>
      simp only [hget] at h
      rcases hresult : rewriteArgument binds p.tag e (args.position i) with error | e'
      · rw [hresult] at h
        cases h
      · rw [hresult] at h
        have hpositions : args'.positions = (args.set i e').positions := ih h
        exact hpositions

theorem pointsInto_take (hblames : o.Blames settings) (hplaced : args.IsPlaced)
    (hplaces : ∀ i ∈ places, i < args.size) (hlinks : args.LinksAt places)
    (h : o.take settings name span places args c = (.error err, u)) :
    err.PointsInto span args.positions := by
  unfold take at h
  obtain h | ⟨adjusted, c₁, hadjust, h⟩ := cases_of_bind_error h
  · exact pointsInto_adjust hplaced hplaces hlinks h
  · obtain ⟨typed, htypes, hrewrite⟩ := adjust_ok hadjust
    rw [← (positions_assignTypes htypes).1, ← positions_rewriteAll hrewrite]
    exact pointsInto_create hblames h

end Overload

theorem Signature.lt_of_firstFault? {s : Signature} {es : List Evaluator} {fault : ArgumentFault}
    (h : s.firstFault? i es = some fault) : fault.index < i + es.length := by
  induction es generalizing i with
  | nil => cases h
  | cons e es ih =>
    rw [firstFault?] at h
    cases hfault : s.faultAt? i e with
    | some first =>
      rw [hfault] at h
      cases h
      unfold faultAt? at hfault
      dsimp only at hfault
      split at hfault
      · cases hfault
        simp
      · cases hfault
    | none =>
      rw [hfault] at h
      have hlt := ih h
      simp only [List.length_cons]
      omega

theorem Signature.argument?_diagnose {s : Signature} (h : (s.diagnose args).argument? = some i) :
    i < args.size := by
  unfold diagnose at h
  split at h
  · cases h
  · split at h
    · cases h
    · obtain ⟨fault, hfault, rfl⟩ := Option.map_eq_some_iff.mp h
      have hlt := lt_of_firstFault? hfault
      rwa [Nat.zero_add] at hlt

/-- A call that no overload accepts is blamed, or the first of its arguments that does not fit. -/
theorem pointsInto_noMatchingOverload (hplaced : args.IsPlaced) (cat : Catalog)
    (overloads : List Overload) :
    (noMatchingOverload cat overloads name span args).PointsInto span args.positions := by
  have hcause : ∀ cause : Mismatch, (∀ i, cause.argument? = some i → i < args.size) →
      (cause.argument?.map args.position).getD span = span ∨
        (cause.argument?.map args.position).getD span ∈ args.positions := by
    intro cause hlt
    cases hargument : cause.argument? with
    | none => exact .inl rfl
    | some i => exact .inr (hplaced.position_mem (hlt i hargument))
  refine ⟨_, rfl, hcause _ fun i hi => ?_⟩
  split at hi
  · exact Signature.argument?_diagnose hi
  · split at hi <;> cases hi

namespace Catalog

variable {cat : Catalog} {overloads : List Overload}

theorem pointsInto_resolveEmpty (hblames : ∀ o ∈ overloads, o.Blames settings)
    (h : cat.resolveEmpty settings overloads name span c = (.error err, u))
    (positions : List Span) : err.PointsInto span positions := by
  rw [resolveEmpty_apply] at h
  refine ResolveError.PointsInto.of_empty ?_ positions
  split at h
  · rename_i o ho
    exact Overload.pointsInto_create (hblames o (List.mem_of_find?_eq_some ho)) h
  · cases h
    have hnone : Args.empty.IsPlaced := rfl
    exact pointsInto_noMatchingOverload hnone cat overloads

/-- The scan keeps the places of the arguments, so that what refuses a scored call points into the
call as well. -/
theorem pointsInto_resolveRanked {isCast : Bool} (hblames : ∀ o ∈ overloads, o.Blames settings)
    (hplaced : args.IsPlaced) (hargs : ∀ e ∈ args.evaluators, e.TakesType)
    (h : cat.resolveRanked settings overloads name span isCast args c = (.error err, u)) :
    err.PointsInto span args.positions := by
  rw [resolveRanked_apply] at h
  have hevolve := evolve_scan c.table isCast c.inWindow 0 overloads .start args
  have hscanned := positions_scan c.table isCast c.inWindow 0 overloads .start args
  have hsize := Args.Each.size_eq hevolve
  dsimp only at h
  generalize scan c.table isCast c.inWindow 0 overloads .start args = scanned
    at h hevolve hscanned hsize
  have hplaced' : scanned.2.IsPlaced := hplaced.of_same hsize hscanned
  rw [← hscanned]
  split at h
  · cases h
    exact pointsInto_noMatchingOverload hplaced' cat overloads
  · rename_i o ho
    obtain ⟨place, -, hplace⟩ := Option.bind_eq_some_iff.mp ho
    refine Overload.pointsInto_take (hblames o (List.mem_of_getElem? hplace)) hplaced' ?_
      (linksAt_undefinedPlaces hargs hevolve) h
    intro i hi
    obtain ⟨e, he, -⟩ := mem_undefinedPlaces.mp hi
    rw [hsize]
    exact Args.lt_size_of_get? he

/-- The error of a call points into the call, where those of the factories do. -/
theorem pointsInto_resolve
    (hblames : ∀ overloads, cat.overloads? name = some overloads → ∀ o ∈ overloads,
      o.Blames settings)
    (hplaced : args.IsPlaced) (hargs : ∀ e ∈ args.evaluators, e.TakesType)
    (h : cat.resolve settings name span args c = (.error err, u)) :
    err.PointsInto span args.positions := by
  cases hfound : cat.overloads? name with
  | none =>
    rw [resolve, hfound] at h
    cases h
    exact ⟨span, rfl, .inl rfl⟩
  | some overloads =>
    rw [resolve_eq hfound] at h
    obtain ⟨isElided, prepared, ready, helides⟩ := exists_elision hargs name c
    rw [bind_of_ok helides] at h
    dsimp only at h
    cases isElided with
    | true =>
      -- A cast that is its own operand does not fail: the operand is there.
      have hsome := exists_operand_of_elided helides
      obtain ⟨_ | ⟨operand, rest⟩, positions⟩ := prepared
      · obtain ⟨operand, hoperand⟩ := hsome
        cases hoperand
      · cases h
    | false =>
      rw [if_neg Bool.false_ne_true] at h
      have hpositions := positions_elision helides
      have hplaced' : prepared.IsPlaced := hplaced.of_same (size_elision helides) hpositions
      split at h
      · exact pointsInto_resolveEmpty (hblames overloads hfound) h args.positions
      · rw [← hpositions]
        exact pointsInto_resolveRanked (hblames overloads hfound) hplaced'
          (takesType_elision hargs helides) h

end Catalog
end Errors
end SqlResolution
