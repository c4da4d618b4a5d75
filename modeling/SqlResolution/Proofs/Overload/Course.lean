import SqlResolution.Proofs.Overload.Typing

/-!
# How a call comes to its evaluator

A call that succeeds is a cast that is its own operand, a call without arguments, or a call that
was ranked. Each of these is taken apart into the steps that it ran.
-/
namespace SqlResolution.Catalog

open Steps

/-- The steps of a call that succeeds. -/
inductive Course (cat : Catalog) (settings : Settings) (name : String) (span : Span) (args : Args)
    (c : Context) (e : Evaluator) (after : Context) : Prop
  /-- A cast to the type that its operand has, or was just given, is the operand. -/
  | elided {overloads : List Overload} {prepared : Args}
      (found : cat.overloads? name = some overloads)
      (elides : elision name args c = (.ok (true, prepared), after))
      (operand : prepared.get? 0 = some e)
  /-- A call without arguments goes to the first overload that answers one. -/
  | empty {overloads : List Overload} {prepared : Args} {o : Overload}
      (found : cat.overloads? name = some overloads)
      (elides : elision name args c = (.ok (false, prepared), after))
      (isEmpty : prepared.isEmpty = true)
      (answers : overloads.find?
        (Overload.answersEmptyCall (overloads.length == 1) after.inWindow) = some o)
      (creates : o.create settings name span .empty after = (.ok e, after))
  /-- Any other call goes to the overload that wins the scan, and its arguments are prepared for
  it. -/
  | ranked {overloads : List Overload} {prepared scored adjusted : Args} {ready : Context}
      {t : CandidateTracker} {o : Overload}
      (found : cat.overloads? name = some overloads)
      (elides : elision name args c = (.ok (false, prepared), ready))
      (isEmpty : prepared.isEmpty = false)
      (scanned : scan ready.table (isCastCall name args) ready.inWindow 0 overloads .start prepared =
        (t, scored))
      (wins : t.winner.bind (overloads[·]?) = some o)
      (adjusts : o.adjust name (undefinedPlaces prepared) scored ready = (.ok adjusted, after))
      (creates : o.create settings name span adjusted after = (.ok e, after))

variable {cat : Catalog} {settings : Settings} {name : String} {span : Span}
  {args prepared : Args} {overloads : List Overload} {c after : Context} {e : Evaluator}

theorem resolveEmpty_apply (c : Context) :
    cat.resolveEmpty settings overloads name span c =
      match overloads.find?
          (Overload.answersEmptyCall (overloads.length == 1) c.inWindow) with
      | some o => o.create settings name span .empty c
      | none => (.error (noMatchingOverload cat overloads name span .empty), c) := by
  unfold resolveEmpty
  rw [bind_of_ok (get_apply c)]
  cases overloads.find? (Overload.answersEmptyCall (overloads.length == 1) c.inWindow) <;> rfl

/-- A call that succeeds has run the steps of one of its courses. -/
theorem course_of_resolve (h : cat.resolve settings name span args c = (.ok e, after)) :
    cat.Course settings name span args c e after := by
  cases found : cat.overloads? name with
  | none =>
    rw [resolve, found] at h
    cases h
  | some overloads =>
    rw [resolve_eq found] at h
    obtain ⟨⟨isElided, prepared⟩, ready, elides, h⟩ := exists_of_bind_ok h
    dsimp only at h
    cases isElided with
    | true =>
      obtain ⟨_ | ⟨operand, rest⟩, places⟩ := prepared
      · cases h
      · cases h
        exact .elided found elides rfl
    | false =>
      rw [if_neg Bool.false_ne_true] at h
      cases isEmpty : prepared.isEmpty with
      | true =>
        rw [isEmpty, if_pos rfl, resolveEmpty_apply] at h
        split at h
        · rename_i o answers
          obtain ⟨rfl, -⟩ := Overload.create_ok h
          exact .empty found elides isEmpty answers h
        · cases h
      | false =>
        rw [isEmpty, if_neg Bool.false_ne_true, resolveRanked_apply] at h
        dsimp only at h
        split at h
        · cases h
        · rename_i o wins
          obtain ⟨adjusted, _, adjusts, creates⟩ := exists_of_bind_ok h
          obtain ⟨rfl, -⟩ := Overload.create_ok creates
          exact .ranked found elides isEmpty rfl wins adjusts creates

/-- A call with arguments that is no cast to a constant target is ranked as it is. -/
theorem exists_ranked_of_resolve (hcast : isCastCall name args = false)
    (hargs : args.isEmpty = false)
    (h : cat.resolve settings name span args c = (.ok e, after)) :
    ∃ overloads o adjusted, cat.overloads? name = some overloads ∧
      let scanned := scan c.table false c.inWindow 0 overloads .start args
      scanned.1.winner.bind (overloads[·]?) = some o ∧
        o.adjust name (undefinedPlaces args) scanned.2 c = (.ok adjusted, after) ∧
        o.create settings name span adjusted after = (.ok e, after) := by
  have helision : elision name args c = (.ok (false, args), c) := by
    rw [elision, hcast, if_neg Bool.false_ne_true]
    rfl
  cases course_of_resolve h with
  | elided _ elides _ =>
    rw [helision] at elides
    cases elides
  | empty _ elides isEmpty _ _ =>
    rw [isEmpty_elision elides, hargs] at isEmpty
    cases isEmpty
  | @ranked overloads _ _ adjusted _ _ o found elides _ scanned wins adjusts creates =>
    rw [helision] at elides
    cases elides
    rw [hcast] at scanned
    refine ⟨overloads, o, adjusted, found, ?_⟩
    rw [scanned]
    exact ⟨wins, adjusts, creates⟩

end SqlResolution.Catalog
