import SqlResolution.Proofs.Builtin.Call
import SqlResolution.Proofs.Builtin.CastOperand
import SqlResolution.Proofs.Overload.Narrowing
import SqlResolution.Proofs.Steps.Relates

/-!
# Targets of casts

A cast looks at no more of its second argument than whether it is constant and which type it has. So
a value in the place of the target is taken for its type, and the call does what it would with the
name of that type there. A CHAR that is a value also fits a STRING, so it may be taken for that.
-/
namespace SqlResolution

open Evaluator Steps

namespace Evaluator

/-- A constant of type CHAR that is no type name. -/
def isCharValue (k : Evaluator) : Bool := k.type.tag == .char && !k.traits.typeConstant

/-- Whether a constant in the place of a cast's target stands for a type: for its own, and a CHAR
that is a value for STRING too. -/
def standsFor (k : Evaluator) (target : ColumnType) : Bool :=
  target.tag == k.type.tag || (k.isCharValue && target.tag == .string)

theorem standsFor_typeName (type target : ColumnType) :
    (typeName type).standsFor target = (target.tag == type.tag) := by
  simp [standsFor, isCharValue, traits, Evaluator.type]

/-- A constant stands for all that the name of its type stands for. -/
theorem standsFor_of_typeName {k : Evaluator} {target : ColumnType}
    (h : (typeName k.type).standsFor target = true) : k.standsFor target = true := by
  rw [standsFor_typeName] at h
  rw [standsFor, h, Bool.true_or]

end Evaluator

namespace Builtin

variable {settings : Settings} {name : String} {span : Span} {positions : List Span} {c : Context}
  {operand k k' e : Evaluator} {source target : ColumnType} {binds : BindTable} {inWindow : Bool}

/-- A call of an operand and a second argument. -/
def pairCall (operand k : Evaluator) (positions : List Span) : Args := ⟨[operand, k], positions⟩

/-- The parameter of a cast's target. -/
def targetParameter (type : ColumnType) : Parameter := ⟨type, true⟩

theorem flat_of_mem_castTypes : ∀ type ∈ castTypes, type.isArray = false ∧
    type.tag ≠ .arrayString ∧ type.tag ≠ .geoHash ∧ type.tag ≠ .array := by
  decide

theorem tag_targetParameter (h : target ∈ castTypes) :
    (targetParameter target).tag = target.tag := by
  rw [Parameter.tag, Parameter.isArray]
  simp [targetParameter, (flat_of_mem_castTypes target h).1]

/-- The parameter of a target takes the constants that stand for its type, and evaluates none. -/
theorem matchArgument_target (htarget : target ∈ castTypes) (hconstant : k.isConstant = true)
    (binds : BindTable) :
    (targetParameter target).matchArgument true true binds k =
      (if k.standsFor target then .exact else .none, k) := by
  obtain ⟨harray, hstrings, hgeohash, hother⟩ := flat_of_mem_castTypes target htarget
  have hparameter : (targetParameter target).isArray = false := harray
  have hstring : (target.tag == .arrayString) = false := by simpa using hstrings
  have hgeneric : (target.tag == .geoHash) = false := by simpa using hgeohash
  unfold Parameter.matchArgument Parameter.matchesExactly Parameter.takesCharAsString
  simp only [tag_targetParameter htarget, hparameter, hstring, hgeneric, hconstant, Bool.not_true,
    Bool.and_false, Bool.false_eq_true, if_false, Bool.false_bne, Bool.false_and, Bool.or_false,
    Bool.and_true]
  by_cases hflat : k.type.isArray = true ∨ k.type.tag = .arrayString
  · have hstands : k.standsFor target = false := by
      rw [ColumnType.isArray, beq_iff_eq] at hflat
      obtain htag | htag := hflat <;> simp [standsFor, isCharValue, htag, hother, hstrings]
    obtain hisArray | htag := hflat
    · simp [hstands, hisArray]
    · simp [hstands, htag]
  · rw [not_or, Bool.not_eq_true] at hflat
    obtain ⟨hplain, htag⟩ := hflat
    have hexact : (target.tag == k.type.tag ||
        k.type.tag == .char && target.tag == .string && !k.traits.typeConstant) =
          k.standsFor target := by
      rw [standsFor, isCharValue, Bool.and_right_comm]
    simp only [hplain, beq_eq_false_iff_ne.mpr htag, Bool.or_self, Bool.false_eq_true, if_false,
      hexact]
    cases k.standsFor target <;> rfl

/-- What an overload of `cast` scores whose target fits, by how it meets the operand. -/
def operandScore (inWindow : Bool) : ArgumentMatch → CandidateScore
  | .none => .noMatch
  | m => Overload.pairScore false inWindow m .exact

/-- Where an overload of `cast` stands in the running. -/
def castCandidate (inWindow : Bool) (place : Nat) (k : Evaluator) (target : ColumnType)
    (m : ArgumentMatch) : Candidate :=
  ⟨place, if k.standsFor target then operandScore inWindow m else .noMatch, false,
    false == inWindow⟩

theorem level_castCandidate (h : k.standsFor target = false) (place : Nat) (m : ArgumentMatch) :
    (castCandidate inWindow place k target m).level = .noMatch := by
  unfold castCandidate
  rw [h]
  rfl

/-- An overload of `cast` that a constant does not stand for scores nothing, and the others score
what they make of the operand. -/
theorem score_pairCall (htarget : target ∈ castTypes) (hconstant : k.isConstant = true)
    (source : ColumnType) (operand : Evaluator) (positions : List Span) (binds : BindTable)
    (inWindow : Bool) (place : Nat) :
    (cast source target).overload.score binds true inWindow (pairCall operand k positions) =
      let met := (operandParameter source).matchArgument true false binds operand
      ((castCandidate inWindow place k target met.1).score, pairCall met.2 k positions) := by
  have hparameters : (cast source target).overload.signature.parameters =
      [operandParameter source, targetParameter target] := rfl
  have hfits : (cast source target).overload.factory.charFitsString = true := rfl
  have hcount : ((cast source target).overload.signature.fixedCount == 0) = false := rfl
  have hwindow : (cast source target).overload.isWindow = false := rfl
  rcases hmet : (operandParameter source).matchArgument true false binds operand with ⟨m, e⟩
  simp only [Overload.score, hparameters, hfits, hcount, hwindow, Overload.matchAll, pairCall,
    castCandidate, Bool.true_and, Nat.zero_add, beq_self_eq_true, hmet, Nat.reduceBEq,
    matchArgument_target htarget hconstant, Bool.false_eq_true, if_false]
  cases m with
  | none => cases k.standsFor target <;> rfl
  | exact => cases k.standsFor target <;> rfl
  | coerced distance isNull =>
    cases k.standsFor target <;> simp [operandScore, Overload.pairScore, MatchLevel.merge,
      ArgumentMatch.cost]

/-- A scan comes to an overload of `cast`, with which it is over where that one is exact. -/
theorem scan_cons_pairCall (htarget : target ∈ castTypes) (hconstant : k.isConstant = true)
    {t : CandidateTracker} (ht : t.best ≠ .exact) (i : Nat) (os : List Overload) :
    scan binds true inWindow i ((cast source target).overload :: os) t
        (pairCall operand k positions) =
      let met := (operandParameter source).matchArgument true false binds operand
      let candidate := castCandidate inWindow i k target met.1
      if candidate.level = .exact then (t.consider candidate, pairCall met.2 k positions)
      else scan binds true inWindow (i + 1) os (t.consider candidate)
        (pairCall met.2 k positions) := by
  have harity : (cast source target).overload.signature.acceptsArity
      (pairCall operand k positions).size = true := rfl
  have hscore := score_pairCall htarget hconstant source operand positions binds inWindow i
  have hsuits : ((cast source target).overload.score binds true inWindow
      (pairCall operand k positions)).1.level = .exact → (false == inWindow) = true := by
    intro hexact
    rw [← (cast source target).overload.isWindow_of_exact binds true inWindow _ hexact]
    rfl
  rw [hscore] at hsuits
  dsimp only at hsuits
  rw [scan, if_pos harity, hscore]
  dsimp only
  have hover := CandidateTracker.offer_isOver ht (castCandidate inWindow i k target
    ((operandParameter source).matchArgument true false binds operand).1)
  generalize hc : castCandidate inWindow i k target
    ((operandParameter source).matchArgument true false binds operand).1 = candidate
      at hover hsuits ⊢
  have hfields : (cast source target).overload.signature.isVariadic = candidate.isVariadic ∧
      ((cast source target).overload.isWindow == inWindow) = candidate.suitsWindow ∧
        candidate.place = i := by
    subst hc
    exact ⟨rfl, rfl, rfl⟩
  obtain ⟨hvariadic, hwindow, rfl⟩ := hfields
  rw [hvariadic, hwindow, hover]
  by_cases hexact : candidate.level = .exact
  · have hsuit : candidate.suitsWindow = true := by
      rw [← hwindow]
      exact hsuits hexact
    rw [if_pos hexact, if_pos (by rw [hexact, hsuit]; rfl)]
    rfl
  · rw [if_neg hexact, if_neg (by simp [hexact])]
    rfl

/-- Overloads of `cast`. -/
def AreCasts (os : List Overload) : Prop :=
  ∀ o ∈ os, ∃ source target, cast source target ∈ all ∧ o = (cast source target).overload

/-- Scanned for a constant and for the name of its type, the overloads of `cast` come to the same
winner, unless one wins that the constant alone stands for. -/
theorem scan_pairCall (hconstant : k.isConstant = true) {os : List Overload} (hos : AreCasts os)
    {i : Nat} {Foreign : Nat → Prop} {t u : CandidateTracker}
    (hforeign : ∀ m source target, os[m]? = some (cast source target).overload →
      k.standsFor target = true → target.tag ≠ k.type.tag → Foreign (i + m))
    (ht : t.best ≠ .exact) (hu : u.best ≠ .exact) (h : t.LeadsBy Foreign u)
    (binds : BindTable) (inWindow : Bool) (operand : Evaluator) (positions : List Span) :
    let scanned := scan binds true inWindow i os t (pairCall operand k positions)
    let named := scan binds true inWindow i os u (pairCall operand (typeName k.type) positions)
    (∃ place, scanned.1.winner = some place ∧ Foreign place) ∨
      scanned.1.winner = named.1.winner ∧ ∃ e, scanned.2 = pairCall e k positions ∧
        named.2 = pairCall e (typeName k.type) positions := by
  induction os generalizing i t u operand with
  | nil =>
    obtain rfl | ⟨hwinner, -⟩ := h
    · exact .inr ⟨rfl, operand, rfl, rfl⟩
    · exact .inl hwinner
  | cons o os ih =>
    obtain ⟨source, target, hcast, rfl⟩ := hos o List.mem_cons_self
    have htarget : target ∈ castTypes := (cast_mem_all_iff.mp hcast).2.1
    have hrest : ∀ {t u : CandidateTracker} (e : Evaluator), t.best ≠ .exact → u.best ≠ .exact →
        t.LeadsBy Foreign u → _ := fun e ht hu h =>
      ih (fun o ho => hos o (List.mem_cons_of_mem _ ho))
        (fun m source target hm hstands htag =>
          Nat.add_right_comm i 1 m ▸ hforeign (m + 1) source target hm hstands htag) ht hu h e
    dsimp only
    rw [scan_cons_pairCall htarget hconstant ht, scan_cons_pairCall htarget rfl hu]
    rcases (operandParameter source).matchArgument true false binds operand with ⟨m, e⟩
    dsimp only
    by_cases hnative : target.tag = k.type.tag
    · -- Both stand for the target, and consider the same candidate.
      have hname : (typeName k.type).standsFor target = true := by
        rw [standsFor_typeName]
        exact beq_iff_eq.mpr hnative
      have hsame : castCandidate inWindow i (typeName k.type) target m =
          castCandidate inWindow i k target m := by
        unfold castCandidate
        rw [hname, standsFor_of_typeName hname]
      rw [hsame]
      by_cases hexact : (castCandidate inWindow i k target m).level = .exact
      · rw [if_pos hexact, if_pos hexact, CandidateTracker.consider_exact ht hexact,
          CandidateTracker.consider_exact hu hexact]
        exact .inr ⟨rfl, e, rfl, rfl⟩
      · rw [if_neg hexact, if_neg hexact]
        exact hrest e (CandidateTracker.best_consider_ne ht hexact)
          (CandidateTracker.best_consider_ne hu hexact) (h.consider rfl hexact)
    · have hpassed : (castCandidate inWindow i (typeName k.type) target m).level = .noMatch :=
        level_castCandidate (by rw [standsFor_typeName, beq_eq_false_iff_ne.mpr hnative]) i m
      simp only [hpassed, reduceCtorEq, if_false, u.consider_noMatch hpassed]
      by_cases hstands : k.standsFor target = true
      · by_cases hexact : (castCandidate inWindow i k target m).level = .exact
        · rw [if_pos hexact, CandidateTracker.consider_exact ht hexact]
          exact .inl ⟨i, rfl, hforeign 0 source target rfl hstands hnative⟩
        · rw [if_neg hexact]
          exact hrest e (CandidateTracker.best_consider_ne ht hexact) hu
            (h.consider_left rfl hexact (hforeign 0 source target rfl hstands hnative))
      · have hnone : (castCandidate inWindow i k target m).level = .noMatch :=
          level_castCandidate (by simpa using hstands) i m
        simp only [hnone, reduceCtorEq, if_false, t.consider_noMatch hnone]
        exact hrest e ht hu h

/-! ### What is done with the target after the scan -/

/-- Two calls that differ in their second arguments at most. -/
def SamePairs (k k' : Evaluator) (positions : List Span) (args args' : Args) : Prop :=
  ∃ e, args = pairCall e k positions ∧ args' = pairCall e k' positions

theorem relates_assignOperand (e : Evaluator) (type : ColumnType) :
    Relates (· = ·) (SamePairs k k' positions) (assignArgument (pairCall e k positions) 0 type)
      (assignArgument (pairCall e k' positions) 0 type) := by
  rintro c _ rfl
  rw [assignArgument_apply, assignArgument_apply]
  simp only [pairCall, Args.get?, List.getElem?_cons_zero]
  rcases e.assignType c.table type with error | ⟨typed, b⟩
  · exact ⟨.error error, rfl⟩
  · exact ⟨.ok ⟨typed, rfl, rfl⟩, rfl⟩

/-- Whether a cast is its operand is a matter of its second argument's type. -/
theorem relates_elideCast (htype : k'.type = k.type) (operand : Evaluator)
    (positions : List Span) :
    Relates (· = ·) (fun a b => a.1 = b.1 ∧ SamePairs k k' positions a.2 b.2)
      (elideCast (pairCall operand k positions)) (elideCast (pairCall operand k' positions)) := by
  have hself : SamePairs k k' positions (pairCall operand k positions)
      (pairCall operand k' positions) := ⟨operand, rfl, rfl⟩
  unfold elideCast
  simp only [pairCall, Args.get?, List.getElem?_cons_zero, List.getElem?_cons_succ, htype]
  refine .ite (fun _ => .pure ⟨rfl, hself⟩) fun _ => .ite (fun _ => ?_) fun _ => .pure ⟨rfl, hself⟩
  cases castVariableType? k.type with
  | none => exact .pure ⟨rfl, hself⟩
  | some type => exact (relates_assignOperand operand type).bind fun _ _ h => .pure ⟨rfl, h⟩

/-- A parameter of an argument's own type always makes something of it. -/
theorem exists_rewriteArgument_self (e : Evaluator) (binds : BindTable) (position : Span) :
    ∃ e', rewriteArgument binds e.type.tag e position = .ok e' := by
  have htext : e.type.tag.isString = true → e.type.tag.isTemporal = false := by
    generalize e.type.tag = tag
    cases tag <;> decide
  unfold rewriteArgument
  dsimp only
  split
  · split
    · exact ⟨_, rfl⟩
    · split <;> exact ⟨_, rfl⟩
  · split
    · rename_i hstring
      rw [htext (Bool.and_eq_true_iff.mp hstring).1]
      exact ⟨_, rfl⟩
    · split
      · exact ⟨_, rfl⟩
      · split <;> exact ⟨_, rfl⟩

theorem undefinedPlaces_pairCall (hdefined : k.isUndefined = false) (e : Evaluator)
    (positions : List Span) :
    undefinedPlaces (pairCall e k positions) = if e.isUndefined then [0] else [] := by
  simp only [undefinedPlaces, pairCall, Args.size, Args.get?, List.length_cons, List.length_nil,
    List.range_succ, List.range_zero, List.nil_append, List.cons_append, List.filter_cons,
    List.filter_nil, List.getElem?_cons_zero, List.getElem?_cons_succ, Option.any_some, hdefined]
  simp

theorem relates_assignOperands (places : List Nat) (hplaces : ∀ i ∈ places, i = 0)
    (e : Evaluator) :
    Relates (· = ·) (SamePairs k k' positions)
      ((cast source target).overload.assignTypes name places (pairCall e k positions))
      ((cast source target).overload.assignTypes name places (pairCall e k' positions)) := by
  induction places generalizing e with
  | nil => exact .pure ⟨e, rfl, rfl⟩
  | cons i places ih =>
    obtain rfl : i = 0 := hplaces i List.mem_cons_self
    rw [Overload.assignTypes, Overload.assignTypes]
    refine .bind (R := (· = ·)) (.liftM (.ok rfl)) fun type _ htype => ?_
    obtain rfl := htype
    refine (relates_assignOperand e type).bind fun args args' hargs => ?_
    obtain ⟨typed, rfl, rfl⟩ := hargs
    exact ih (fun i hi => hplaces i (List.mem_cons_of_mem _ hi)) typed

/-- What is built of the operand does not depend on the constant in the target's place. -/
theorem outcome_rewriteOperand (htarget : target ∈ castTypes) (hk : k.type.tag = target.tag)
    (hk' : k'.type.tag = target.tag) (binds : BindTable) (e : Evaluator) :
    Steps.Outcome (fun args args' => ∃ l l', SamePairs l l' positions args args')
      (Overload.rewriteAll binds 0 (cast source target).descriptor.parameters
        (pairCall e k positions))
      (Overload.rewriteAll binds 0 (cast source target).descriptor.parameters
        (pairCall e k' positions)) := by
  have htag := tag_targetParameter htarget
  obtain ⟨l, hl⟩ := exists_rewriteArgument_self k binds (positions.getD 1 .none)
  obtain ⟨l', hl'⟩ := exists_rewriteArgument_self k' binds (positions.getD 1 .none)
  rw [hk, ← htag, targetParameter] at hl
  rw [hk', ← htag, targetParameter] at hl'
  simp only [descriptor, Overload.rewriteAll, Args.mapAt, pairCall, Args.get?, Args.position,
    List.getElem?_cons_zero]
  cases rewriteArgument binds (⟨source, false⟩ : Parameter).tag e (positions.getD 0 .none) with
  | error error => exact .error error
  | ok e =>
    simp only [Args.set, List.set_cons_zero, List.getElem?_cons_succ, List.getElem?_cons_zero,
      List.set_cons_succ, hl, hl']
    exact .ok ⟨l, l', e, rfl, rfl⟩

/-- An overload of `cast` does not look at what stands in the target's place. -/
theorem relates_take (htarget : target ∈ castTypes) (hk : k.type.tag = target.tag)
    (hk' : k'.type.tag = target.tag) (source : ColumnType) (settings : Settings) (name : String)
    (span : Span) {places : List Nat} (hplaces : ∀ i ∈ places, i = 0) (e : Evaluator)
    (positions : List Span) :
    Relates (· = ·) (· = ·)
      ((cast source target).overload.take settings name span places (pairCall e k positions))
      ((cast source target).overload.take settings name span places
        (pairCall e k' positions)) := by
  have hno : ∀ args, firstVariableInTail? (cast source target).overload.signature args = none :=
    fun _ => rfl
  unfold Overload.take Overload.adjust
  simp only [hno]
  refine .bind (R := fun args args' => ∃ l l', SamePairs l l' positions args args') ?_ ?_
  · refine (relates_assignOperands places hplaces e).bind fun args args' hargs => ?_
    obtain ⟨typed, rfl, rfl⟩ := hargs
    refine .bind_get fun c c' hsame => ?_
    obtain rfl := hsame
    exact .liftM (outcome_rewriteOperand htarget hk hk' c.table typed)
  · rintro _ _ ⟨l, l', operand, rfl, rfl⟩ c _ rfl
    exact ⟨.refl fun _ _ => rfl, rfl⟩

/-! ### Calls -/

/-- The parameter of a target takes a type name of its own type alone. -/
theorem tag_of_admits_typeName {type : ColumnType} (htarget : target ∈ castTypes)
    (h : (targetParameter target).admits true true (typeName type) = true) :
    target.tag = type.tag := by
  have hexact := Parameter.matchArgument_castType h (fun _ => by simp [Plain]) .empty
  have hmet := matchArgument_target (k := typeName type) htarget rfl .empty
  rw [targetParameter, hexact, standsFor_typeName] at hmet
  by_contra hne
  rw [beq_eq_false_iff_ne.mpr hne] at hmet
  cases hmet

/-- A cast is told by its overload. -/
theorem cast_of_overload {source' target' : ColumnType}
    (h : (cast source' target').overload = (cast source target).overload) :
    cast source' target' = cast source target := by
  have hparameters := congrArg (fun o => o.signature.parameters) h
  simp only [overload, descriptor, List.cons.injEq, Parameter.mk.injEq, and_true] at hparameters
  rw [hparameters.1, hparameters.2]

/-- The overloads of the name are overloads of `cast`. -/
theorem exists_areCasts (hname : Text.lowerAscii name = "cast") :
    ∃ overloads, catalog.overloads? name = some overloads ∧ AreCasts overloads := by
  have hcast : cast .int .int ∈ all := by decide +kernel
  have hnamed : cast .int .int ∈ all.filter (·.descriptor.name == Text.lowerAscii name) :=
    List.mem_filter.mpr ⟨hcast, beq_iff_eq.mpr hname.symm⟩
  have hfound := overloads?_of_filter (List.ne_nil_of_mem hnamed) rfl
  refine ⟨_, hfound, fun o ho => ?_⟩
  obtain ⟨b, hb, rfl, hlower⟩ := exists_of_mem_overloads hfound ho
  have hisCast := isCast_of_name b hb (hlower.trans hname)
  cases b with
  | cast source target => exact ⟨source, target, hb, rfl⟩
  | _ => cases hisCast

theorem isCastCall_pairCall (hname : Text.lowerAscii name = "cast") (operand k : Evaluator)
    (positions : List Span) :
    isCastCall name (pairCall operand k positions) = k.isConstant := by
  have heq : Text.eqIgnoringCase name "cast" = true :=
    (Text.eqIgnoringCase_iff name "cast").mpr (hname.trans lowerAscii_cast.symm)
  unfold isCastCall
  rw [heq]
  rfl

/-- A cast to what is no constant is rejected. -/
theorem resolve_pairCall_of_variable (hname : Text.lowerAscii name = "cast")
    (hvariable : k.isConstant = false) {after : Context} :
    catalog.resolve settings name span (pairCall operand k positions) c ≠ (.ok e, after) := by
  intro hresolve
  have hcall : isCastCall name (pairCall operand k positions) = false := by
    rw [isCastCall_pairCall hname, hvariable]
  obtain ⟨overloads, o, -, hfound, hwins, -, -⟩ :=
    Catalog.exists_ranked_of_resolve hcall rfl hresolve
  obtain ⟨overloads', hfound', hcasts⟩ := exists_areCasts hname
  rw [hfound] at hfound'
  cases hfound'
  obtain ⟨place, -, hplace⟩ := Option.bind_eq_some_iff.mp hwins
  obtain ⟨source, target, -, rfl⟩ := hcasts o (List.mem_of_getElem? hplace)
  obtain ⟨l, hl, hadmits⟩ := Overload.admits_of_winner hwins 1 (targetParameter target) rfl
  cases hl
  rw [Parameter.constant_of_admits hadmits rfl] at hvariable
  cases hvariable

/-- The places of the overloads that a CHAR value is taken for and the name CHAR is not. -/
def IsForeign (k : Evaluator) (overloads : List Overload) (place : Nat) : Prop :=
  k.isCharValue = true ∧ ∃ source, overloads[place]? = some (cast source .string).overload

/-- A constant stands for no other type than its own but where it is a CHAR value, for STRING. -/
theorem isForeign_of_standsFor {overloads : List Overload} (hcasts : AreCasts overloads)
    {place : Nat} (hplace : overloads[place]? = some (cast source target).overload)
    (hstands : k.standsFor target = true) (hne : target.tag ≠ k.type.tag) :
    IsForeign k overloads place := by
  obtain ⟨source', target', hcast, hsame⟩ := hcasts _ (List.mem_of_getElem? hplace)
  rw [← cast_of_overload hsame] at hcast
  simp only [standsFor, beq_eq_false_iff_ne.mpr hne, Bool.false_or, Bool.and_eq_true,
    beq_iff_eq] at hstands
  have hall : ∀ type ∈ castTypes, type.tag = .string → type = .string := by decide
  obtain rfl := hall target (cast_mem_all_iff.mp hcast).2.1 hstands.2
  exact ⟨hstands.1, source, hplace⟩

/-- An overload takes a constant of its target's type as it takes the name of the type. -/
theorem take_pairCall (htarget : target ∈ castTypes) (htag : target.tag = k.type.tag)
    (source : ColumnType) (settings : Settings) (name : String) (span : Span)
    (operand e : Evaluator) (positions : List Span) (c : Context) :
    (cast source target).overload.take settings name span
        (undefinedPlaces (pairCall operand k positions)) (pairCall e k positions) c =
      (cast source target).overload.take settings name span
        (undefinedPlaces (pairCall operand (typeName k.type) positions))
        (pairCall e (typeName k.type) positions) c := by
  have hdefined : k.isUndefined = false := by
    rw [Evaluator.isUndefined, ColumnType.isUndefined, ← htag]
    exact isUndefined_of_mem_castTypes target htarget
  have hnamed : (typeName k.type).isUndefined = false := hdefined
  have htag' : (typeName k.type).type.tag = target.tag := htag.symm
  have hfirst : ∀ i ∈ if operand.isUndefined then [0] else [], i = 0 := by
    split <;> simp
  rw [undefinedPlaces_pairCall hdefined, undefinedPlaces_pairCall hnamed]
  obtain ⟨houtcome, hstate⟩ := relates_take htarget htag.symm htag' source settings name span hfirst
    e positions c c rfl
  exact Prod.ext houtcome.eq hstate

/-- Ranked with a constant and with the name of its type, a cast comes to the same result, unless an
overload wins that the constant alone stands for. -/
theorem resolveRanked_pairCall {overloads : List Overload} (hcasts : AreCasts overloads)
    (hconstant : k.isConstant = true) (settings : Settings) (name : String) (span : Span)
    (operand : Evaluator) (positions : List Span) (c : Context) :
    catalog.resolveRanked settings overloads name span true (pairCall operand k positions) c =
        catalog.resolveRanked settings overloads name span true
          (pairCall operand (typeName k.type) positions) c ∨
      k.isCharValue = true ∧ ∃ source,
        (scan c.table true c.inWindow 0 overloads .start
          (pairCall operand k positions)).1.winner.bind (overloads[·]?) =
            some (cast source .string).overload := by
  have hforeign : ∀ m source target, overloads[m]? = some (cast source target).overload →
      k.standsFor target = true → target.tag ≠ k.type.tag → IsForeign k overloads (0 + m) := by
    intro m source target hm hstands hne
    rw [Nat.zero_add]
    exact isForeign_of_standsFor hcasts hm hstands hne
  have hstart : CandidateTracker.start.best ≠ .exact := by decide
  have hscan := scan_pairCall hconstant hcasts hforeign hstart hstart (.inl rfl) c.table c.inWindow
    operand positions
  rw [Catalog.resolveRanked_apply, Catalog.resolveRanked_apply]
  dsimp only at hscan ⊢
  rcases hscanned : scan c.table true c.inWindow 0 overloads .start
    (pairCall operand k positions) with ⟨t, scored⟩
  rcases hnamed : scan c.table true c.inWindow 0 overloads .start
    (pairCall operand (typeName k.type) positions) with ⟨u, scored'⟩
  rw [hscanned, hnamed] at hscan
  obtain ⟨place, hplace, hchar, source, hsource⟩ | ⟨hwinner, e, rfl, rfl⟩ := hscan
  · exact .inr ⟨hchar, source, by rw [hplace, Option.bind_some, hsource]⟩
  · left
    dsimp only at hwinner ⊢
    rw [hwinner]
    cases hwins : u.winner.bind (overloads[·]?) with
    | none =>
      have hpositions : (pairCall e k positions).positions =
          (pairCall e (typeName k.type) positions).positions := rfl
      rw [noMatchingOverload_congr hpositions
        (by simpa [pairCall, isConstant, traits, Evaluator.type] using hconstant) catalog overloads
        name span]
    | some o =>
      obtain ⟨place, -, hplace⟩ := Option.bind_eq_some_iff.mp hwins
      obtain ⟨source, target, hcast, rfl⟩ := hcasts o (List.mem_of_getElem? hplace)
      have htarget : target ∈ castTypes := (cast_mem_all_iff.mp hcast).2.1
      have hadmits := Overload.admits_of_winner (by rw [hnamed]; exact hwins)
      obtain ⟨l, hl, hadmit⟩ := hadmits 1 (targetParameter target) rfl
      cases hl
      exact take_pairCall htarget (tag_of_admits_typeName htarget hadmit) ..

/-- A constant in the place of a cast's target is taken for the name of its type, or else it is a
CHAR that is taken for STRING. -/
theorem resolve_pairCall (hname : Text.lowerAscii name = "cast") (hconstant : k.isConstant = true)
    (settings : Settings) (span : Span) (operand : Evaluator) (positions : List Span)
    (c : Context) :
    catalog.resolve settings name span (pairCall operand k positions) c =
        catalog.resolve settings name span (pairCall operand (typeName k.type) positions) c ∨
      k.isCharValue = true ∧ ∀ e after,
        catalog.resolve settings name span (pairCall operand k positions) c = (.ok e, after) →
          ∃ prepared ready source adjusted,
            elision name (pairCall operand k positions) c = (.ok (false, prepared), ready) ∧
              Call settings name span prepared ready (cast source .string) adjusted e after := by
  obtain ⟨overloads, hfound, hcasts⟩ := exists_areCasts hname
  have hcall : isCastCall name (pairCall operand k positions) = true := by
    rw [isCastCall_pairCall hname, hconstant]
  have hcall' : isCastCall name (pairCall operand (typeName k.type) positions) = true :=
    isCastCall_pairCall hname operand (typeName k.type) positions
  have helision : elision name (pairCall operand k positions) c =
      elideCast (pairCall operand k positions) c := by
    rw [elision, if_pos hcall]
  have helision' : elision name (pairCall operand (typeName k.type) positions) c =
      elideCast (pairCall operand (typeName k.type) positions) c := by
    rw [elision, if_pos hcall']
  have htype : (typeName k.type).type = k.type := rfl
  obtain ⟨houtcome, hstate⟩ := relates_elideCast htype operand positions c c rfl
  rw [← helision, ← helision'] at houtcome hstate
  rcases helides : elision name (pairCall operand k positions) c with ⟨result, ready⟩
  rcases helides' : elision name (pairCall operand (typeName k.type) positions) c with
    ⟨result', ready'⟩
  rw [helides, helides'] at houtcome hstate
  obtain rfl : ready = ready' := hstate
  cases houtcome with
  | error error =>
    left
    rw [Catalog.resolve_eq hfound, bind_of_error helides, Catalog.resolve_eq hfound,
      bind_of_error helides']
  | @ok a b related =>
    obtain ⟨isElided, prepared⟩ := a
    obtain ⟨isElided', prepared'⟩ := b
    obtain ⟨hsame, typed, hprepared, hprepared'⟩ := related
    dsimp only at hsame hprepared hprepared'
    subst hsame hprepared hprepared'
    cases isElided with
    | true =>
      left
      rw [Catalog.resolve_eq hfound, bind_of_ok helides, Catalog.resolve_eq hfound,
        bind_of_ok helides']
      simp only [pairCall, if_true]
    | false =>
      rw [Catalog.resolve_of_elision hfound rfl helides, hcall,
        Catalog.resolve_of_elision hfound rfl helides', hcall']
      have hranked := resolveRanked_pairCall hcasts hconstant settings name span typed positions
        ready
      refine hranked.imp_right fun hforeign => ?_
      obtain ⟨hchar, source, hwins⟩ := hforeign
      refine ⟨hchar, fun e after hresolve => ?_⟩
      rw [← hcall, ← Catalog.resolve_of_elision hfound rfl helides] at hresolve
      obtain ⟨b, adjusted, hgoes⟩ := exists_call_of_resolve rfl helides hresolve
      have hb : b = cast source .string := by
        have hisCast := isCast_of_name b hgoes.mem (hgoes.name_eq.trans hname)
        obtain ⟨-, hfound', hscanned, hwins', -, -⟩ := hgoes
        rw [hfound] at hfound'
        cases hfound'
        rw [isCastCall_pairCall hname, hconstant] at hscanned
        rw [hscanned, hwins'] at hwins
        cases b with
        | cast source' target' => exact cast_of_overload (Option.some.inj hwins)
        | _ => cases hisCast
      subst hb
      exact ⟨_, ready, source, adjusted, rfl, hgoes⟩

/-- What `cast` does with its second argument. It rejects what is no constant. A constant it takes
for the name of its type, with the same result, also where that is an error; only a CHAR that is a
value may be taken for STRING instead. -/
theorem target_of_resolve (hname : Text.lowerAscii name = "cast") (settings : Settings)
    (span : Span) (operand k : Evaluator) (positions : List Span) (c : Context) :
    let call := catalog.resolve settings name span (pairCall operand k positions) c
    (k.isConstant = false → ∀ e after, call ≠ (.ok e, after)) ∧
      (k.isConstant = true →
        call = catalog.resolve settings name span (pairCall operand (typeName k.type) positions) c ∨
          k.isCharValue = true ∧ ∀ e after, call = (.ok e, after) →
            ∃ prepared ready source adjusted,
              elision name (pairCall operand k positions) c = (.ok (false, prepared), ready) ∧
                Call settings name span prepared ready (cast source .string) adjusted e after) :=
  ⟨fun hvariable _ _ => resolve_pairCall_of_variable hname hvariable,
    fun hconstant => resolve_pairCall hname hconstant settings span operand positions c⟩

/-- A LONG column and the number 1. -/
def longAndOne : Args := pairCall (.column 0 .long "l") (.constant .int (.int 1)) [⟨5, 1⟩, ⟨8, 1⟩]

/-- The number 1 is taken for INT. -/
theorem target_of_resolve_one :
    catalog.resolve .default "CAST" ⟨0, 10⟩ longAndOne (.fresh 0) =
      catalog.resolve .default "CAST" ⟨0, 10⟩
        (pairCall (.column 0 .long "l") (typeName .int) [⟨5, 1⟩, ⟨8, 1⟩]) (.fresh 0) := by
  have hchar : (Evaluator.constant .int (.int 1)).isCharValue = false := rfl
  obtain ⟨-, hconstant⟩ := target_of_resolve (show Text.lowerAscii "CAST" = "cast" by decide)
    .default ⟨0, 10⟩
    (.column 0 .long "l") (.constant .int (.int 1)) [⟨5, 1⟩, ⟨8, 1⟩] (.fresh 0)
  refine (hconstant rfl).resolve_right fun htaken => ?_
  rw [hchar] at htaken
  cases htaken.1

/-- A column is cast to the number 1, which is no type name. -/
theorem not_typeConstant_of_resolve_one :
    (∃ e after, catalog.resolve .default "cast" ⟨0, 10⟩ longAndOne (.fresh 0) = (.ok e, after)) ∧
      ∃ k, longAndOne.get? 1 = some k ∧ k.traits.typeConstant = false := by
  have hcast : cast .long .int ∈ all := by decide +kernel
  have hplain : (Evaluator.column 0 .long "l").FixesConstants :=
    .of_variable rfl
  have hkeeps : ∀ target position, rewriteArgument (Context.fresh 0).table target
      (.column 0 .long "l") position = .ok (.column 0 .long "l") :=
    fun target position => rewriteArgument_of_not_isRewritten rfl _ target position
  have hnamed := resolve_castCall (c := .fresh 0) .default hcast rfl (by decide) hkeeps hplain rfl
    ⟨0, 10⟩ [⟨5, 1⟩, ⟨8, 1⟩]
  have htaken := (resolve_pairCall lowerAscii_cast (k := .constant .int (.int 1)) rfl .default
    ⟨0, 10⟩ (.column 0 .long "l") [⟨5, 1⟩, ⟨8, 1⟩] (.fresh 0)).resolve_right fun h => by cases h.1
  exact ⟨⟨_, _, htaken.trans hnamed⟩, _, rfl, rfl⟩

end Builtin
end SqlResolution
