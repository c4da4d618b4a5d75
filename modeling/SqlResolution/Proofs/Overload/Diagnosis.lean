import Mathlib.Data.Nat.Find
import SqlResolution.Proofs.Overload.Exactness

/-!
# What a rejected call is blamed for

The only overload of a name rejects a call where it takes another number of arguments, or where one
of its parameters refuses its argument. The error looks at declared types instead. It blames the
first argument that departs from its slot, which every refused argument does, but a coerced one
does too. So it blames the first that is refused where those before it have the types of their
slots. It blames the number of arguments wherever that is not the declared one, in which a tail
counts as one argument.
-/
namespace SqlResolution

namespace Args

/-- The place of the first argument with a property, which may look at the place too. -/
structure IsFirst (P : Nat → Evaluator → Prop) (args : Args) (k : Nat) : Prop where
  holds : ∃ e, args.get? k = some e ∧ P k e
  before : ∀ i < k, ∀ e, args.get? i = some e → ¬P i e

variable {P Q : Nat → Evaluator → Prop} {args : Args} {j k : Nat}

theorem exists_isFirst (h : ∃ k e, args.get? k = some e ∧ P k e) : ∃ k, args.IsFirst P k := by
  classical
  exact ⟨Nat.find h, Nat.find_spec h, fun i hi e he hP => Nat.find_min h hi ⟨e, he, hP⟩⟩

theorem IsFirst.le (h : args.IsFirst P j) {e : Evaluator} (he : args.get? k = some e)
    (hP : P k e) : j ≤ k :=
  Nat.le_of_not_lt fun hlt => h.before k hlt e he hP

theorem IsFirst.unique (h : args.IsFirst P j) (h' : args.IsFirst P k) : j = k := by
  obtain ⟨e, he, hP⟩ := h.holds
  obtain ⟨d, hd, hP'⟩ := h'.holds
  exact Nat.le_antisymm (h.le hd hP') (h'.le he hP)

/-- Of a property and a wider one, the first argument is the same where none before it has the
wider one. -/
theorem IsFirst.eq_iff (h : args.IsFirst P k) (hwider : args.IsFirst Q j)
    (himp : ∀ i e, P i e → Q i e) :
    j ≤ k ∧ (j = k ↔ ∀ i < k, ∀ e, args.get? i = some e → ¬Q i e) := by
  obtain ⟨e, he, hP⟩ := h.holds
  refine ⟨hwider.le he (himp k e hP), ?_, ?_⟩
  · rintro rfl
    exact hwider.before
  · intro hbefore
    exact hwider.unique ⟨⟨e, he, himp k e hP⟩, hbefore⟩

end Args

/-- An error blames the number of arguments: it points at none of them, and expects another
number. -/
def Mismatch.BlamesCount (m : Mismatch) (actual : Nat) : Prop :=
  m.argument? = none ∧ ∃ expected, m.expectedCount? = some expected ∧ expected ≠ actual

namespace Signature

variable {s : Signature} {args : Args} {i k : Nat} {e : Evaluator} {es : List Evaluator}

/-- An argument departs from its slot in type, or it is no constant where the slot asks for one. -/
def Departs (s : Signature) (i : Nat) (e : Evaluator) : Prop :=
  (s.slot i).type ≠ e.type ∨ (s.slot i).constant = true ∧ e.isConstant = false

theorem faultAt?_of_departs (h : s.Departs i e) : s.faultAt? i e = some ⟨i, s.slot i, e.type⟩ := by
  have hfault : ((s.slot i).type != e.type || ((s.slot i).constant && !e.isConstant)) = true := by
    simpa [Departs] using h
  exact if_pos hfault

theorem faultAt?_of_not_departs (h : ¬s.Departs i e) : s.faultAt? i e = none := by
  have hfault : ¬((s.slot i).type != e.type || ((s.slot i).constant && !e.isConstant)) = true := by
    simpa [Departs] using h
  exact if_neg hfault

/-- The fault of a call is that of the first argument that departs from its slot. -/
theorem firstFault?_eq (he : es[k]? = some e) (hdeparts : s.Departs (i + k) e)
    (hbefore : ∀ j < k, ∀ d, es[j]? = some d → ¬s.Departs (i + j) d) :
    s.firstFault? i es = some ⟨i + k, s.slot (i + k), e.type⟩ := by
  induction es generalizing i k with
  | nil => cases he
  | cons first rest ih =>
    cases k with
    | zero =>
      cases he
      rw [Nat.add_zero] at hdeparts ⊢
      rw [firstFault?, faultAt?_of_departs hdeparts]
      rfl
    | succ k =>
      have hfirst : s.faultAt? i first = none :=
        faultAt?_of_not_departs (hbefore 0 (Nat.succ_pos k) first rfl)
      have hindex : ∀ j, i + (j + 1) = i + 1 + j := fun j => by omega
      rw [firstFault?, hfirst, hindex k]
      refine ih he (hindex k ▸ hdeparts) fun j hj d hd => ?_
      rw [← hindex j]
      exact hbefore (j + 1) (Nat.succ_lt_succ hj) d hd

theorem firstFault?_of_isFirst (h : args.IsFirst s.Departs k) (he : args.get? k = some e) :
    s.firstFault? 0 args.evaluators = some ⟨k, s.slot k, e.type⟩ := by
  obtain ⟨d, hd, hdeparts⟩ := h.holds
  rw [he] at hd
  cases hd
  have hfault := @firstFault?_eq s 0 k e args.evaluators he (by rwa [Nat.zero_add])
    fun j hj d hd => by
      rw [Nat.zero_add]
      exact h.before j hj d hd
  rwa [Nat.zero_add] at hfault

theorem diagnose_of_size_ne (hargs : args.isEmpty = false) (h : args.size ≠ s.declaredCount) :
    s.diagnose args = .wrongCount s.declaredCount := by
  rw [diagnose, hargs, if_neg Bool.false_ne_true, if_pos (bne_iff_ne.mpr h)]

theorem diagnose_of_size_eq (hargs : args.isEmpty = false) (h : args.size = s.declaredCount) :
    s.diagnose args = .wrongArgument s.declaredCount (s.firstFault? 0 args.evaluators) := by
  rw [diagnose, hargs, if_neg Bool.false_ne_true, if_neg (by rw [h, bne_self_eq_false]; simp)]

theorem fixedCount_le_of_acceptsArity {count : Nat} (h : s.acceptsArity count = true) :
    s.fixedCount ≤ count := by
  unfold acceptsArity at h
  split at h
  · exact of_decide_eq_true h
  · exact Nat.le_of_eq (eq_of_beq h).symm

theorem blamesCount_diagnose_iff (hargs : args.isEmpty = false) :
    (s.diagnose args).BlamesCount args.size ↔ args.size ≠ s.declaredCount := by
  by_cases hcount : args.size = s.declaredCount
  · rw [diagnose_of_size_eq hargs hcount]
    simp [Mismatch.BlamesCount, Mismatch.expectedCount?, hcount]
  · rw [diagnose_of_size_ne hargs hcount]
    simp [Mismatch.BlamesCount, Mismatch.expectedCount?, Mismatch.argument?, hcount, Ne.symm hcount]

theorem ne_declaredCount_of_not_acceptsArity {count : Nat} (h : s.acceptsArity count = false) :
    count ≠ s.declaredCount := by
  cases hvariadic : s.isVariadic with
  | false => simpa [acceptsArity, declaredCount, hvariadic] using h
  | true =>
    have hlt : count < s.fixedCount := by simpa [acceptsArity, hvariadic] using h
    rw [declaredCount, hvariadic, if_pos rfl]
    omega

/-- A number that is not the declared one is not accepted either, unless the signature has a tail
and the number leaves none or several arguments to it. -/
theorem declaredCount_decides_iff (count : Nat) :
    (count ≠ s.declaredCount ↔ s.acceptsArity count = false) ↔
      (s.isVariadic = true → count < s.fixedCount ∨ count = s.fixedCount + 1) := by
  cases hvariadic : s.isVariadic with
  | false => simp [acceptsArity, declaredCount, hvariadic]
  | true =>
    simp only [acceptsArity, declaredCount, hvariadic, if_true, decide_eq_false_iff_not,
      true_imp_iff]
    omega

theorem slot_of_parameter {p : Parameter} (hp : s.parameters[i]? = some p) :
    s.slot i = ⟨p.type, p.constant⟩ := by
  rw [slot, hp]

end Signature

/-! ### Arguments that are refused -/

/-- An argument of the declared type matches exactly, where it is a constant if it has to be. -/
theorem Parameter.meetsExactly_of_type {p : Parameter} {e : Evaluator} (htype : e.type = p.type)
    (hconstant : p.constant = true → e.isConstant = true) (helement : p.type.element ≠ .arrayString)
    (charFitsString : Bool) : p.meetsExactly charFitsString e = true := by
  have hallowed : ¬(p.constant && !e.isConstant) = true := by
    simpa using hconstant
  unfold meetsExactly
  rw [if_neg hallowed, htype]
  by_cases harray : p.type.isArray = true
  · have htag : p.tag = p.type.element := if_pos harray
    have hflat : (p.type.tag == .arrayString) = false := by
      rw [eq_of_beq harray]
      rfl
    simp [htag, hflat, helement, harray, isArray]
  · have htag : p.tag = p.type.tag := if_neg harray
    simp [htag, harray, isArray, matchesExactly, htype]

theorem Parameter.matchArgument_of_variable {p : Parameter} {e : Evaluator}
    (hconstant : p.constant = true) (hvariable : e.isConstant = false)
    (charFitsString isCastTarget : Bool) (binds : BindTable) :
    (p.matchArgument charFitsString isCastTarget binds e).1 = .none := by
  rw [matchArgument, hconstant, hvariable]
  rfl

namespace Overload

variable {o : Overload} {binds : BindTable} {isCast inWindow : Bool} {args prepared : Args}
  {i : Nat} {e : Evaluator}

/-- The parameter at a place refuses an argument. Places of the tail refuse none. -/
def Refuses (o : Overload) (binds : BindTable) (isCast : Bool) (i : Nat) (e : Evaluator) : Prop :=
  ∃ p, o.signature.parameters[i]? = some p ∧
    (p.matchArgument o.factory.charFitsString (isCast && i == 1) binds e).1 = .none

/-- An overload matches a call where it takes as many arguments and refuses none of them. -/
def Matches (o : Overload) (binds : BindTable) (isCast : Bool) (args : Args) : Prop :=
  o.signature.acceptsArity args.size = true ∧
    ∀ i e, args.get? i = some e → ¬o.Refuses binds isCast i e

/-- An argument that is refused departs from its slot. -/
theorem Refuses.departs (h : o.Refuses binds isCast i e)
    (helement : ∀ p ∈ o.signature.parameters, p.type.element ≠ .arrayString) :
    o.signature.Departs i e := by
  obtain ⟨p, hp, hnone⟩ := h
  rw [Signature.Departs, Signature.slot_of_parameter hp]
  by_contra hkeeps
  rw [not_or, not_and, Bool.not_eq_false, not_not] at hkeeps
  have hexact := (p.matchArgument_eq_exact_iff _ (isCast && i == 1) binds e).mpr
    (p.meetsExactly_of_type hkeeps.1.symm hkeeps.2 (helement p (List.mem_of_getElem? hp))
      o.factory.charFitsString)
  rw [hnone] at hexact
  cases hexact

/-- An argument that is not refused departs from its slot by its type or not at all. -/
theorem departs_iff_of_not_refuses (h : ¬o.Refuses binds isCast i e)
    (hi : i < o.signature.fixedCount) :
    o.signature.Departs i e ↔ e.type ≠ (o.signature.slot i).type := by
  have hp := List.getElem?_eq_getElem (show i < o.signature.parameters.length from hi)
  have hconstant : ¬((o.signature.slot i).constant = true ∧ e.isConstant = false) := by
    rw [Signature.slot_of_parameter hp]
    rintro ⟨hasks, hvariable⟩
    exact h ⟨_, hp, Parameter.matchArgument_of_variable hasks hvariable _ _ _⟩
  rw [Signature.Departs, or_iff_left hconstant, ne_comm]

theorem score_ne_noMatch_iff_not_refuses (harity : o.signature.acceptsArity args.size = true) :
    (o.score binds isCast inWindow args).1.level ≠ .noMatch ↔
      ∀ i e, args.get? i = some e → ¬o.Refuses binds isCast i e := by
  rw [score_ne_noMatch_iff_isSome, rawScore?, matchAll_isSome_iff]
  simp only [Nat.zero_add]
  constructor
  · rintro h i e he ⟨p, hp, hnone⟩
    obtain ⟨d, hd, hmatch⟩ := h i p hp
    have hsame : some d = some e := hd.symm.trans he
    cases hsame
    exact hmatch hnone
  · intro h i p hp
    obtain ⟨hlt, -⟩ := List.getElem?_eq_some_iff.mp hp
    have hi : i < args.evaluators.length :=
      Nat.lt_of_lt_of_le hlt (Signature.fixedCount_le_of_acceptsArity harity)
    exact ⟨args.evaluators[i], List.getElem?_eq_getElem hi, fun hnone =>
      h i _ (List.getElem?_eq_getElem hi) ⟨p, hp, hnone⟩⟩

/-- A single overload is in the running where it matches. -/
theorem candidates_single_eq_nil_iff :
    candidates binds isCast inWindow 0 [o] args = [] ↔ ¬o.Matches binds isCast args := by
  by_cases harity : o.signature.acceptsArity args.size = true
  · have hscore := @score_ne_noMatch_iff_not_refuses o binds isCast inWindow args harity
    simp only [candidates, Matches, harity, true_and, ← hscore]
    split <;> simp_all
  · simp [candidates, Matches, harity]

/-- A call with arguments that an overload does not match once it was found to be no cast that is
its own operand. -/
structure Rejects (o : Overload) (name : String) (args : Args) (c : Context) (prepared : Args)
    (ready : Context) : Prop where
  elides : elision name args c = (.ok (false, prepared), ready)
  mismatch : ¬o.Matches ready.table (isCastCall name args) prepared

end Overload

theorem noMatchingOverload_single (cat : Catalog) (o : Overload) (name : String) (span : Span)
    (args : Args) :
    noMatchingOverload cat [o] name span args =
      .argumentMismatch name args.size (o.signature.diagnose args)
        (((o.signature.diagnose args).argument?.map args.position).getD span) := rfl

/-- The error for a call shows the same before and after its overloads are scored. -/
theorem noMatchingOverload_scan (cat : Catalog) (overloads : List Overload) (name : String)
    (span : Span) (binds : BindTable) (isCast inWindow : Bool) (i : Nat) (os : List Overload)
    (t : CandidateTracker) (args : Args) :
    noMatchingOverload cat overloads name span (scan binds isCast inWindow i os t args).2 =
      noMatchingOverload cat overloads name span args :=
  noMatchingOverload_congr (positions_scan binds isCast inWindow i os t args)
    ((evolve_scan binds isCast inWindow i os t args).map_eq fun e e' h => by
      rw [Evaluator.isConstant, Evaluator.isConstant, h.type, h.traits])
    cat overloads name span

namespace Catalog

variable {cat : Catalog} {settings : Settings} {name : String} {span : Span} {o : Overload}
  {args prepared : Args} {c ready : Context}

/-- A call with arguments goes to the only overload of its name where that matches it, and is
diagnosed by it otherwise. -/
theorem resolve_single (found : cat.overloads? name = some [o]) (hargs : args.isEmpty = false)
    (elides : elision name args c = (.ok (false, prepared), ready)) :
    (o.Matches ready.table (isCastCall name args) prepared ∧ ∃ scored,
      cat.resolve settings name span args c =
        o.take settings name span (undefinedPlaces prepared) scored ready) ∨
    (¬o.Matches ready.table (isCastCall name args) prepared ∧
      cat.resolve settings name span args c =
        (.error (noMatchingOverload cat [o] name span prepared), ready)) := by
  rw [resolve_of_elision found hargs elides, resolveRanked_apply]
  obtain ⟨hnone, hwinner⟩ | ⟨w, o', -, hw, hplace, hwinner, -, -⟩ :=
    scan_chooses ready.table (isCastCall name args) ready.inWindow [o] prepared
  · right
    refine ⟨Overload.candidates_single_eq_nil_iff.mp hnone, ?_⟩
    simp only [hwinner, noMatchingOverload_scan]
  · obtain rfl : o' = o := List.mem_singleton.mp (List.mem_of_getElem? hplace)
    have hmatches : o'.Matches ready.table (isCastCall name args) prepared := by
      by_contra hmismatch
      have hmem := hw.mem
      rw [Overload.candidates_single_eq_nil_iff.mpr hmismatch] at hmem
      cases hmem
    simp only [hwinner]
    exact .inl ⟨hmatches, _, rfl⟩

/-- The error of a call that the only overload of its name rejects. -/
theorem resolve_of_rejects (found : cat.overloads? name = some [o]) (hargs : args.isEmpty = false)
    (h : o.Rejects name args c prepared ready) (settings : Settings) (span : Span) :
    cat.resolve settings name span args c =
      (.error (.argumentMismatch name args.size (o.signature.diagnose prepared)
        (((o.signature.diagnose prepared).argument?.map args.position).getD span)), ready) := by
  have hposition : prepared.position = args.position := by
    funext i
    rw [Args.position, Args.position, positions_elision h.elides]
  obtain ⟨hmatches, -⟩ | ⟨-, hresolve⟩ :=
    @resolve_single cat settings name span o args prepared c ready found hargs h.elides
  · exact absurd hmatches h.mismatch
  · rw [hresolve, noMatchingOverload_single, size_elision h.elides, hposition]

/-- A call of the declared number of arguments that the only overload of its name rejects is blamed
on the first argument that departs from its slot. That is the first one that the overload refuses
exactly where all before it have the types of their slots. -/
theorem first_refused_blamed_iff (hread : cat.IsRead) (found : cat.overloads? name = some [o])
    (hfixed : o.signature.isVariadic = false) (hsize : args.size = o.signature.declaredCount)
    (h : o.Rejects name args c prepared ready) (settings : Settings) (span : Span) :
    ∃ j k e, prepared.IsFirst (o.Refuses ready.table (isCastCall name args)) k ∧
      prepared.IsFirst o.signature.Departs j ∧ prepared.get? j = some e ∧
      cat.resolve settings name span args c =
        (.error (.argumentMismatch name args.size
          (.wrongArgument o.signature.declaredCount (some ⟨j, o.signature.slot j, e.type⟩))
          (args.position j)), ready) ∧
      j ≤ k ∧ (j = k ↔ ∀ i < k, ∀ d, prepared.get? i = some d →
        d.type = (o.signature.slot i).type) := by
  have helement := hread.element_ne_arrayString found (List.mem_singleton_self o)
  have hdeclared : prepared.size = o.signature.declaredCount :=
    (size_elision h.elides).trans hsize
  have hprepared : prepared.size = o.signature.fixedCount := by
    rw [hdeclared, Signature.declaredCount, hfixed]
    rfl
  have harity : o.signature.acceptsArity prepared.size = true := by
    simp [Signature.acceptsArity, hfixed, hprepared]
  obtain ⟨k, hk⟩ : ∃ k, prepared.IsFirst (o.Refuses ready.table (isCastCall name args)) k := by
    refine Args.exists_isFirst ?_
    by_contra hnone
    exact h.mismatch ⟨harity, fun i e he hrefuses => hnone ⟨i, e, he, hrefuses⟩⟩
  obtain ⟨d, hd, hrefuses⟩ := hk.holds
  obtain ⟨j, hj⟩ : ∃ j, prepared.IsFirst o.signature.Departs j :=
    Args.exists_isFirst ⟨k, d, hd, hrefuses.departs helement⟩
  obtain ⟨e, he, -⟩ := hj.holds
  obtain ⟨hle, heq⟩ := hk.eq_iff hj fun i e hrefuses => hrefuses.departs helement
  refine ⟨j, k, e, hk, hj, he, ?_, hle, heq.trans ?_⟩
  · have hnonempty : prepared.isEmpty = false := Args.isEmpty_of_get? hd
    have hdiagnose := Signature.diagnose_of_size_eq hnonempty hdeclared
    rw [Signature.firstFault?_of_isFirst hj he] at hdiagnose
    rw [resolve_of_rejects found ((isEmpty_elision h.elides).symm.trans hnonempty) h, hdiagnose]
    rfl
  · refine forall₂_congr fun i hi => forall₂_congr fun d hd => ?_
    have hrefuses := hk.before i hi d hd
    have hfixed' : i < o.signature.fixedCount := hprepared ▸ Args.lt_size_of_get? hd
    rw [Overload.departs_iff_of_not_refuses hrefuses hfixed', not_not]

/-- `f(string, double const)` refuses a DOUBLE that is no constant, after a STRING. -/
theorem first_refused_blamed_column :
    let cat : Catalog := ⟨[("f", [textAndNumber])], []⟩
    let args : Args := ⟨[.column 0 .string "s", .column 1 .double "d"], [⟨2, 1⟩, ⟨5, 1⟩]⟩
    cat.IsRead ∧ cat.overloads? "f" = some [textAndNumber] ∧
      textAndNumber.signature.isVariadic = false ∧
      args.size = textAndNumber.signature.declaredCount ∧
      textAndNumber.Rejects "f" args (.fresh 0) args (.fresh 0) ∧
      cat.resolve .default "f" ⟨0, 1⟩ args (.fresh 0) =
        (.error (.argumentMismatch "f" 2 (.wrongArgument 2 (some ⟨1, ⟨.double, true⟩, .double⟩))
          ⟨5, 1⟩), .fresh 0) := by
  intro cat args
  have hread : cat.IsRead := isRead_single (by decide +kernel)
  have hfirst : args.IsFirst
      (textAndNumber.Refuses (Context.fresh 0).table (isCastCall "f" args)) 1 := by
    refine ⟨⟨_, rfl, _, rfl, rfl⟩, ?_⟩
    rintro i hi e he ⟨p, hp, hnone⟩
    obtain rfl := Nat.lt_one_iff.mp hi
    cases he
    cases hp
    cases hnone
  have hrejects : textAndNumber.Rejects "f" args (.fresh 0) args (.fresh 0) :=
    ⟨rfl, fun hmatches => hmatches.2 1 _ rfl ⟨_, rfl, rfl⟩⟩
  refine ⟨hread, rfl, rfl, rfl, hrejects, ?_⟩
  obtain ⟨j, k, e, hk, -, he, hresolve, -, hiff⟩ :=
    first_refused_blamed_iff hread rfl rfl rfl hrejects .default ⟨0, 1⟩
  obtain rfl := hk.unique hfirst
  obtain rfl : j = 1 := by
    refine hiff.mpr fun i hi d hd => ?_
    obtain rfl := Nat.lt_one_iff.mp hi
    cases hd
    rfl
  cases he
  exact hresolve

/-- `f(long, boolean)`. -/
def longAndBoolean : Overload :=
  ⟨⟨"f", [⟨.long, false⟩, ⟨.boolean, false⟩], none⟩,
    { (default : Factory) with signature := "f(long, boolean)" }⟩

/-- `f(long, boolean)` refuses the second of two INTs, and the error points at the first, which is
coerced. -/
theorem coerced_blamed_long_boolean :
    let cat : Catalog := ⟨[("f", [longAndBoolean])], []⟩
    let args : Args := ⟨[.column 0 .int "i", .column 1 .int "j"], [⟨2, 1⟩, ⟨5, 1⟩]⟩
    cat.IsRead ∧ cat.overloads? "f" = some [longAndBoolean] ∧
      longAndBoolean.signature.isVariadic = false ∧
      args.size = longAndBoolean.signature.declaredCount ∧
      longAndBoolean.Rejects "f" args (.fresh 0) args (.fresh 0) ∧
      args.IsFirst (longAndBoolean.Refuses (Context.fresh 0).table (isCastCall "f" args)) 1 ∧
      cat.resolve .default "f" ⟨0, 1⟩ args (.fresh 0) =
        (.error (.argumentMismatch "f" 2 (.wrongArgument 2 (some ⟨0, ⟨.long, false⟩, .int⟩))
          ⟨2, 1⟩), .fresh 0) := by
  intro cat args
  refine ⟨isRead_single (by decide +kernel), rfl, rfl, rfl, ⟨rfl, fun hmatches => ?_⟩,
    ⟨⟨_, rfl, _, rfl, rfl⟩, ?_⟩, rfl⟩
  · exact hmatches.2 1 _ rfl ⟨_, rfl, rfl⟩
  · rintro i hi e he ⟨p, hp, hnone⟩
    obtain rfl := Nat.lt_one_iff.mp hi
    cases he
    cases hp
    cases hnone

/-- A call with arguments that the only overload of its name rejects is blamed on their number where
the overload does not accept that number. It is so exactly there if the overload has no tail, or if
the number leaves one argument to the tail or is too small for its parameters. -/
theorem count_blamed_iff (found : cat.overloads? name = some [o]) (hargs : args.isEmpty = false)
    (h : o.Rejects name args c prepared ready) (settings : Settings) (span : Span) :
    ∃ cause position, cat.resolve settings name span args c =
        (.error (.argumentMismatch name args.size cause position), ready) ∧
      (o.signature.acceptsArity args.size = false → cause.BlamesCount args.size) ∧
      ((cause.BlamesCount args.size ↔ o.signature.acceptsArity args.size = false) ↔
        (o.signature.isVariadic = true → args.size < o.signature.fixedCount ∨
          args.size = o.signature.fixedCount + 1)) := by
  have hblames := @Signature.blamesCount_diagnose_iff o.signature prepared
    ((isEmpty_elision h.elides).trans hargs)
  rw [size_elision h.elides] at hblames
  refine ⟨_, _, resolve_of_rejects found hargs h settings span, ?_, ?_⟩
  · rw [hblames]
    exact Signature.ne_declaredCount_of_not_acceptsArity
  · rw [hblames]
    exact Signature.declaredCount_decides_iff args.size

/-- `f(int, var)`. -/
def intAndTail : Overload :=
  ⟨⟨"f", [⟨.int, false⟩], some ⟨false⟩⟩,
    { (default : Factory) with signature := "f(int, var)" }⟩

/-- Two arguments are as many as `f(int, var)` declares, so a BOOLEAN in the place of the INT is not
blamed on their number. -/
theorem count_blamed_boolean_int :
    let cat : Catalog := ⟨[("f", [intAndTail])], []⟩
    let args : Args := ⟨[.column 0 .boolean "b", .column 1 .int "i"], [⟨2, 1⟩, ⟨5, 1⟩]⟩
    cat.overloads? "f" = some [intAndTail] ∧ args.isEmpty = false ∧
      intAndTail.Rejects "f" args (.fresh 0) args (.fresh 0) ∧
      ∃ cause position, cat.resolve .default "f" ⟨0, 1⟩ args (.fresh 0) =
        (.error (.argumentMismatch "f" 2 cause position), .fresh 0) ∧ ¬cause.BlamesCount 2 := by
  intro cat args
  have hrejects : intAndTail.Rejects "f" args (.fresh 0) args (.fresh 0) :=
    ⟨rfl, fun hmatches => hmatches.2 0 _ rfl ⟨_, rfl, rfl⟩⟩
  obtain ⟨cause, position, hresolve, -, hiff⟩ :=
    @count_blamed_iff cat "f" intAndTail args args (.fresh 0) (.fresh 0) rfl rfl hrejects .default
      ⟨0, 1⟩
  refine ⟨rfl, rfl, hrejects, cause, position, hresolve, fun hblames => ?_⟩
  have hrefused := (hiff.mpr fun _ => .inr rfl).mp hblames
  cases hrefused

/-- `f(int, var)` accepts three arguments, but a BOOLEAN in the place of the INT is blamed on their
number. -/
theorem count_blamed_three :
    let cat : Catalog := ⟨[("f", [intAndTail])], []⟩
    let args : Args := ⟨[.column 0 .boolean "b", .column 1 .int "i", .column 1 .int "i"],
      [⟨2, 1⟩, ⟨5, 1⟩, ⟨8, 1⟩]⟩
    cat.overloads? "f" = some [intAndTail] ∧ args.isEmpty = false ∧
      intAndTail.Rejects "f" args (.fresh 0) args (.fresh 0) ∧
      intAndTail.signature.acceptsArity args.size = true ∧
      cat.resolve .default "f" ⟨0, 1⟩ args (.fresh 0) =
        (.error (.argumentMismatch "f" 3 (.wrongCount 2) ⟨0, 1⟩), .fresh 0) ∧
      (Mismatch.wrongCount 2).BlamesCount args.size :=
  ⟨rfl, rfl, ⟨rfl, fun hmatches => hmatches.2 0 _ rfl ⟨_, rfl, rfl⟩⟩, rfl, rfl,
    rfl, 2, rfl, by decide⟩

end Catalog

end SqlResolution
