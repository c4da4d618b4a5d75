import SqlResolution.Proofs.Evaluator.Nodes
import SqlResolution.Proofs.Overload.Course
import SqlResolution.Proofs.Variables
import SqlResolution.Proofs.Walk.Invariant

/-!
# From the arguments of calls to a whole tree

What holds of the leaves of a tree, and what every call passes from its arguments to its evaluator,
holds of what the tree resolves to. The steps of a call before an overload creates its evaluator
keep what resolution maintains.
-/
namespace SqlResolution

open Steps

namespace Maintained

variable {I : Context → Prop} {J : Evaluator → Prop} {cat : Catalog} {settings : Settings}
  {o : Overload} {name : String} {span : Span} {args args' : Args} {c c' : Context} {e : Evaluator}

theorem elision {isElided : Bool} (h : Maintained I J) (hargs : ∀ e ∈ args.evaluators, J e)
    (hI : I c) (helides : elision name args c = (.ok (isElided, args'), c')) :
    I c' ∧ ∀ e ∈ args'.evaluators, J e := by
  have haligned : args.Aligned (fun _ => SameEvaluator J) args := ⟨rfl, aligned_same hargs 0⟩
  obtain ⟨houtcome, -, hI'⟩ :=
    relates_elision (fun _ => h.uniform) name haligned c c ⟨rfl, hI⟩
  rw [helides] at houtcome hI'
  cases houtcome with
  | ok related => exact ⟨hI', (forall_mem_of_aligned_same related.2.evaluators).2⟩

theorem scan {isCast inWindow : Bool} {i : Nat} {overloads : List Overload}
    {t t' : CandidateTracker} (h : Maintained I J) (hargs : ∀ e ∈ args.evaluators, J e) (hI : I c)
    (hscans : scan c.table isCast inWindow i overloads t args = (t', args')) :
    ∀ e ∈ args'.evaluators, J e := by
  have haligned : args.Aligned (fun _ => SameEvaluator J) args := ⟨rfl, aligned_same hargs 0⟩
  have hsame : SameContext I c c := ⟨rfl, hI⟩
  obtain ⟨-, hscanned⟩ :=
    scan_aligned (fun _ => h.uniform) hsame isCast inWindow i overloads t haligned
  rw [hscans] at hscanned
  exact (forall_mem_of_aligned_same hscanned.evaluators).2

theorem adjust {places : List Nat} (h : Maintained I J) (hplaces : places.Pairwise (· < ·))
    (hundefined : ∀ i ∈ places, ∀ e, args.get? i = some e → e.isUndefined = true)
    (hargs : ∀ e ∈ args.evaluators, J e) (hI : I c)
    (hadjusts : o.adjust name places args c = (.ok args', c')) :
    I c' ∧ ∀ e ∈ args'.evaluators, J e := by
  have haligned : args.Aligned (fun _ => SameEvaluator J) args := ⟨rfl, aligned_same hargs 0⟩
  have htail : ∀ i args args', args.Aligned (fun _ => SameEvaluator J) args' →
      o.factory.tailType? i args = o.factory.tailType? i args' := by
    intro i args args' hsame
    rw [(Args.eq_of_aligned_same (J := fun _ => J) hsame).1]
  obtain ⟨houtcome, -, hI'⟩ := Overload.relates_adjust (fun _ => h.uniform) htail name hplaces
    haligned hundefined c c ⟨rfl, hI⟩
  rw [hadjusts] at houtcome hI'
  cases houtcome with
  | ok related => exact ⟨hI', (forall_mem_of_aligned_same related.evaluators).2⟩

/-- A call that succeeds comes to an argument, or an overload of its name creates the evaluator. -/
theorem course (h : Maintained I J) (hargs : ∀ e ∈ args.evaluators, J e) (hI : I c)
    {after : Context} (hcourse : cat.Course settings name span args c e after) :
    I after ∧ (J e ∨ ∃ overloads o adjusted, cat.overloads? name = some overloads ∧
      o ∈ overloads ∧ (∀ arg ∈ adjusted.evaluators, J arg) ∧
        o.create settings name span adjusted after = (.ok e, after)) := by
  cases hcourse with
  | elided found elides operand =>
    obtain ⟨hI', hprepared⟩ := h.elision hargs hI elides
    exact ⟨hI', .inl (hprepared e (List.mem_of_getElem? operand))⟩
  | @empty overloads prepared o found elides isEmpty answers creates =>
    obtain ⟨hI', -⟩ := h.elision hargs hI elides
    have hnone : ∀ arg ∈ Args.empty.evaluators, J arg := by
      intro arg harg
      cases harg
    exact ⟨hI', .inr ⟨overloads, o, .empty, found, List.mem_of_find?_eq_some answers, hnone,
      creates⟩⟩
  | @ranked overloads prepared scored adjusted ready t o found elides isEmpty scanned wins adjusts
      creates =>
    obtain ⟨hready, hprepared⟩ := h.elision hargs hI elides
    have hscored := h.scan hprepared hready scanned
    have hevolve := evolve_scan ready.table (isCastCall name args) ready.inWindow 0 overloads .start
      prepared
    rw [scanned] at hevolve
    obtain ⟨hI', hadjusted⟩ :=
      h.adjust (pairwise_undefinedPlaces prepared)
        (fun i hi e he => isUndefined_of_evolve hevolve hi he) hscored hready adjusts
    obtain ⟨i, -, hi⟩ := Option.bind_eq_some_iff.mp wins
    exact ⟨hI', .inr ⟨overloads, o, adjusted, found, List.mem_of_getElem? hi, hadjusted, creates⟩⟩

theorem and {I' : Context → Prop} {J' : Evaluator → Prop} (h : Maintained I J)
    (h' : Maintained I' J') : Maintained (fun c => I c ∧ I' c) fun e => J e ∧ J' e where
  literal hliteral := ⟨h.literal hliteral, h'.literal hliteral⟩
  evalConstant hI hJ hconstant :=
    ⟨h.evalConstant hI.1 hJ.1 hconstant, h'.evalConstant hI.2 hJ.2 hconstant⟩
  assignType hI hJ hundefined hassign :=
    ⟨⟨(h.assignType hI.1 hJ.1 hundefined hassign).1, (h'.assignType hI.2 hJ.2 hundefined hassign).1⟩,
      (h.assignType hI.1 hJ.1 hundefined hassign).2, (h'.assignType hI.2 hJ.2 hundefined hassign).2⟩
  adapt hJ hadapter := ⟨h.adapt hJ.1 hadapter, h'.adapt hJ.2 hadapter⟩

end Maintained

/-- What evaluation and wrapping leave alone, preparing arguments leaves alone in whole trees. -/
theorem Evaluator.Passes.maintained {Q : Evaluator → Prop} (hQ : Passes Q) :
    Maintained (fun _ => True) (AllNodes Q) where
  literal hliteral := by
    cases hliteral with
    | constant => exact .atom hQ rfl
    | typeName => exact .atom hQ rfl
  evalConstant _ h _ := h.eval hQ _ .empty
  assignType _ _ _ hassign := ⟨.assignType hQ hassign, trivial⟩
  adapt h _ := h.adapt hQ _ _ _

/-- What a walk leaves as it is of a context: what is allowed, and the open windows. -/
def Context.bounds (c : Context) : Bool × Nat := (c.allowNonDeterministic, c.windowDepth)

theorem Context.bounds_of_frame {c c' : Context} (h : c'.frame = c.frame) :
    c'.bounds = c.bounds := by
  have hbounds : c'.frame.bounds = c.frame.bounds := congrArg bounds h
  exact hbounds

theorem Context.inWindow_of_bounds {c c' : Context} (h : c'.bounds = c.bounds) :
    c'.inWindow = c.inWindow := by
  have hdepth : c'.windowDepth = c.windowDepth := congrArg Prod.snd h
  rw [inWindow, inWindow, hdepth]

theorem Catalog.bounds_resolve (cat : Catalog) (settings : Settings) (name : String) (span : Span)
    (args : Args) (c : Context) : (cat.resolve settings name span args c).2.bounds = c.bounds :=
  Context.bounds_of_frame (cat.keeps_frame_resolve settings name span args c)

namespace Resolver

variable {r : Resolver} {J : Evaluator → Prop} {bounds : Bool × Nat}

theorem nodesAlike_of_calls (hatom : ∀ e : Evaluator, e.isAtom = true → J e)
    (hcall : ∀ name span args c c' e, c.bounds = bounds → (∀ arg ∈ args.evaluators, J arg) →
      r.catalog.resolve r.settings name span args c = (.ok e, c') → J e) :
    NodesAlike (SameContext fun c => c.bounds = bounds) (fun _ => True)
      (fun _ _ => SameEvaluator J) r r where
  pushTimestampRequired := by
    rintro c _ required ⟨rfl, hbounds⟩
    exact ⟨rfl, hbounds⟩
  popTimestampRequired := by
    rintro c _ ⟨rfl, hbounds⟩
    exact ⟨rfl, hbounds⟩
  kind := by
    rintro schema n e _ ⟨rfl, -⟩
    rfl
  literal hliteral := by
    cases hliteral with
    | constant => exact ⟨rfl, hatom _ rfl⟩
    | typeName => exact ⟨rfl, hatom _ rfl⟩
  column _ := ⟨rfl, hatom _ rfl⟩
  link := by
    rintro schema n c _ - - - ⟨rfl, -⟩
    refine .refl fun e he => ⟨rfl, ?_⟩
    obtain ⟨x, -, rfl⟩ := Link.ofNode_ok he
    cases x with
    | slot i => exact hatom _ rfl
    | named name => exact hatom _ rfl
  cursor _ _ _ := ⟨rfl, hatom _ rfl⟩
  call := by
    intro schema n es es' _ _ haligned
    obtain ⟨rfl, hargs⟩ := forall_mem_of_aligned_same (haligned.aligned
      (R := fun _ => SameEvaluator J) (i := 0) fun _ _ _ _ _ hsame => hsame)
    refine relates_self_iff.mpr fun c hbounds => ⟨?_, fun e he => ?_⟩
    · rw [r.catalog.bounds_resolve, hbounds]
    · rcases hresolve : r.catalog.resolve r.settings n.token n.span ⟨es, n.args.map (·.span)⟩ c
        with ⟨result, c'⟩
      rw [hresolve] at he
      cases he
      exact hcall n.token n.span _ c c' e hbounds hargs hresolve

/-- What holds of the leaves of a tree, and what every call within the bounds of the context passes
from its arguments to its evaluator, holds of what the tree resolves to. -/
theorem forall_of_resolve {root : Node} {schema : Schema} {w after : Walk} {e : Evaluator}
    (hatom : ∀ e : Evaluator, e.isAtom = true → J e)
    (hcall : ∀ name span args c c' e, c.bounds = w.context.bounds →
      (∀ arg ∈ args.evaluators, J arg) →
        r.catalog.resolve r.settings name span args c = (.ok e, c') → J e)
    (h : r.resolve root schema w = (.ok e, after)) :
    after.context.bounds = w.context.bounds ∧ J e := by
  have hrelates : Relates _ _ (r.resolve root schema) (r.resolve root schema) :=
    (nodesAlike_of_calls hatom hcall).relates_resolve (fun _ _ => trivial) rfl
      (fun _ _ _ => (Plan.asks_true _).alike) schema
  have hrelates := hrelates w w ⟨rfl, rfl⟩
  rw [h] at hrelates
  obtain ⟨hresult, -, hbounds⟩ := hrelates
  cases hresult with
  | ok related => exact ⟨hbounds, related.2⟩

end Resolver
end SqlResolution
