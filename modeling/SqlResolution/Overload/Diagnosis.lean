import SqlResolution.Overload.Catalog

/-!
# Why no overload fits

A call of a name that has one overload is compared with it. A call of a name that has several is
answered with its argument types.
-/
namespace SqlResolution

/-- The error for a name without overloads. -/
def unknownFunction (name : String) (span : Span) (args : Args) : ResolveError :=
  let call := name ++ "(" ++ ",".intercalate (args.types.map ColumnType.display) ++ ")"
  .unknownFunction name call span

namespace Signature

/-- How an argument departs from its slot: by its type, or because it is no constant. -/
def faultAt? (s : Signature) (i : Nat) (e : Evaluator) : Option ArgumentFault :=
  let expected := s.slot i
  if expected.type != e.type || (expected.constant && !e.isConstant) then
    some ⟨i, expected, e.type⟩
  else none

/-- The first argument that departs from its slot, of arguments from place `i` on. -/
def firstFault? (s : Signature) : Nat → List Evaluator → Option ArgumentFault
  | _, [] => none
  | i, e :: es => (s.faultAt? i e) <|> s.firstFault? (i + 1) es

/-- How a call departs from the only overload of its name. -/
def diagnose (s : Signature) (args : Args) : Mismatch :=
  if args.isEmpty then .missingArguments ((List.range s.declaredCount).map s.slot)
  else if args.size != s.declaredCount then .wrongCount s.declaredCount
  else .wrongArgument s.declaredCount (s.firstFault? 0 args.evaluators)

/-- Faults are told by types and by what is constant. -/
theorem firstFault?_congr (s : Signature) {es es' : List Evaluator}
    (h : es.map (fun e => (e.type, e.isConstant)) = es'.map fun e => (e.type, e.isConstant))
    (i : Nat) : s.firstFault? i es = s.firstFault? i es' := by
  induction es generalizing es' i with
  | nil =>
    cases es' with
    | nil => rfl
    | cons e' es' => cases h
  | cons e es ih =>
    cases es' with
    | nil => cases h
    | cons e' es' =>
      simp only [List.map_cons, List.cons.injEq, Prod.mk.injEq] at h
      obtain ⟨⟨htype, hconstant⟩, hrest⟩ := h
      simp only [firstFault?, faultAt?, htype, hconstant, ih hrest]

end Signature

/-- The error for a call that none of a name's overloads accepts. It points at the argument that
does not fit, where one is known, and else at the call. -/
def noMatchingOverload (c : Catalog) (overloads : List Overload) (name : String) (span : Span)
    (args : Args) : ResolveError :=
  let cause : Mismatch :=
    match overloads with
    | [o] => o.signature.diagnose args
    | _ => if c.isOperator name then .noOperator args.types else .noFunction args.types
  .argumentMismatch name args.size cause ((cause.argument?.map args.position).getD span)

/-- The error shows of the arguments where they stand, their types, and which are constant. -/
theorem noMatchingOverload_congr {args args' : Args} (hpositions : args.positions = args'.positions)
    (h : args.evaluators.map (fun e => (e.type, e.isConstant)) =
      args'.evaluators.map fun e => (e.type, e.isConstant))
    (c : Catalog) (overloads : List Overload) (name : String) (span : Span) :
    noMatchingOverload c overloads name span args =
      noMatchingOverload c overloads name span args' := by
  have hlength : args.evaluators.length = args'.evaluators.length := by
    simpa using congrArg List.length h
  have htypes : args.types = args'.types := by
    simpa [Function.comp_def, Args.types] using congrArg (List.map Prod.fst) h
  have hempty : args.isEmpty = args'.isEmpty := by
    rw [Args.isEmpty, Args.isEmpty, Bool.eq_iff_iff, List.isEmpty_iff_length_eq_zero,
      List.isEmpty_iff_length_eq_zero, hlength]
  have hposition : args.position = args'.position := by
    funext i
    rw [Args.position, Args.position, hpositions]
  have hdiagnose : ∀ s : Signature, s.diagnose args = s.diagnose args' := by
    intro s
    rw [Signature.diagnose, Signature.diagnose, Args.size, Args.size, hempty, hlength,
      s.firstFault?_congr h]
  simp only [noMatchingOverload, Args.size, hlength, htypes, hposition, hdiagnose]

end SqlResolution
