import SqlResolution.Overload.Resolve
import SqlResolution.Proofs.Steps

/-!
# What the steps of a resolution do

Each step of a resolution as a function of the context it starts in. A resolution changes nothing of
its context but the bind table.
-/
namespace SqlResolution

open Steps

theorem assignArgument_apply (args : Args) (i : Nat) (type : ColumnType) (c : Context) :
    assignArgument args i type c =
      match args.get? i with
      | none => (.ok args, c)
      | some e =>
        match e.assignType c.table type with
        | .ok (e, b) => (.ok (args.set i e), c.withTable b)
        | .error error => (.error error, c) := by
  unfold assignArgument
  cases args.get? i with
  | none => rfl
  | some e =>
    simp only [bind_apply, get_apply, liftM_apply]
    rcases e.assignType c.table type with _ | ⟨e, b⟩ <;> rfl

theorem elideCast_apply (args : Args) (c : Context) :
    elideCast args c =
      match args.get? 0, args.get? 1 with
      | some operand, some target =>
        if operand.type == target.type then (.ok (true, args), c)
        else if operand.isUndefined then
          match castVariableType? target.type with
          | none => (.ok (false, args), c)
          | some type =>
            match assignArgument args 0 type c with
            | (.ok args, c) => (.ok (type == target.type, args), c)
            | (.error error, c) => (.error error, c)
        else (.ok (false, args), c)
      | _, _ => (.ok (false, args), c) := by
  unfold elideCast
  rcases args.get? 0 with _ | operand
  · rfl
  rcases args.get? 1 with _ | target
  · rfl
  by_cases ht : (operand.type == target.type) = true
  · simp only [ht, if_true]
    rfl
  by_cases hu : operand.isUndefined = true
  · simp only [ht, hu, Bool.false_eq_true, if_true, if_false]
    rcases castVariableType? target.type with _ | type
    · rfl
    · simp only [bind_apply]
      rcases assignArgument args 0 type c with ⟨_ | _, _⟩ <;> rfl
  · simp only [ht, hu, Bool.false_eq_true, if_false]
    rfl

/-- What becomes of a call before its overloads are tried: whether it is a cast that is its own
operand, and its arguments. -/
def elision (name : String) (args : Args) : Resolution (Bool × Args) :=
  if isCastCall name args then elideCast args else pure (false, args)

/-- A cast gives its untyped operand a type that is near the target. -/
inductive TypesOperand (name : String) (args : Args) (c : Context) (operand typed : Evaluator)
    (b : BindTable) : Prop
  | mk {target : Evaluator} {type : ColumnType} (isCast : isCastCall name args = true)
      (first : args.get? 0 = some operand) (second : args.get? 1 = some target)
      (untyped : operand.isUndefined = true) (near : castVariableType? target.type = some type)
      (assigns : operand.assignType c.table type = .ok (typed, b))

/-- The first look at a call leaves its arguments as they are, or types the operand of a cast. -/
theorem elision_cases {name : String} {args prepared : Args} {isElided : Bool} {c c' : Context}
    (h : elision name args c = (.ok (isElided, prepared), c')) :
    (prepared = args ∧ c' = c) ∨
      ∃ operand typed b, TypesOperand name args c operand typed b ∧
        prepared = args.set 0 typed ∧ c' = c.withTable b := by
  unfold elision at h
  split at h
  · rename_i isCast
    rw [elideCast_apply] at h
    split at h
    · rename_i operand target first second
      split at h
      · cases h
        exact .inl ⟨rfl, rfl⟩
      · split at h
        · rename_i untyped
          split at h
          · cases h
            exact .inl ⟨rfl, rfl⟩
          · rename_i type near
            rw [assignArgument_apply, first] at h
            dsimp only at h
            rcases assigns : operand.assignType c.table type with error | ⟨typed, b⟩
            · rw [assigns] at h
              cases h
            · rw [assigns] at h
              cases h
              exact .inr ⟨operand, typed, b, .mk isCast first second untyped near assigns, rfl, rfl⟩
        · cases h
          exact .inl ⟨rfl, rfl⟩
    · cases h
      exact .inl ⟨rfl, rfl⟩
  · cases h
    exact .inl ⟨rfl, rfl⟩

theorem size_elision {name : String} {args args' : Args} {isElided : Bool} {c c' : Context}
    (h : elision name args c = (.ok (isElided, args'), c')) : args'.size = args.size := by
  obtain ⟨rfl, -⟩ | ⟨_, typed, _, -, rfl, -⟩ := elision_cases h
  · rfl
  · exact Args.size_set args 0 typed

theorem positions_elision {name : String} {args args' : Args} {isElided : Bool} {c c' : Context}
    (h : elision name args c = (.ok (isElided, args'), c')) : args'.positions = args.positions := by
  obtain ⟨rfl, -⟩ | ⟨_, _, _, -, rfl, -⟩ := elision_cases h
  · rfl
  · rfl

theorem isEmpty_elision {name : String} {args args' : Args} {isElided : Bool} {c c' : Context}
    (h : elision name args c = (.ok (isElided, args'), c')) : args'.isEmpty = args.isEmpty := by
  have hsize : args'.evaluators.length = args.evaluators.length := size_elision h
  rw [Args.isEmpty, Args.isEmpty, Bool.eq_iff_iff, List.isEmpty_iff_length_eq_zero,
    List.isEmpty_iff_length_eq_zero, hsize]

/-- Gives a call to an overload. -/
def Overload.take (o : Overload) (settings : Settings) (name : String) (span : Span)
    (undefined : List Nat) (args : Args) : Resolution Evaluator := do
  o.create settings name span (← o.adjust name undefined args)

namespace Catalog

variable {c : Catalog} {settings : Settings} {name : String} {span : Span}
  {overloads : List Overload}

/-- A call of a name that has overloads. -/
theorem resolve_eq (hname : c.overloads? name = some overloads) (args : Args) :
    c.resolve settings name span args =
      elision name args >>= fun (isElided, prepared) =>
        if isElided then
          match prepared.evaluators with
          | operand :: _ => return operand
          | [] => throw (.internal .castLostOperand)
        else if prepared.isEmpty then c.resolveEmpty settings overloads name span
        else c.resolveRanked settings overloads name span (isCastCall name args) prepared := by
  unfold resolve
  simp only [hname, elision]
  split <;> rfl

/-- A call with arguments that is no cast of an operand to its own type is ranked. -/
theorem resolve_of_elision {args prepared : Args} {context context' : Context}
    (hname : c.overloads? name = some overloads) (hargs : args.isEmpty = false)
    (hcast : elision name args context = (.ok (false, prepared), context')) :
    c.resolve settings name span args context =
      c.resolveRanked settings overloads name span (isCastCall name args) prepared context' := by
  have hprepared : prepared.isEmpty = false := (isEmpty_elision hcast).trans hargs
  rw [resolve_eq hname, bind_of_ok hcast]
  simp [hprepared]

/-- A ranked call goes to the overload that the scan of all of them chose. -/
theorem resolveRanked_apply (isCast : Bool) (args : Args) (context : Context) :
    c.resolveRanked settings overloads name span isCast args context =
      let scanned := scan context.table isCast context.inWindow 0 overloads .start args
      match scanned.1.winner.bind (overloads[·]?) with
      | none => (.error (noMatchingOverload c overloads name span scanned.2), context)
      | some o => o.take settings name span (undefinedPlaces args) scanned.2 context := by
  unfold resolveRanked
  simp only [bind_apply, get_apply]
  rcases (scan context.table isCast context.inWindow 0 overloads .start args).1.winner.bind
    (overloads[·]?) with _ | o <;> rfl

end Catalog

/-- A context but for what is in its bind table. -/
def Context.frame (c : Context) : Context := c.withTable .empty

@[simp] theorem Context.frame_withTable (c : Context) (b : BindTable) :
    (c.withTable b).frame = c.frame := by
  simp [frame, withTable, Function.comp_def]

theorem Context.isSome_binds_of_frame {c c' : Context} (h : c.frame = c'.frame) :
    c.binds.isSome = c'.binds.isSome := by
  simpa [frame, withTable] using congrArg (fun c => c.binds.isSome) h

theorem Context.withTable_eq_of_frame {c c' : Context} (h : c.frame = c'.frame) (b : BindTable) :
    c.withTable b = c'.withTable b := by
  have hframe : ∀ c : Context, c.frame.withTable b = c.withTable b := by
    intro c
    simp [frame, withTable, Function.comp_def]
  rw [← hframe c, h, hframe c']

theorem keeps_frame_assignArgument (args : Args) (i : Nat) (type : ColumnType) :
    Keeps Context.frame (assignArgument args i type) := by
  intro c
  rw [assignArgument_apply]
  split
  · rfl
  · split
    · exact c.frame_withTable _
    · rfl

theorem keeps_frame_elision (name : String) (args : Args) :
    Keeps Context.frame (elision name args) := by
  unfold elision elideCast
  split
  · split
    · split
      · exact .pure _
      · split
        · split
          · exact .pure _
          · exact .bind (keeps_frame_assignArgument args 0 _) fun _ => .pure _
        · exact .pure _
    · exact .pure _
  · exact .pure _

namespace Overload

theorem keeps_frame_assignTypes (o : Overload) (name : String) (places : List Nat) (args : Args) :
    Keeps Context.frame (o.assignTypes name places args) := by
  induction places generalizing args with
  | nil => exact .pure _
  | cons i is ih =>
    exact .bind (.liftM _) fun _ => .bind (keeps_frame_assignArgument args i _) fun args => ih args

theorem keeps_frame_create (o : Overload) (settings : Settings) (name : String) (span : Span)
    (args : Args) : Keeps Context.frame (o.create settings name span args) := by
  refine .bind .get fun c => .bind (.liftM _) fun built => ?_
  cases built with
  | none => exact .throw _
  | some e =>
    change Keeps Context.frame (if _ then _ else _)
    split
    · exact .throw _
    · exact .pure _

theorem keeps_frame_take (o : Overload) (settings : Settings) (name : String) (span : Span)
    (undefined : List Nat) (args : Args) :
    Keeps Context.frame (o.take settings name span undefined args) := by
  have hadjust : Keeps Context.frame (o.adjust name undefined args) := by
    unfold adjust
    split
    · exact .throw _
    · exact .bind (o.keeps_frame_assignTypes name undefined args) fun _ =>
        .bind .get fun _ => .liftM _
  exact .bind hadjust fun args => o.keeps_frame_create settings name span args

section

variable {o : Overload} {settings : Settings} {name : String} {span : Span} {args : Args}
  {c c' : Context} {e built : Evaluator}

theorem create_ok (h : o.create settings name span args c = (.ok e, c')) :
    c' = c ∧ ∃ built, o.factory.build span args settings c = .ok (some built) ∧
      (!c.allowNonDeterministic && built.isNonDeterministic) = false ∧
        e = built.finish settings c.table := by
  unfold create at h
  rw [bind_of_ok (get_apply c)] at h
  obtain ⟨built, c₁, hbuild, hrest⟩ := exists_of_bind_ok h
  rw [liftM_apply, Prod.mk.injEq] at hbuild
  obtain ⟨hbuild, rfl⟩ := hbuild
  cases built with
  | none => cases hrest
  | some built =>
    dsimp only at hrest
    split at hrest
    · cases hrest
    · rename_i hallowed
      cases hrest
      exact ⟨rfl, built, hbuild, by simpa using hallowed, rfl⟩

theorem create_of_build (hbuild : o.factory.build span args settings c = .ok (some built))
    (hallowed : (!c.allowNonDeterministic && built.isNonDeterministic) = false) :
    o.create settings name span args c = (.ok (built.finish settings c.table), c) := by
  unfold create
  rw [bind_of_ok (get_apply c), bind_of_ok (by rw [liftM_apply, hbuild])]
  dsimp only
  rw [hallowed]
  rfl

end

end Overload

namespace Catalog

theorem keeps_frame_resolveEmpty (c : Catalog) (settings : Settings) (overloads : List Overload)
    (name : String) (span : Span) :
    Keeps Context.frame (c.resolveEmpty settings overloads name span) := by
  refine .bind .get fun context => ?_
  dsimp only
  split
  · exact Overload.keeps_frame_create _ settings name span .empty
  · exact .throw _

theorem keeps_frame_resolveRanked (c : Catalog) (settings : Settings) (overloads : List Overload)
    (name : String) (span : Span) (isCast : Bool) (args : Args) :
    Keeps Context.frame (c.resolveRanked settings overloads name span isCast args) := by
  intro context
  rw [resolveRanked_apply]
  dsimp only
  split
  · rfl
  · exact Overload.keeps_frame_take _ settings name span _ _ context

/-- A resolution changes nothing of its context but the bind table, also where it fails. -/
theorem keeps_frame_resolve (c : Catalog) (settings : Settings) (name : String) (span : Span)
    (args : Args) : Keeps Context.frame (c.resolve settings name span args) := by
  cases hname : c.overloads? name with
  | none =>
    unfold resolve
    rw [hname]
    exact .throw _
  | some overloads =>
    rw [resolve_eq hname]
    refine .bind (keeps_frame_elision name args) fun (isElided, prepared) => ?_
    dsimp only
    split
    · split
      · exact .pure _
      · exact .throw _
    · split
      · exact c.keeps_frame_resolveEmpty settings overloads name span
      · exact c.keeps_frame_resolveRanked settings overloads name span _ prepared

end Catalog
end SqlResolution
