import SqlResolution.Proofs.Walk.Advancing
import SqlResolution.Proofs.Walk.Sites

/-!
# Resolving a tree again

A tree is resolved once more with the types that its first resolution gave to the variables. Typed
variables are matched by their types, so that a call may go to another overload. Up to the first such
call both resolutions do the same, and without one the second comes to the same evaluator.
-/
namespace SqlResolution

open Steps

/-- The plan does not finish. -/
def Plan.Fails : Plan → Prop
  | .finish _ => False
  | .fail _ => True
  | .resolve _ _ next => ∀ result, (next result).Fails
  | .pushTimestampRequired _ next | .popTimestampRequired next => next.Fails
  | .inspect next => ∀ c, (next c).Fails

/-- A plan and what it is with the types that variables have in the end. They ask for the same
expressions, and finish only where all of them are resolved. -/
inductive Plan.Repeats (b : BindTable) (N : Node → Prop) : Plan → Plan → Prop
  | finish (schema : Schema) : Repeats b N (.finish schema) (.finish schema)
  | fail (e : ResolveError) (plan : Plan) : Repeats b N (.fail e) plan
  | resolve {n : Node} {schema : Schema} {next next' : Except ResolveError Evaluator → Plan}
      (hnodes : ∀ m ∈ n.postorder, N m)
      (hnext : ∀ e, Repeats b N (next (.ok e)) (next' (.ok (e.typedBy b))))
      (hfails : ∀ e, (next (.error e)).Fails) :
      Repeats b N (.resolve n schema next) (.resolve n schema next')
  | pushTimestampRequired (required : Bool) {next next' : Plan} (hnext : Repeats b N next next') :
      Repeats b N (.pushTimestampRequired required next) (.pushTimestampRequired required next')
  | popTimestampRequired {next next' : Plan} (hnext : Repeats b N next next') :
      Repeats b N (.popTimestampRequired next) (.popTimestampRequired next')
  | inspect {next next' : Context → Plan}
      (hnext : ∀ c, Repeats b N (next c) (next' (c.withTable b))) :
      Repeats b N (.inspect next) (.inspect next')

/-- A plan that resolves expressions one after another is the same with any types. -/
theorem Plan.repeats_ofExpressions {b : BindTable} {N : Node → Prop} (schema : Schema)
    {ns : List Node} (h : ∀ n ∈ ns, ∀ m ∈ n.postorder, N m) :
    (ofExpressions schema ns).Repeats b N (ofExpressions schema ns) := by
  induction ns with
  | nil => exact .finish schema
  | cons n ns ih =>
    obtain ⟨hn, hns⟩ := List.forall_mem_cons.mp h
    exact .resolve hn (fun _ => ih hns) fun _ => trivial

/-- A link that is made agrees with the table in the end, and is made against it with the type that
it has there. -/
theorem Link.ofNode_typedBy {b : BindTable} {c : Context} {span : Span} {token : String}
    {e : Evaluator} (hbinds : c.binds.isSome = true) (hsettles : c.table.Settles b)
    (hnamed : ∀ name, linked? token = some (.named name) → ∃ v, b.lookup? (.named name) = some v ∧
      c.table.lookup? (.named name) = some v)
    (htyped : ∀ x, linked? token = some x → ∀ type, b.type? x = some type → type.isUndefined = false)
    (h : ofNode c span token = .ok e) :
    e.AgreesWith b ∧ ofNode (c.withTable b) span token = .ok (e.typedBy b) := by
  obtain ⟨x, hx, rfl⟩ := ofNode_ok h
  constructor
  · cases x with
    | slot i =>
      cases hentry : c.table.lookup? (.slot i) with
      | none =>
        refine .inr ⟨i, ?_, htyped (.slot i) hx⟩
        rw [BindTable.type?, hentry]
        rfl
      | some v =>
        have hkept : b.lookup? (.slot i) = some v := hsettles.slot? i v hentry
        have htype : b.type? (.slot i) = some v.type := by
          rw [BindTable.type?, hkept, Option.map_some]
        rw [BindTable.type?, hentry, Option.map_some, Option.getD_some]
        exact .inl (.link (.slot i) htype (htyped (.slot i) hx _ htype))
    | named name =>
      obtain ⟨v, hb, hc⟩ := hnamed name hx
      have htype : b.type? (.named name) = some v.type := by
        rw [BindTable.type?, hb, Option.map_some]
      rw [BindTable.type?, hc, Option.map_some, Option.getD_some]
      exact .inl (.link (.named name) htype (htyped (.named name) hx _ htype))
  · have hbinds' : (c.withTable b).binds.isSome = true := by
      rw [Context.isSome_binds_of_frame (c.frame_withTable b), hbinds]
    have hagain := ofNode_of_linked? hx hbinds' ?_ span
    · rw [hagain, Evaluator.typedBy_link, Context.table_withTable hbinds]
    · rintro name rfl
      obtain ⟨v, hb, -⟩ := hnamed name hx
      rw [Context.table_withTable hbinds, BindTable.namedType?, show b.named? name = some v from hb]
      rfl

namespace Resolver

variable {r : Resolver} {inner : List Compiler}

theorem schemaOf_ne_ok_of_fails {resolve : Node → Schema → Recursive Evaluator} {plan : Plan}
    (h : plan.Fails) (s : Effects) (schema : Schema) :
    (schemaOf resolve plan s).1 ≠ .ok schema := by
  induction plan generalizing s with
  | finish => exact absurd h id
  | fail e => exact fun herror => by cases herror
  | resolve n records next ih =>
    rcases hresult : resolve n records s with ⟨_ | e, mid⟩
    · rw [schemaOf_resolve_of_error hresult]
      exact ih _ (h _) _
    · rw [schemaOf_resolve hresult]
      exact ih _ (h _) _
  | pushTimestampRequired required next ih =>
    rw [schemaOf, bind_of_ok (modify_apply ..)]
    exact ih h _
  | popTimestampRequired next ih =>
    rw [schemaOf, bind_of_ok (modify_apply ..)]
    exact ih h _
  | inspect next ih =>
    rw [schemaOf, bind_of_ok (get_apply s)]
    exact ih _ (h _) _

/-- The cursor of a query whose plan is followed. -/
theorem cursorOf_apply (resolve : Node → Schema → Recursive Evaluator) (compiler : Compiler)
    (text : String) (s : Effects) :
    cursorOf resolve compiler text s =
      let (schema, t) := schemaOf resolve (compiler text) (s.openQuery text)
      (schema.map .cursor, t.popTimestampRequired) := by
  rcases hplan : schemaOf resolve (compiler text) (s.openQuery text) with ⟨schema, t⟩
  have hcapture : Recursive.capture (schemaOf resolve (compiler text)) (s.openQuery text) =
      (.ok schema, t) := by
    rw [Recursive.capture, hplan]
  unfold cursorOf
  rw [bind_of_ok (modify_apply ..), bind_of_ok (modify_apply ..)]
  change (Recursive.capture (schemaOf resolve (compiler text)) >>= _) (s.openQuery text) = _
  rw [bind_of_ok hcapture, bind_of_ok (modify_apply ..)]
  cases schema <;> rfl

/-- What two resolutions start from, the second with the types that a table has in the end. The
nodes of the trees have a property. -/
structure Begins (r : Resolver) (b : BindTable) (N : Node → Prop) (calls : List Site)
    (s s' : Effects) : Prop where
  links : r.catalog.MakesUpNoLinks r.settings
  reads : r.catalog.ReadsValues r.settings
  named : ∀ n, N n → n.NamedIn b s.context
  typed : ∀ n, N n → ∀ x, n.Links x → ∀ type, b.type? x = some type → type.isUndefined = false
  steady : ∀ σ ∈ calls, ∀ e ∈ σ.args.evaluators, e.Steady
  binds : s.context.binds.isSome = true
  again : s'.context = s.context.withTable b

namespace Begins

variable {b : BindTable} {N : Node → Prop} {calls calls' : List Site} {s s' t t' : Effects}

theorem mono (h : r.Begins b N calls s s') (hcalls : calls' ⊆ calls) : r.Begins b N calls' s s' :=
  ⟨h.links, h.reads, h.named, h.typed, fun σ hσ => h.steady σ (hcalls hσ), h.binds, h.again⟩

/-- Both go on from where they have come to. -/
theorem advance (h : r.Begins b N calls s s') (hadvances : s.context.Advances t.context)
    (hagain : t'.context = t.context.withTable b) : r.Begins b N calls t t' :=
  ⟨h.links, h.reads, fun n hn => (h.named n hn).advances hadvances, h.typed, h.steady,
    hadvances.binds h.binds, hagain⟩

end Begins

/-- A query node that is resolved is so again call after call, up to the first that goes to another
overload. -/
def RepeatsQueries (r : Resolver) (b : BindTable) (N : Node → Prop) (compilers : List Compiler) :
    Prop :=
  ∀ n s t s' e, r.Begins b N (r.sitesOfQuery compilers n s) s s' →
    r.queryOf compilers n s = (.ok e, t) → t.context.table.Settles b →
      e.linked? = none ∧
        Again r b (r.sitesOfQuery compilers n s) (r.sitesOfQuery compilers n s')
          (∃ t', r.queryOf compilers n s' = (.ok e, t') ∧ t'.context = t.context.withTable b)

section Run

variable {b : BindTable} {N : Node → Prop}

/-- A call is made again with the same outcome, or it goes to another overload. -/
theorem again_call {n : Node} {args : Args} {c c' : Context} {e : Evaluator}
    (hlinks : r.catalog.MakesUpNoLinks r.settings) (hreads : r.catalog.ReadsValues r.settings)
    (h : r.catalog.resolve r.settings n.token n.span args c = (.ok e, c'))
    (hsettles : c'.table.Settles b) (hbinds : c.binds.isSome = true)
    (hagree : ∀ e ∈ args.evaluators, e.AgreesWith b)
    (hsteady : ∀ e ∈ args.evaluators, e.Steady) :
    e.AgreesWith b ∧
      Again r b [⟨n, args, c⟩] [⟨n, args.typedBy b, c.withTable b⟩]
        (r.catalog.resolve r.settings n.token n.span (args.typedBy b) (c.withTable b) =
          (.ok (e.typedBy b), c'.withTable b)) := by
  obtain ⟨hagrees, hagain⟩ :=
    Catalog.resolve_typedBy hlinks hreads hbinds hagree hsteady h hsettles
  refine ⟨hagrees, ?_⟩
  by_cases hchoice : r.choice? ⟨n, args.typedBy b, c.withTable b⟩ = r.choice? ⟨n, args, c⟩
  · refine .same (fun σ hσ => ?_) rfl (hagain hchoice)
    rw [List.mem_singleton.mp hσ]
    exact hchoice
  · refine .differs (i := 0) rfl rfl ?_ hchoice
    by_contra huntyped
    refine hchoice (Catalog.choice?_typedBy hbinds (fun e he => ?_) h ?_)
    · obtain htyped | ⟨slot, rfl, -⟩ := hagree e he
      · exact htyped
      · exact absurd ⟨slot, he⟩ huntyped
    · have hkept := r.catalog.settles_resolve r.settings n.token n.span args c
      rw [h] at hkept
      exact (hkept.trans hsettles).sameValues

/-- A call without arguments is made again. -/
theorem again_emptyCall {n : Node} {s t s' : Effects} {e : Evaluator}
    (hbegins : r.Begins b N [⟨n, .empty, s.context⟩] s s')
    (h : Recursive.ofResolution (r.catalog.resolve r.settings n.token n.span .empty) s = (.ok e, t))
    (hsettles : t.context.table.Settles b) :
    e.AgreesWith b ∧
      Again r b [⟨n, .empty, s.context⟩] [⟨n, .empty, s'.context⟩]
        (∃ t', Recursive.ofResolution (r.catalog.resolve r.settings n.token n.span .empty) s' =
          (.ok (e.typedBy b), t') ∧ t'.context = t.context.withTable b) := by
  obtain ⟨hagrees, hagain⟩ :=
    again_call hbegins.links hbegins.reads (Recursive.ofResolution_ok h) hsettles hbegins.binds
      (fun _ he => absurd he List.not_mem_nil) (fun _ he => absurd he List.not_mem_nil)
  rw [hbegins.again]
  refine ⟨hagrees, hagain.mono fun hresolve => ⟨_, Recursive.ofResolution_of_ok ?_, rfl⟩⟩
  rw [hbegins.again]
  exact hresolve

/-- A node without arguments is resolved again. -/
theorem again_leafOf (hqueries : r.RepeatsQueries b N inner) {schema : Schema} {n : Node} (hn : N n)
    (hargs : n.args = []) {s t s' : Effects} {e : Evaluator}
    (hbegins : r.Begins b N (sitesOfLeaf (r.sitesOfQuery inner) n s) s s')
    (h : r.leafOf (r.queryOf inner) schema n s = (.ok e, t))
    (hsettles : t.context.table.Settles b) :
    e.AgreesWith b ∧
      Again r b (sitesOfLeaf (r.sitesOfQuery inner) n s) (sitesOfLeaf (r.sitesOfQuery inner) n s')
        (∃ t', r.leafOf (r.queryOf inner) schema n s' = (.ok (e.typedBy b), t') ∧
          t'.context = t.context.withTable b) := by
  have hnone : ∀ {P : Prop}, P → Again r b [] [] P :=
    fun hP => .same (fun _ hσ => absurd hσ List.not_mem_nil) rfl hP
  -- What makes no call and has no effect answers the same whatever the table is.
  have hfixed : e.linked? = none → t = s →
      r.leafOf (r.queryOf inner) schema n s' = (.ok e, s') →
      e.AgreesWith b ∧ Again r b [] []
        (∃ t', r.leafOf (r.queryOf inner) schema n s' = (.ok (e.typedBy b), t') ∧
          t'.context = t.context.withTable b) := by
    rintro hlinked rfl hleaf
    refine ⟨.inl (.other hlinked), hnone ⟨s', ?_, hbegins.again⟩⟩
    rw [Evaluator.typedBy_of_linked? hlinked]
    exact hleaf
  unfold leafOf at h hfixed ⊢
  unfold sitesOfLeaf at hbegins ⊢
  cases hkind : n.kind with
  | column =>
    simp only [hkind, liftExcept_apply] at h hfixed ⊢
    obtain ⟨hreference, rfl⟩ := Prod.mk.inj h
    refine hfixed ?_ rfl (by rw [hreference])
    obtain hliteral | ⟨i, label, rfl, -⟩ := Schema.reference_ok hreference
    · exact Evaluator.linked?_of_isLiteral hliteral
    · rfl
  | constant =>
    simp only [hkind, liftExcept_apply] at h hfixed ⊢
    obtain ⟨hparse, rfl⟩ := Prod.mk.inj h
    refine hfixed ?_ rfl (by rw [hparse])
    exact Evaluator.linked?_of_isLiteral (Literal.isLiteral_of_parse hparse)
  | bindVariable =>
    simp only [hkind] at h ⊢
    rw [bind_of_ok (get_apply s), liftExcept_apply] at h
    obtain ⟨hlink, rfl⟩ := Prod.mk.inj h
    have hnamed : ∀ name, Link.linked? n.token = some (.named name) → ∃ v,
        b.lookup? (.named name) = some v ∧ s.context.table.lookup? (.named name) = some v := by
      intro name hname
      obtain ⟨v, -, hlookup⟩ := hbegins.named n hn name ⟨hargs, hkind, hname⟩
      exact ⟨v, hlookup⟩
    obtain ⟨hagrees, hagain⟩ := Link.ofNode_typedBy hbegins.binds hsettles hnamed
      (fun x hx => hbegins.typed n hn x ⟨hargs, hkind, hx⟩) hlink
    refine ⟨hagrees, hnone ⟨s', ?_, hbegins.again⟩⟩
    rw [bind_of_ok (get_apply s'), liftExcept_apply, hbegins.again, hagain]
  | memberAccess =>
    simp only [hkind] at h hfixed ⊢
    cases h
    exact hfixed rfl rfl rfl
  | query =>
    simp only [hkind] at h hbegins ⊢
    obtain ⟨hlinked, hagain⟩ := hqueries n s t s' e hbegins h hsettles
    rw [Evaluator.typedBy_of_linked? hlinked]
    exact ⟨.inl (.other hlinked), hagain⟩
  | function =>
    simp only [hkind] at h hbegins ⊢
    exact again_emptyCall hbegins h hsettles
  | operation =>
    simp only [hkind] at h hbegins ⊢
    exact again_emptyCall hbegins h hsettles

/-- A call is made again after its arguments were. -/
theorem again_callOf {n : Node} {es : List Evaluator} {s t s' : Effects} {e : Evaluator}
    (hlinks : r.catalog.MakesUpNoLinks r.settings) (hreads : r.catalog.ReadsValues r.settings)
    (hbinds : s.context.binds.isSome = true) (hagree : ∀ e ∈ es, e.AgreesWith b)
    (hsteady : ∀ e ∈ es, e.Steady) (h : r.callOf n es s = (.ok e, t))
    (hsettles : t.context.table.Settles b) (hagain : s'.context = s.context.withTable b) :
    e.AgreesWith b ∧
      Again r b [⟨n, ⟨es, n.args.map (·.span)⟩, s.context⟩]
        [⟨n, ⟨es.map (Evaluator.typedBy b), n.args.map (·.span)⟩, s'.context⟩]
        (∃ t', r.callOf n (es.map (Evaluator.typedBy b)) s' = (.ok (e.typedBy b), t') ∧
          t'.context = t.context.withTable b) := by
  obtain ⟨hlast, hresolve⟩ := callOf_ok h
  obtain ⟨hagrees, hcall⟩ :=
    again_call hlinks hreads hresolve hsettles hbinds hagree hsteady
  rw [hagain]
  refine ⟨hagrees, hcall.mono fun hresolve' => ?_⟩
  have hlast' : (Args.mk (es.map (Evaluator.typedBy b)) (n.args.map (·.span))).lastAggregate? =
      none := by
    rw [← hlast]
    refine Args.lastAggregate?_congr _ ?_
    rw [List.map_map]
    exact List.map_congr_left fun e _ => e.kind_typedBy b
  unfold callOf
  rw [hlast']
  rw [← hagain] at hresolve'
  exact ⟨_, Recursive.ofResolution_of_ok hresolve', rfl⟩

mutual

/-- A tree is resolved again call after call, up to the first that goes to another overload. -/
theorem again_resolveTree (hqueries : r.RepeatsQueries b N inner) (schema : Schema) :
    (n : Node) → (∀ m ∈ n.postorder, N m) → {s t s' : Effects} → {e : Evaluator} →
      r.Begins b N (r.sitesOf (r.queryOf inner) (r.sitesOfQuery inner) schema n s) s s' →
      r.resolveTree (r.queryOf inner) schema n s = (.ok e, t) → t.context.table.Settles b →
        e.AgreesWith b ∧
          Again r b (r.sitesOf (r.queryOf inner) (r.sitesOfQuery inner) schema n s)
            (r.sitesOf (r.queryOf inner) (r.sitesOfQuery inner) schema n s')
            (∃ t', r.resolveTree (r.queryOf inner) schema n s' = (.ok (e.typedBy b), t') ∧
              t'.context = t.context.withTable b)
  | ⟨kind, token, span, [], text⟩, hnodes, s, t, s', e, hbegins, h, hsettles => by
    have hn := hnodes ⟨kind, token, span, [], text⟩ (by simp [Node.postorder])
    rw [resolveTree] at h
    simp only [resolveTree]
    rw [sitesOf] at hbegins ⊢
    rw [sitesOf]
    exact again_leafOf hqueries hn rfl hbegins h hsettles
  | ⟨kind, token, span, n :: ns, text⟩, hnodes, s, t, s', e, hbegins, h, hsettles => by
    rw [resolveTree] at h
    obtain ⟨es, mid, hes, hcall⟩ := exists_of_bind_ok h
    have hadvances := advances_resolveTrees hbegins.links hes
    have hmid : mid.context.table.Settles b := by
      have hkept := r.catalog.settles_resolve r.settings token span
        ⟨es, (n :: ns).map (·.span)⟩ mid.context
      rw [(callOf_ok hcall).2] at hkept
      exact hkept.trans hsettles
    have hnodes' : ∀ m ∈ Node.postorders (n :: ns), N m := by
      intro m hm
      refine hnodes m ?_
      rw [Node.postorder]
      exact List.mem_append_left _ hm
    rw [sitesOf, hes] at hbegins ⊢
    dsimp only at hbegins ⊢
    obtain ⟨hagree, hargs⟩ := again_resolveTrees hqueries schema (n :: ns) hnodes'
      (hbegins.mono (List.subset_append_left ..)) hes hmid
    have hsteady := hbegins.steady _ (List.mem_append_right _ List.mem_cons_self)
    have hnext := fun (mid' : Effects) (hmid' : mid'.context = mid.context.withTable b) =>
      again_callOf hbegins.links hbegins.reads (hadvances.binds hbegins.binds) hagree hsteady hcall
        hsettles hmid'
    refine ⟨(hnext ⟨mid.context.withTable b, []⟩ rfl).1, ?_⟩
    rw [sitesOf]
    refine hargs.append ?_
    rintro ⟨mid', hes', hmid'⟩
    rw [hes']
    refine (hnext mid' hmid').2.mono ?_
    rintro ⟨t', ht', hcontext⟩
    refine ⟨t', ?_, hcontext⟩
    rw [resolveTree, bind_of_ok hes', ht']

theorem again_resolveTrees (hqueries : r.RepeatsQueries b N inner) (schema : Schema) :
    (ns : List Node) → (∀ m ∈ Node.postorders ns, N m) → {s t s' : Effects} →
      {es : List Evaluator} →
      r.Begins b N (r.sitesOfAll (r.queryOf inner) (r.sitesOfQuery inner) schema ns s) s s' →
      r.resolveTrees (r.queryOf inner) schema ns s = (.ok es, t) → t.context.table.Settles b →
        (∀ e ∈ es, e.AgreesWith b) ∧
          Again r b (r.sitesOfAll (r.queryOf inner) (r.sitesOfQuery inner) schema ns s)
            (r.sitesOfAll (r.queryOf inner) (r.sitesOfQuery inner) schema ns s')
            (∃ t', r.resolveTrees (r.queryOf inner) schema ns s' =
              (.ok (es.map (Evaluator.typedBy b)), t') ∧ t'.context = t.context.withTable b)
  | [], _, s, t, s', es, hbegins, h, hsettles => by
    rw [resolveTrees] at h
    cases h
    rw [sitesOfAll, sitesOfAll]
    refine ⟨fun _ he => absurd he List.not_mem_nil, ?_⟩
    refine .same (fun _ hσ => absurd hσ List.not_mem_nil) rfl ⟨s', ?_, hbegins.again⟩
    rw [resolveTrees]
    rfl
  | n :: ns, hnodes, s, t, s', es, hbegins, h, hsettles => by
    rw [resolveTrees] at h
    obtain ⟨e, mid, he, hrest⟩ := exists_of_bind_ok h
    obtain ⟨es, last, hes, hpure⟩ := exists_of_bind_ok hrest
    cases hpure
    have hadvances := advances_resolveTree hbegins.links he
    have hmid : mid.context.table.Settles b :=
      (advances_resolveTrees hbegins.links hes).settles.trans hsettles
    rw [Node.postorders] at hnodes
    have hhead : ∀ m ∈ n.postorder, N m := fun m hm => hnodes m (List.mem_append_left _ hm)
    have htail : ∀ m ∈ Node.postorders ns, N m := fun m hm => hnodes m (List.mem_append_right _ hm)
    rw [sitesOfAll, he] at hbegins ⊢
    dsimp only at hbegins ⊢
    obtain ⟨hagrees, hfirst⟩ := again_resolveTree hqueries schema n hhead
      (hbegins.mono (List.subset_append_left ..)) he hmid
    have hnext := fun (mid' : Effects) (hmid' : mid'.context = mid.context.withTable b) =>
      again_resolveTrees hqueries schema ns htail
        ((hbegins.mono (List.subset_append_right ..)).advance hadvances hmid') hes hsettles
    refine ⟨List.forall_mem_cons.mpr ⟨hagrees, (hnext ⟨mid.context.withTable b, []⟩ rfl).1⟩, ?_⟩
    rw [sitesOfAll]
    refine hfirst.append ?_
    rintro ⟨mid', he', hmid'⟩
    rw [he']
    refine (hnext mid' hmid').2.mono ?_
    rintro ⟨t', ht', hcontext⟩
    refine ⟨t', ?_, hcontext⟩
    rw [resolveTrees, bind_of_ok he', bind_of_ok ht']
    rfl

end

/-- A plan is followed again expression after expression, where each expression is resolved again. -/
theorem again_schemaOf {resolve : Node → Schema → Recursive Evaluator}
    {inNode : Node → Schema → Effects → List Site}
    (hadvances : ∀ n schema (s : Effects), s.context.Advances (resolve n schema s).2.context)
    (hresolve : ∀ n schema s t s' e, (∀ m ∈ n.postorder, N m) →
      r.Begins b N (inNode n schema s) s s' → resolve n schema s = (.ok e, t) →
      t.context.table.Settles b →
        Again r b (inNode n schema s) (inNode n schema s')
          (∃ t', resolve n schema s' = (.ok (e.typedBy b), t') ∧
            t'.context = t.context.withTable b))
    {plan plan' : Plan} (hplan : plan.Repeats b N plan') {s t s' : Effects} {records : Schema}
    (hbegins : r.Begins b N (sitesOfPlan resolve inNode plan s) s s')
    (h : schemaOf resolve plan s = (.ok records, t)) (hsettles : t.context.table.Settles b) :
    Again r b (sitesOfPlan resolve inNode plan s) (sitesOfPlan resolve inNode plan' s')
      (∃ t', schemaOf resolve plan' s' = (.ok records, t') ∧
        t'.context = t.context.withTable b) := by
  induction hplan generalizing s s' with
  | finish schema =>
    cases h
    refine .same (fun _ hσ => absurd hσ List.not_mem_nil) rfl ⟨s', rfl, hbegins.again⟩
  | fail e plan => cases h
  | @resolve n schema next next' hnodes hnext hfails ih =>
    have hadvance := hadvances n schema s
    rcases hresult : resolve n schema s with ⟨error | e, mid⟩
    · rw [schemaOf_resolve_of_error hresult] at h
      exact absurd (congrArg Prod.fst h) (schemaOf_ne_ok_of_fails (hfails error) mid records)
    · rw [hresult] at hadvance
      rw [schemaOf_resolve hresult] at h
      have hrest := advances_schemaOf hadvances (next (.ok e)) (mid.note (.resolved e))
      rw [h] at hrest
      rw [sitesOfPlan, hresult] at hbegins ⊢
      dsimp only at hbegins ⊢
      have hfirst := hresolve n schema s mid s' e hnodes
        (hbegins.mono (List.subset_append_left ..)) hresult (hrest.settles.trans hsettles)
      rw [sitesOfPlan]
      refine hfirst.append ?_
      rintro ⟨mid', hresult', hmid'⟩
      rw [hresult']
      dsimp only
      rw [schemaOf_resolve hresult']
      exact ih e ((hbegins.mono (List.subset_append_right ..)).advance hadvance hmid') h
  | @pushTimestampRequired required next next' hnext ih =>
    rw [schemaOf, bind_of_ok (modify_apply ..)] at h
    rw [sitesOfPlan] at hbegins ⊢
    rw [sitesOfPlan, schemaOf, bind_of_ok (modify_apply ..)]
    refine ih (hbegins.advance (s.context.advances_pushTimestampRequired required) ?_) h
    exact congrArg (·.pushTimestampRequired required) hbegins.again
  | @popTimestampRequired next next' hnext ih =>
    rw [schemaOf, bind_of_ok (modify_apply ..)] at h
    rw [sitesOfPlan] at hbegins ⊢
    rw [sitesOfPlan, schemaOf, bind_of_ok (modify_apply ..)]
    refine ih (hbegins.advance s.context.advances_popTimestampRequired ?_) h
    exact congrArg (·.popTimestampRequired) hbegins.again
  | @inspect next next' hnext ih =>
    rw [schemaOf, bind_of_ok (get_apply s)] at h
    rw [sitesOfPlan] at hbegins ⊢
    rw [sitesOfPlan, schemaOf, bind_of_ok (get_apply s'), hbegins.again]
    exact ih s.context hbegins h

/-- Queries are resolved again where the plans of their compilers are the same with the types that
variables have in the end. -/
theorem repeatsQueries_of_plans {compilers : List Compiler}
    (hplans : ∀ compiler ∈ compilers, ∀ text, (compiler text).Repeats b N (compiler text)) :
    r.RepeatsQueries b N compilers := by
  induction compilers with
  | nil =>
    intro n s t s' e _ h _
    cases h
  | cons compiler inner ih =>
    have hinner := ih fun compiler hmem => hplans compiler (List.mem_cons_of_mem _ hmem)
    intro n s t s' e hbegins h hsettles
    rw [queryOf] at h
    rw [sitesOfQuery] at hbegins ⊢
    rw [sitesOfQuery, queryOf]
    cases htext : n.query with
    | none =>
      rw [htext] at h
      cases h
    | some text =>
      rw [htext] at h hbegins
      dsimp only at h hbegins ⊢
      rw [cursorOf_apply] at h
      rcases hplan : schemaOf (fun n schema => r.resolveTree (r.queryOf inner) schema n)
        (compiler text) (s.openQuery text) with ⟨error | records, mid⟩
      · rw [hplan] at h
        cases h
      · rw [hplan] at h
        cases h
        refine ⟨rfl, ?_⟩
        have hopened : (s'.openQuery text).context =
            (s.openQuery text).context.withTable b :=
          congrArg (·.pushTimestampRequired false) hbegins.again
        have hfollowed := again_schemaOf
          (fun n schema s => advances_resolveTree hbegins.links rfl)
          (fun n schema s t s' e hnodes hbegins h hsettles =>
            (again_resolveTree hinner schema n hnodes hbegins h hsettles).2)
          (hplans compiler List.mem_cons_self text)
          (hbegins.advance (s.context.advances_pushTimestampRequired false) hopened) hplan hsettles
        refine hfollowed.mono ?_
        rintro ⟨mid', hplan', hmid'⟩
        refine ⟨mid'.popTimestampRequired, ?_, congrArg (·.popTimestampRequired) hmid'⟩
        rw [cursorOf_apply, hplan']
        rfl

end Run

end Resolver

/-- A function of three parameters. What it answers tells its signature. -/
def ternary (signature : String) (first second third : ColumnType) : Overload :=
  ⟨⟨"f", [⟨first, false⟩, ⟨second, false⟩, ⟨third, false⟩], none⟩,
    { (default : Factory) with
      signature := signature
      build := fun _ args _ _ => .ok (some
        (.custom ⟨signature, .long, .none, .scalar, fun _ _ => .null⟩ 0 args.evaluators)) }⟩

/-- Two functions of one name. -/
def rivals : Resolver :=
  ⟨⟨[("f", [ternary "f(string, int, double)" .string .int .double,
    ternary "f(string, long, short)" .string .long .short])], []⟩, .default, []⟩

/-- A schema of an INT and a BYTE. -/
def rivalSchema : Schema := .ofColumns [.plain "i" .int, .plain "b" .byte]

/-- The tree of `f($1, i, b)`, or of `f($1, i, i)`. -/
def rivalTree (column : String) : Node :=
  ⟨.function, "f", ⟨0, 1⟩, [⟨.bindVariable, "$1", ⟨2, 2⟩, [], none⟩,
    ⟨.column, "i", ⟨6, 1⟩, [], none⟩, ⟨.column, column, ⟨9, 1⟩, [], none⟩], none⟩

/-- What a call of one of the functions comes to. -/
def rivalCall (signature : String) (third : Evaluator) : Evaluator :=
  .custom ⟨signature, .long, .none, .scalar, fun _ _ => .null⟩ 0
    [.slotLink 0 .string, .column 0 .int "i", third]

/-- A context with a STRING in its first slot. -/
def firstText : Context := (Context.fresh 0).withTable (.define .empty 0 .string)

theorem exists_of_rivals {name : String} {overloads : List Overload} {o : Overload}
    (hname : rivals.catalog.overloads? name = some overloads) (ho : o ∈ overloads) :
    ∃ first second third signature, o = ternary signature first second third := by
  unfold Catalog.overloads? rivals at hname
  rw [List.lookup_cons] at hname
  split at hname
  · cases hname
    obtain rfl | ho := List.mem_cons.mp ho
    · exact ⟨_, _, _, _, rfl⟩
    · rw [List.mem_singleton.mp ho]
      exact ⟨_, _, _, _, rfl⟩
  · cases hname

theorem makesUpNoLinks_rivals : rivals.catalog.MakesUpNoLinks rivals.settings := by
  intro name overloads hname o ho span args context e hbuild
  obtain ⟨first, second, third, signature, rfl⟩ := exists_of_rivals hname ho
  cases hbuild
  exact .inl rfl

theorem readsValues_rivals : rivals.catalog.ReadsValues rivals.settings := by
  intro name overloads hname o ho span args context b _
  obtain ⟨first, second, third, signature, rfl⟩ := exists_of_rivals hname ho
  rfl

namespace Resolver

end Resolver
end SqlResolution
