import SqlResolution.Proofs.Walk.Settling

/-!
# What a resolution makes of the context

While a tree is resolved the variables of the bind table keep their values and their types, also where
the resolution fails, and where a query is compiled.
-/
namespace SqlResolution

open Steps

/-- What a resolution of a tree makes of the context: variables keep their values and types. -/
structure Context.Advances (c c' : Context) : Prop where
  binds : c.binds.isSome = true → c'.binds.isSome = true
  settles : c.table.Settles c'.table
  lookup? : ∀ x v, c.table.lookup? x = some v → v.IsTyped → c'.table.lookup? x = some v

theorem Context.Advances.refl (c : Context) : c.Advances c :=
  ⟨id, .refl _, fun _ _ h _ => h⟩

theorem Context.Advances.trans {c c' c'' : Context} (h : c.Advances c') (h' : c'.Advances c'') :
    c.Advances c'' :=
  ⟨h'.binds ∘ h.binds, h.settles.trans h'.settles, fun x v hx hv =>
    h'.lookup? x v (h.lookup? x v hx hv) hv⟩

theorem Context.advances_pushTimestampRequired (c : Context) (required : Bool) :
    c.Advances (c.pushTimestampRequired required) :=
  ⟨id, .refl _, fun _ _ h _ => h⟩

theorem Context.advances_popTimestampRequired (c : Context) : c.Advances c.popTimestampRequired :=
  ⟨id, .refl _, fun _ _ h _ => h⟩

theorem Context.withTable_table (c : Context) (hbinds : c.binds.isSome = true) :
    c.withTable c.table = c := by
  obtain ⟨binds, _⟩ := c
  cases binds with
  | none => cases hbinds
  | some b => rfl

/-- There is a bind table, whatever is given to whom. -/
theorem maintained_binds :
    Maintained (fun c => c.binds.isSome = true) fun _ => True where
  literal _ := trivial
  evalConstant _ _ _ := trivial
  assignType := by
    intro c e e' b' type hI _ _ _
    refine ⟨trivial, ?_⟩
    rw [← hI]
    exact Context.isSome_binds_of_frame (c.frame_withTable b')
  adapt _ _ := trivial

theorem Catalog.settles_resolve (c : Catalog) (settings : Settings) (name : String) (span : Span)
    (args : Args) (context : Context) :
    context.table.Settles (c.resolve settings name span args context).2.table := by
  refine ((maintained_settles context.table).resolve (P := fun _ => True) (fun _ _ => trivial)
    ?_ (fun _ _ => trivial) (.refl _)).1
  exact fun _ _ _ _ _ _ _ _ _ _ _ => trivial

/-- The table has a type for each named variable that a node stands for, and the context has it
too. -/
def Node.NamedIn (b : BindTable) (c : Context) (n : Node) : Prop :=
  ∀ name, n.Links (.named name) →
    ∃ v : BindVariable, v.IsTyped ∧ b.lookup? (.named name) = some v ∧
      c.table.lookup? (.named name) = some v

theorem Node.NamedIn.advances {b : BindTable} {c c' : Context} {n : Node} (h : n.NamedIn b c)
    (hadvances : c.Advances c') : n.NamedIn b c' := by
  intro name hlinks
  obtain ⟨v, hv, hb, hc⟩ := h name hlinks
  exact ⟨v, hv, hb, hadvances.lookup? _ v hc hv⟩

namespace Resolver

variable {r : Resolver} {compilers : List Compiler}

theorem maintains_binds (r : Resolver) :
    r.Maintains (fun c => c.binds.isSome = true) (fun _ => True) fun _ _ => True where
  arguments _ := maintained_binds
  pushTimestampRequired _ hI := hI
  popTimestampRequired hI := hI
  column _ := trivial
  link _ _ _ _ _ := trivial
  cursor _ _ := trivial
  overloads _ _ _ _ _ _ _ _ _ _ _ _ _ := trivial

/-- What keeps all that a resolver maintains at every node advances the context. -/
theorem advances_of_maintained (hlinks : r.catalog.MakesUpNoLinks r.settings) {c c' : Context}
    (h : ∀ I N J, r.Maintains I N J → (∀ n, N n) → I c → I c') : c.Advances c' where
  binds := h _ _ _ r.maintains_binds fun _ => trivial
  settles := h _ _ _ (r.maintains_settles c.table) (fun _ => trivial) (.refl _)
  lookup? x v hx hv := h _ _ _ (maintains_spares hlinks x (some v)) (fun _ => .inl ⟨v, rfl, hv⟩) hx

theorem advances_resolveTree (hlinks : r.catalog.MakesUpNoLinks r.settings) {schema : Schema}
    {n : Node} {s t : Effects} {result : Except ResolveError Evaluator}
    (h : r.resolveTree (r.queryOf compilers) schema n s = (result, t)) :
    s.context.Advances t.context := by
  refine advances_of_maintained hlinks fun I N J hmaintains hN hI => ?_
  have hkept : I (r.resolveTree (r.queryOf compilers) schema n s).2.context :=
    hmaintains.resolveTree (fun _ _ _ => (Plan.asks_true _).mono fun n _ => hN n) schema n
      (fun n _ => hN n) hI
  rwa [h] at hkept

theorem advances_resolveTrees (hlinks : r.catalog.MakesUpNoLinks r.settings) {schema : Schema}
    {ns : List Node} {s t : Effects} {result : Except ResolveError (List Evaluator)}
    (h : r.resolveTrees (r.queryOf compilers) schema ns s = (result, t)) :
    s.context.Advances t.context := by
  refine advances_of_maintained hlinks fun I N J hmaintains hN hI => ?_
  have hkept : I (r.resolveTrees (r.queryOf compilers) schema ns s).2.context :=
    hmaintains.resolveTrees (fun _ _ _ => (Plan.asks_true _).mono fun n _ => hN n) schema ns
      (fun n _ => hN n) hI
  rwa [h] at hkept

section Plans

variable {resolve : Node → Schema → Recursive Evaluator} {n : Node} {schema : Schema}
  {next : Except ResolveError Evaluator → Plan} {s t : Effects}

theorem schemaOf_resolve {e : Evaluator} (h : resolve n schema s = (.ok e, t)) :
    schemaOf resolve (.resolve n schema next) s =
      schemaOf resolve (next (.ok e)) (t.note (.resolved e)) := by
  have hcapture : Recursive.capture (resolve n schema) s = (.ok (.ok e), t) := by
    rw [Recursive.capture, h]
  rw [schemaOf, bind_of_ok hcapture]
  rfl

theorem schemaOf_resolve_of_error {e : ResolveError} (h : resolve n schema s = (.error e, t)) :
    schemaOf resolve (.resolve n schema next) s = schemaOf resolve (next (.error e)) t := by
  have hcapture : Recursive.capture (resolve n schema) s = (.ok (.error e), t) := by
    rw [Recursive.capture, h]
  rw [schemaOf, bind_of_ok hcapture]

/-- A plan advances the context as the expressions do that it asks for. -/
theorem advances_schemaOf
    (hresolve : ∀ n schema (s : Effects), s.context.Advances (resolve n schema s).2.context) (plan : Plan)
    (s : Effects) : s.context.Advances (schemaOf resolve plan s).2.context := by
  induction plan generalizing s with
  | finish schema => exact .refl _
  | fail e => exact .refl _
  | resolve n schema next ih =>
    have hadvances := hresolve n schema s
    rcases hresult : resolve n schema s with ⟨_ | e, mid⟩
    · rw [hresult] at hadvances
      rw [schemaOf_resolve_of_error hresult]
      exact hadvances.trans (ih _ mid)
    · rw [hresult] at hadvances
      rw [schemaOf_resolve hresult]
      exact hadvances.trans (ih _ (mid.note (.resolved e)))
  | pushTimestampRequired required next ih =>
    rw [schemaOf, bind_of_ok (modify_apply ..)]
    exact (s.context.advances_pushTimestampRequired required).trans
      (ih (s.pushTimestampRequired required))
  | popTimestampRequired next ih =>
    rw [schemaOf, bind_of_ok (modify_apply ..)]
    exact s.context.advances_popTimestampRequired.trans (ih s.popTimestampRequired)
  | inspect next ih =>
    rw [schemaOf, bind_of_ok (get_apply s)]
    exact ih s.context s

end Plans

end Resolver
end SqlResolution
