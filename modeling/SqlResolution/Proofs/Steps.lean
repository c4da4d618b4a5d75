import SqlResolution.Context

/-!
# Running steps

Resolution and walks are steps over a state that may fail and keep the state they had. Running a
sequence of steps runs the first and then, unless it failed, the rest.
-/
namespace SqlResolution.Steps

variable {ε σ τ α β : Type}

theorem bind_apply (x : ExceptT ε (StateM σ) α) (f : α → ExceptT ε (StateM σ) β) (s : σ) :
    (x >>= f) s =
      match x s with
      | (.ok a, s) => f a s
      | (.error e, s) => (.error e, s) := by
  change (match x s with | (a, s) => ExceptT.bindCont f a s) = _
  rcases x s with ⟨_ | _, _⟩ <;> rfl

theorem bind_of_ok {x : ExceptT ε (StateM σ) α} {s s' : σ} {a : α} (h : x s = (.ok a, s'))
    (f : α → ExceptT ε (StateM σ) β) : (x >>= f) s = f a s' := by
  rw [bind_apply, h]

theorem bind_of_error {x : ExceptT ε (StateM σ) α} {s s' : σ} {e : ε} (h : x s = (.error e, s'))
    (f : α → ExceptT ε (StateM σ) β) : (x >>= f) s = (.error e, s') := by
  rw [bind_apply, h]

/-- A sequence that succeeds has run each of its steps. -/
theorem exists_of_bind_ok {x : ExceptT ε (StateM σ) α} {f : α → ExceptT ε (StateM σ) β} {s u : σ}
    {b : β} (h : (x >>= f) s = (.ok b, u)) : ∃ a t, x s = (.ok a, t) ∧ f a t = (.ok b, u) := by
  rcases hx : x s with ⟨e | a, t⟩
  · rw [bind_of_error hx] at h
    cases h
  · rw [bind_of_ok hx] at h
    exact ⟨a, t, rfl, h⟩

/-- A sequence that fails has failed at its first step, or after it. -/
theorem cases_of_bind_error {x : ExceptT ε (StateM σ) α} {f : α → ExceptT ε (StateM σ) β} {s u : σ}
    {e : ε} (h : (x >>= f) s = (.error e, u)) :
    x s = (.error e, u) ∨ ∃ a t, x s = (.ok a, t) ∧ f a t = (.error e, u) := by
  rcases hx : x s with ⟨e' | a, t⟩
  · rw [bind_of_error hx] at h
    cases h
    exact .inl rfl
  · rw [bind_of_ok hx] at h
    exact .inr ⟨a, t, rfl, h⟩

theorem exists_of_map_ok {x : Except ε α} {f : α → β} {b : β} (h : x.map f = .ok b) :
    ∃ a, x = .ok a ∧ f a = b := by
  cases x with
  | error e => cases h
  | ok a => exact ⟨a, rfl, Except.ok.inj h⟩

theorem error_of_map {x : Except ε α} {f : α → β} {e : ε} (h : x.map f = .error e) :
    x = .error e := by
  cases x with
  | error e' => exact congrArg Except.error (Except.error.inj h)
  | ok a => cases h

@[simp] theorem pure_apply (a : α) (s : σ) :
    (pure a : ExceptT ε (StateM σ) α) s = (.ok a, s) := rfl

@[simp] theorem get_apply (s : σ) : (get : ExceptT ε (StateM σ) σ) s = (.ok s, s) := rfl

@[simp] theorem set_apply (s t : σ) :
    (set t : ExceptT ε (StateM σ) PUnit) s = (.ok ⟨⟩, t) := rfl

@[simp] theorem modify_apply (f : σ → σ) (s : σ) :
    (modify f : ExceptT ε (StateM σ) PUnit) s = (.ok ⟨⟩, f s) := rfl

@[simp] theorem liftExcept_apply (x : Except ε α) (s : σ) :
    (liftExcept x : ExceptT ε (StateM σ) α) s = (x, s) := by
  cases x <;> rfl

@[simp] theorem liftM_apply (x : Except ε α) (s : σ) :
    (liftM x : ExceptT ε (StateM σ) α) s = (x, s) := rfl

/-- A step leaves what a view shows of the state as it was, also where it fails. -/
def Keeps (view : σ → τ) (step : ExceptT ε (StateM σ) α) : Prop := ∀ s, view (step s).2 = view s

namespace Keeps

variable {view : σ → τ}

theorem pure (a : α) : Keeps view (Pure.pure a : ExceptT ε (StateM σ) α) := fun _ => rfl

theorem throw (e : ε) : Keeps view (throw e : ExceptT ε (StateM σ) α) := fun _ => rfl

theorem get : Keeps view (get : ExceptT ε (StateM σ) σ) := fun _ => rfl

theorem liftM (x : Except ε α) : Keeps view (liftM x : ExceptT ε (StateM σ) α) := fun _ => rfl

theorem liftExcept (x : Except ε α) : Keeps view (liftExcept x : ExceptT ε (StateM σ) α) := by
  intro s
  rw [liftExcept_apply]

theorem modify {f : σ → σ} (hf : ∀ s, view (f s) = view s) :
    Keeps view (modify f : ExceptT ε (StateM σ) PUnit) := hf

theorem bind {x : ExceptT ε (StateM σ) α} {f : α → ExceptT ε (StateM σ) β} (hx : Keeps view x)
    (hf : ∀ a, Keeps view (f a)) : Keeps view (x >>= f) := by
  intro s
  have hkept := hx s
  rcases hrun : x s with ⟨e | a, t⟩
  · rw [bind_of_error hrun]
    rwa [hrun] at hkept
  · rw [bind_of_ok hrun, hf a t]
    rwa [hrun] at hkept

theorem forM {visit : α → ExceptT ε (StateM σ) PUnit} (hvisit : ∀ a, Keeps view (visit a))
    (as : List α) : Keeps view (ForM.forM as visit) := by
  induction as with
  | nil => exact pure _
  | cons a as ih =>
    rw [List.forM_cons]
    exact bind (hvisit a) fun _ => ih

end Keeps

/-- A step answers alike before and after a change of the state, which it carries along. -/
def Commutes (f : σ → σ) (step : ExceptT ε (StateM σ) α) : Prop :=
  ∀ s, step (f s) = ((step s).1, f (step s).2)

namespace Commutes

variable {f : σ → σ}

theorem pure (a : α) : Commutes f (Pure.pure a : ExceptT ε (StateM σ) α) := fun _ => rfl

theorem throw (e : ε) : Commutes f (throw e : ExceptT ε (StateM σ) α) := fun _ => rfl

theorem liftExcept (x : Except ε α) : Commutes f (liftExcept x : ExceptT ε (StateM σ) α) := by
  intro s
  rw [liftExcept_apply, liftExcept_apply]

theorem modify {g : σ → σ} (hg : ∀ s, g (f s) = f (g s)) :
    Commutes f (modify g : ExceptT ε (StateM σ) PUnit) := by
  intro s
  rw [modify_apply, modify_apply, hg]

theorem bind {x : ExceptT ε (StateM σ) α} {k : α → ExceptT ε (StateM σ) β} (hx : Commutes f x)
    (hk : ∀ a, Commutes f (k a)) : Commutes f (x >>= k) := by
  intro s
  have hrun := hx s
  rcases hresult : x s with ⟨e | a, t⟩
  · rw [hresult] at hrun
    rw [bind_of_error hrun, bind_of_error hresult]
  · rw [hresult] at hrun
    rw [bind_of_ok hrun, bind_of_ok hresult, hk a t]

/-- A step may read what the change leaves alone. -/
theorem bind_get {k : σ → ExceptT ε (StateM σ) β} (hread : ∀ s, k (f s) = k s)
    (hk : ∀ s, Commutes f (k s)) : Commutes f (get >>= k) := by
  intro s
  rw [bind_of_ok (get_apply (f s)), bind_of_ok (get_apply s), hread, hk s s]

end Commutes
end SqlResolution.Steps
