import SqlResolution.Proofs.Steps

/-!
# Steps that do alike

Two steps do alike when related states lead them to the same error or to related answers, and leave
them in related states either way. A step that keeps an invariant does alike with itself.
-/
namespace SqlResolution.Steps

variable {ε α β γ δ σ τ : Type}

/-- The same error, or answers that are related. -/
inductive Outcome (R : α → β → Prop) : Except ε α → Except ε β → Prop
  | ok {a : α} {b : β} (related : R a b) : Outcome R (.ok a) (.ok b)
  | error (e : ε) : Outcome R (.error e) (.error e)

namespace Outcome

variable {R : α → β → Prop} {Q : γ → δ → Prop} {x : Except ε α} {y : Except ε β}

theorem mono {R' : α → β → Prop} (h : Outcome R x y) (hR : ∀ a b, R a b → R' a b) :
    Outcome R' x y := by
  cases h with
  | ok related => exact .ok (hR _ _ related)
  | error e => exact .error e

/-- A result is related to itself where its answer is. -/
theorem refl {R : α → α → Prop} {x : Except ε α} (h : ∀ a, x = .ok a → R a a) :
    Outcome R x x := by
  cases x with
  | error e => exact .error e
  | ok a => exact .ok (h a rfl)

theorem eq {x y : Except ε α} (h : Outcome (· = ·) x y) : x = y := by
  cases h with
  | ok related => rw [related]
  | error e => rfl

theorem bind {f : α → Except ε γ} {g : β → Except ε δ} (h : Outcome R x y)
    (hfg : ∀ a b, R a b → Outcome Q (f a) (g b)) : Outcome Q (x >>= f) (y >>= g) := by
  cases h with
  | ok related => exact hfg _ _ related
  | error e => exact .error e

theorem map {f : α → γ} {g : β → δ} (h : Outcome R x y) (hfg : ∀ a b, R a b → Q (f a) (g b)) :
    Outcome Q (x.map f) (y.map g) := by
  cases h with
  | ok related => exact .ok (hfg _ _ related)
  | error e => exact .error e

theorem ite {x' : Except ε α} {y' : Except ε β} {p : Bool} (h : p = true → Outcome R x y)
    (h' : p = false → Outcome R x' y') :
    Outcome R (if p then x else x') (if p then y else y') := by
  cases p with
  | true => exact h rfl
  | false => exact h' rfl

end Outcome

/-- Related states lead two steps to related results, and leave related states. -/
def Relates (S : σ → τ → Prop) (R : α → β → Prop) (x : ExceptT ε (StateM σ) α)
    (y : ExceptT ε (StateM τ) β) : Prop :=
  ∀ s t, S s t → Outcome R (x s).1 (y t).1 ∧ S (x s).2 (y t).2

namespace Relates

variable {S : σ → τ → Prop} {R : α → β → Prop} {Q : γ → δ → Prop}
  {x : ExceptT ε (StateM σ) α} {y : ExceptT ε (StateM τ) β}

theorem pure {a : α} {b : β} (h : R a b) :
    Relates S R (Pure.pure a : ExceptT ε (StateM σ) α)
      (Pure.pure b : ExceptT ε (StateM τ) β) :=
  fun _ _ hS => ⟨.ok h, hS⟩

theorem throw (e : ε) :
    Relates S R (throw e : ExceptT ε (StateM σ) α) (throw e : ExceptT ε (StateM τ) β) :=
  fun _ _ hS => ⟨.error e, hS⟩

theorem liftExcept {a : Except ε α} {b : Except ε β} (h : Outcome R a b) :
    Relates S R (liftExcept a : ExceptT ε (StateM σ) α)
      (liftExcept b : ExceptT ε (StateM τ) β) := by
  intro s t hS
  rw [liftExcept_apply, liftExcept_apply]
  exact ⟨h, hS⟩

theorem liftM {a : Except ε α} {b : Except ε β} (h : Outcome R a b) :
    Relates S R (liftM a : ExceptT ε (StateM σ) α) (liftM b : ExceptT ε (StateM τ) β) :=
  fun _ _ hS => ⟨h, hS⟩

theorem modify {f : σ → σ} {g : τ → τ} (h : ∀ s t, S s t → S (f s) (g t)) :
    Relates S (· = ·) (modify f : ExceptT ε (StateM σ) PUnit)
      (modify g : ExceptT ε (StateM τ) PUnit) :=
  fun s t hS => ⟨.ok rfl, h s t hS⟩

theorem bind {f : α → ExceptT ε (StateM σ) γ} {g : β → ExceptT ε (StateM τ) δ}
    (h : Relates S R x y) (hfg : ∀ a b, R a b → Relates S Q (f a) (g b)) :
    Relates S Q (x >>= f) (y >>= g) := by
  intro s t hS
  obtain ⟨hresult, hstate⟩ := h s t hS
  rcases hx : x s with ⟨result, s'⟩
  rcases hy : y t with ⟨result', t'⟩
  rw [hx, hy] at hresult hstate
  cases hresult with
  | ok related =>
    rw [bind_of_ok hx, bind_of_ok hy]
    exact hfg _ _ related s' t' hstate
  | error e =>
    rw [bind_of_error hx, bind_of_error hy]
    exact ⟨.error e, hstate⟩

theorem ite {x' : ExceptT ε (StateM σ) α} {y' : ExceptT ε (StateM τ) β} {p : Bool}
    (h : p = true → Relates S R x y) (h' : p = false → Relates S R x' y') :
    Relates S R (if p then x else x') (if p then y else y') := by
  cases p with
  | true => exact h rfl
  | false => exact h' rfl

/-- Steps that go on with the state they are in. -/
theorem bind_get {f : σ → ExceptT ε (StateM σ) γ} {g : τ → ExceptT ε (StateM τ) δ}
    (h : ∀ s t, S s t → Relates S Q (f s) (g t)) : Relates S Q (get >>= f) (get >>= g) := by
  intro s t hS
  rw [bind_of_ok (get_apply s), bind_of_ok (get_apply t)]
  exact h s t hS s t hS

end Relates

/-- A step keeps an invariant of the state, and what it answers has a property. -/
theorem relates_self_iff {I : σ → Prop} {P : α → Prop} {x : ExceptT ε (StateM σ) α} :
    Relates (fun s t => s = t ∧ I s) (fun a b => a = b ∧ P a) x x ↔
      ∀ s, I s → I (x s).2 ∧ ∀ a, (x s).1 = .ok a → P a := by
  constructor
  · intro h s hI
    obtain ⟨hresult, -, hstate⟩ := h s s ⟨rfl, hI⟩
    refine ⟨hstate, ?_⟩
    intro a ha
    rw [ha] at hresult
    cases hresult with
    | ok related => exact related.2
  · rintro h s t ⟨rfl, hI⟩
    obtain ⟨hstate, hresult⟩ := h s hI
    exact ⟨.refl fun a ha => ⟨rfl, hresult a ha⟩, rfl, hstate⟩

end SqlResolution.Steps
