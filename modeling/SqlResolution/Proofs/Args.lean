import Mathlib.Data.List.Basic
import SqlResolution.Args

/-!
# Arguments and their positions over time

Arguments are pushed with their positions, replaced and changed, in any order. Each evaluator is
traced to the push that brought it, or the one that it took the place of. The evaluators stay in the
order of these pushes, so they stand beside their own positions as long as there are as many of them
as of positions. Only a change that fails takes an evaluator out and leaves its position.
-/
namespace SqlResolution

/-- What is done with an argument list. -/
inductive ArgsEvent (ε : Type) where
  | push (e : Evaluator) (position : Span)
  | replace (i : Nat) (e : Evaluator)
  | mapAt (i : Nat) (change : Evaluator → Span → Except ε Evaluator)
  /-- Something is asked of the list, which changes nothing. -/
  | read

/-- The position that an event brings. -/
def ArgsEvent.position? {ε : Type} : ArgsEvent ε → Option Span
  | push _ position => some position
  | replace _ _ | mapAt _ _ | read => none

/-- An argument list, and for each evaluator the number of pushes before the one that brought it. -/
structure TracedArgs where
  args : Args
  origins : List Nat

namespace TracedArgs

variable {ε : Type}

def start : TracedArgs := ⟨.empty, []⟩

/-- What an event answers. Only a change may fail. -/
def answer (s : TracedArgs) : ArgsEvent ε → Except ε Unit
  | .mapAt i change => (s.args.mapAt i change).1
  | .push _ _ | .replace _ _ | .read => .ok ()

def step (s : TracedArgs) : ArgsEvent ε → TracedArgs
  | .push e position => ⟨s.args.push e position, s.origins ++ [s.args.positions.length]⟩
  | .replace i e => ⟨(s.args.replace? i e).2, s.origins⟩
  | .mapAt i change =>
    match s.args.mapAt i change with
    | (.ok (), args) => ⟨args, s.origins⟩
    | (.error _, args) => ⟨args, s.origins.eraseIdx i⟩
  | .read => s

def run (s : TracedArgs) (events : List (ArgsEvent ε)) : TracedArgs := events.foldl step s

/-- The failures of events one after another. -/
def errors (s : TracedArgs) : List (ArgsEvent ε) → List ε
  | [] => []
  | event :: events =>
    match s.answer event with
    | .ok () => (s.step event).errors events
    | .error error => error :: (s.step event).errors events

/-- As many evaluators as positions, and each evaluator beside the position it was pushed with. -/
structure Paired (s : TracedArgs) : Prop where
  size : s.args.evaluators.length = s.args.positions.length
  origin : ∀ j k : Nat, s.origins[j]? = some k → k = j

/-- The evaluators are in the order of their pushes, each of which brought a position. -/
structure Ordered (s : TracedArgs) : Prop where
  length : s.origins.length = s.args.size
  increasing : s.origins.Pairwise (· < ·)
  pushed : ∀ k ∈ s.origins, k < s.args.positions.length

/-- What an event can do: it leaves every evaluator at its place, or pushes one, or takes one out. -/
inductive Move (s : TracedArgs) : ArgsEvent ε → Except ε Unit → TracedArgs → Prop
  | keep {event : ArgsEvent ε} {args : Args} (size : args.size = s.args.size)
      (positions : args.positions = s.args.positions) (silent : event.position? = none) :
      Move s event (.ok ()) ⟨args, s.origins⟩
  | push (e : Evaluator) (position : Span) :
      Move s (.push e position) (.ok ())
        ⟨s.args.push e position, s.origins ++ [s.args.positions.length]⟩
  | lose {i : Nat} {change : Evaluator → Span → Except ε Evaluator} {error : ε}
      (lt : i < s.args.size) :
      Move s (.mapAt i change) (.error error)
        ⟨⟨s.args.evaluators.eraseIdx i, s.args.positions⟩, s.origins.eraseIdx i⟩

variable {s s' : TracedArgs} {event : ArgsEvent ε} {result : Except ε Unit}

theorem move (s : TracedArgs) (event : ArgsEvent ε) : s.Move event (s.answer event) (s.step event) := by
  cases event with
  | push e position => exact .push e position
  | replace i e => exact .keep (Args.size_set ..) rfl rfl
  | read => exact .keep rfl rfl rfl
  | mapAt i change =>
    cases he : s.args.get? i with
    | none =>
      simp only [answer, step, Args.mapAt, he]
      exact .keep rfl rfl rfl
    | some e =>
      cases hchange : change e (s.args.position i) with
      | ok r =>
        simp only [answer, step, Args.mapAt, he, hchange]
        exact .keep (Args.size_set ..) rfl rfl
      | error error =>
        simp only [answer, step, Args.mapAt, he, hchange]
        exact .lose (Args.lt_size_of_get? he)

theorem ordered_start : start.Ordered := ⟨rfl, .nil, fun k hk => by cases hk⟩

theorem Move.ordered (h : s.Move event result s') (hs : s.Ordered) : s'.Ordered := by
  cases h with
  | keep size positions _ =>
    exact ⟨hs.length.trans size.symm, hs.increasing, positions ▸ hs.pushed⟩
  | push e position =>
    refine ⟨?_, ?_, fun k hk => ?_⟩
    · rw [Args.size_push, List.length_append, hs.length]
      rfl
    · refine List.pairwise_append.mpr ⟨hs.increasing, List.pairwise_singleton .., fun k hk l hl => ?_⟩
      rw [List.mem_singleton.mp hl]
      exact hs.pushed k hk
    · change k < (s.args.positions ++ [position]).length
      rw [List.length_append, List.length_singleton]
      obtain hk | hk := List.mem_append.mp hk
      · exact Nat.lt_succ_of_lt (hs.pushed k hk)
      · rw [List.mem_singleton.mp hk]
        exact Nat.lt_succ_self _
  | @lose i _ _ lt =>
    refine ⟨?_, hs.increasing.eraseIdx i, fun k hk => hs.pushed k (List.mem_of_mem_eraseIdx hk)⟩
    change (s.origins.eraseIdx i).length = (s.args.evaluators.eraseIdx i).length
    rw [List.length_eraseIdx_of_lt (hs.length.symm ▸ lt), List.length_eraseIdx_of_lt lt, hs.length]
    rfl

theorem Ordered.run (hs : s.Ordered) (events : List (ArgsEvent ε)) : (s.run events).Ordered := by
  induction events generalizing s with
  | nil => exact hs
  | cons event events ih => exact ih ((s.move event).ordered hs)

/-! ### How many evaluators there are -/

theorem errors_append (s : TracedArgs) (before after : List (ArgsEvent ε)) :
    s.errors (before ++ after) = s.errors before ++ (s.run before).errors after := by
  induction before generalizing s with
  | nil => rfl
  | cons event before ih =>
    rw [List.cons_append, errors, errors, run, List.foldl_cons]
    cases s.answer event with
    | ok => exact ih (s.step event)
    | error error => rw [ih (s.step event), List.cons_append]; rfl

/-- The positions are those that were pushed. -/
theorem positions_run (s : TracedArgs) (events : List (ArgsEvent ε)) :
    (s.run events).args.positions = s.args.positions ++ events.filterMap ArgsEvent.position? := by
  induction events generalizing s with
  | nil => exact (List.append_nil _).symm
  | cons event events ih =>
    refine (ih (s.step event)).trans ?_
    have hmove := s.move event
    generalize s.step event = s' at hmove ⊢
    generalize s.answer event = result at hmove
    cases hmove with
    | keep _ positions silent => rw [positions, List.filterMap_cons_none silent]
    | push e position =>
      rw [List.filterMap_cons_some (f := ArgsEvent.position?) rfl]
      exact (List.append_cons ..).symm
    | lose => rw [List.filterMap_cons_none rfl]

/-- Each failure takes one evaluator out. -/
theorem size_run (s : TracedArgs) (events : List (ArgsEvent ε)) :
    (s.run events).args.size + (s.errors events).length + s.args.positions.length =
      s.args.size + (s.run events).args.positions.length := by
  induction events generalizing s with
  | nil => rfl
  | cons event events ih =>
    have hrest := ih (s.step event)
    have hmove := s.move event
    rw [errors]
    change ((s.step event).run events).args.size + _ + _ =
      s.args.size + ((s.step event).run events).args.positions.length
    generalize s.answer event = result at hmove ⊢
    generalize s.step event = s' at hmove hrest ⊢
    cases hmove with
    | keep size positions _ =>
      rw [size, positions] at hrest
      exact hrest
    | push e position =>
      have hpositions : (s.args.push e position).positions.length =
          s.args.positions.length + 1 := List.length_append
      rw [Args.size_push, hpositions] at hrest
      dsimp only
      omega
    | @lose i _ _ lt =>
      have hsize : (Args.mk (s.args.evaluators.eraseIdx i) s.args.positions).size =
          s.args.size - 1 := List.length_eraseIdx_of_lt lt
      rw [hsize] at hrest
      simp only [List.length_cons]
      dsimp only at hrest
      omega

/-! ### Where they stand -/

/-- Numbers in order, as many as there are between two bounds, are all of these. -/
theorem eq_range'_of_increasing {l : List Nat} {a : Nat} (h : l.Pairwise (· < ·))
    (hle : ∀ k ∈ l, a ≤ k) (hlt : ∀ k ∈ l, k < a + l.length) : l = List.range' a l.length := by
  induction l generalizing a with
  | nil => rfl
  | cons k l ih =>
    obtain ⟨hk, hl⟩ := List.pairwise_cons.mp h
    have hak := hle k List.mem_cons_self
    have hrest : l = List.range' (a + 1) l.length := by
      refine ih hl (fun m hm => ?_) fun m hm => ?_
      · have := hk m hm
        omega
      · have := hlt m (List.mem_cons_of_mem k hm)
        rw [List.length_cons] at this
        omega
    have hka : k = a := by
      cases l with
      | nil =>
        have := hlt k List.mem_cons_self
        simp at this
        omega
      | cons m l =>
        rw [List.length_cons, List.range'_succ] at hrest
        have := hk m List.mem_cons_self
        have := (List.cons.inj hrest).1
        omega
    rw [List.length_cons, List.range'_succ, ← hrest, hka]

theorem Ordered.paired_iff (hs : s.Ordered) :
    s.Paired ↔ s.args.size = s.args.positions.length := by
  refine ⟨fun h => h.size, fun hsize => ⟨hsize, fun j k hk => ?_⟩⟩
  have hall : s.origins = List.range' 0 s.origins.length := by
    refine eq_range'_of_increasing hs.increasing (fun k _ => Nat.zero_le k) fun k hk => ?_
    rw [hs.length, hsize, Nat.zero_add]
    exact hs.pushed k hk
  obtain ⟨hj, -⟩ := List.getElem?_eq_some_iff.mp hk
  rw [hall, List.getElem?_range' hj] at hk
  have := Option.some.inj hk
  omega

/-- A change that fails leaves every other evaluator at its place only where it was the last's. -/
theorem Ordered.unmoved_iff (hs : s.Ordered) {i : Nat}
    {change : Evaluator → Span → Except ε Evaluator} {error : ε}
    (hfail : s.answer (.mapAt i change) = .error error) :
    (∀ j k : Nat, j ≠ i → s.origins[j]? = some k →
      (s.step (.mapAt i change)).origins[j]? = some k) ↔ i + 1 = s.args.size := by
  have hmove := s.move (.mapAt i change)
  rw [hfail] at hmove
  generalize s.step (.mapAt i change) = s' at hmove ⊢
  cases hmove with
  | lose lt =>
    constructor
    · intro hunmoved
      by_contra hlast
      have hlt : i + 1 < s.origins.length := by
        rw [hs.length]
        omega
      have hnext := hunmoved (i + 1) _ (Nat.succ_ne_self i) (List.getElem?_eq_getElem hlt)
      rw [List.getElem?_eraseIdx_of_ge (Nat.le_add_right i 1)] at hnext
      obtain ⟨hlt', heq⟩ := List.getElem?_eq_some_iff.mp hnext
      have hless := List.pairwise_iff_getElem.mp hs.increasing (i + 1) (i + 1 + 1) hlt hlt'
        (Nat.lt_succ_self _)
      omega
    · intro hlast j k hne hk
      obtain ⟨hj, -⟩ := List.getElem?_eq_some_iff.mp hk
      rw [hs.length] at hj
      rw [List.getElem?_eraseIdx_of_lt (by omega)]
      exact hk

/-- After any events, the positions are those that were pushed, and each change that failed has taken
one evaluator out. So there are as many evaluators as positions all along, each beside its own,
exactly where no change fails. One that fails moves the arguments behind it. -/
theorem paired_iff_of_run (events : List (ArgsEvent ε)) :
    let s := start.run events
    s.args.positions = events.filterMap ArgsEvent.position? ∧
      s.args.size + (start.errors events).length = s.args.positions.length ∧
      ((∀ before, before <+: events → (start.run before).Paired) ↔ start.errors events = []) ∧
      ∀ i (change : Evaluator → Span → Except ε Evaluator) error,
        s.answer (.mapAt i change) = .error error →
        ((∀ j k : Nat, j ≠ i → s.origins[j]? = some k →
          (s.step (.mapAt i change)).origins[j]? = some k) ↔ i + 1 = s.args.size) := by
  intro s
  have hordered : ∀ events : List (ArgsEvent ε), (start.run events).Ordered := ordered_start.run
  have hsize : ∀ events : List (ArgsEvent ε), (start.run events).args.size +
      (start.errors events).length = (start.run events).args.positions.length := by
    intro events
    simpa [start, Args.empty, Args.size] using size_run start events
  refine ⟨positions_run start events, hsize events, ⟨fun hpaired => ?_, fun herrors => ?_⟩,
    fun i change error => (hordered events).unmoved_iff⟩
  · have hall := (hpaired events List.prefix_rfl).size
    have hcount := hsize events
    rw [Args.size, hall] at hcount
    exact List.eq_nil_of_length_eq_zero (by omega)
  · rintro before ⟨after, rfl⟩
    rw [errors_append] at herrors
    have hcount := hsize before
    rw [(List.append_eq_nil_iff.mp herrors).1] at hcount
    exact (hordered before).paired_iff.mpr hcount

/-- Two arguments, the first of which is then changed without success. -/
def failedChange : List (ArgsEvent Unit) :=
  [.push (.constant .int (.int 1)) ⟨10, 0⟩, .push (.constant .string (.str "a")) ⟨11, 0⟩,
    .mapAt 0 fun _ _ => .error ()]

/-- One evaluator is left of two, and a change of it that fails would move no other. -/
theorem paired_iff_of_run_failedChange :
    let s := start.run failedChange
    s.args.positions = [⟨10, 0⟩, ⟨11, 0⟩] ∧ s.args.size + 1 = s.args.positions.length ∧
      ¬(∀ before, before <+: failedChange → (start.run before).Paired) ∧
      s.answer (.mapAt 0 fun _ _ => .error ()) = .error () ∧
      ∀ j k : Nat, j ≠ 0 → s.origins[j]? = some k →
        (s.step (.mapAt 0 fun _ _ => (.error () : Except Unit Evaluator))).origins[j]? = some k := by
  intro s
  obtain ⟨hpositions, hsize, hpaired, hunmoved⟩ := paired_iff_of_run failedChange
  have herrors : start.errors failedChange = [()] := rfl
  rw [herrors] at hsize hpaired
  exact ⟨hpositions, hsize, fun h => List.cons_ne_nil _ _ (hpaired.mp h), rfl,
    (hunmoved 0 _ () rfl).mpr rfl⟩

/-- After a change that fails, the second argument stands at the position of the first. -/
theorem not_paired_of_failedChange :
    ¬∀ events : List (ArgsEvent Unit), (start.run events).Paired := by
  intro h
  have horigins : (start.run failedChange).origins[0]? = some 1 := rfl
  cases (h failedChange).origin 0 1 horigins

end TracedArgs
end SqlResolution
