import Mathlib.Data.List.Induction
import SqlResolution.Proofs.Evaluator.Inputs

/-!
# Results kept for a row

An evaluator that keeps results evaluates its inner evaluator anew on a row without an identity, and
on one with another identity than the latest row that had one. On the other rows it yields what it
yielded when it was last evaluated anew on a row with the identity. So it cannot be told from its
inner evaluator where that is a function of the row and identities tell rows apart.
-/
namespace SqlResolution

namespace Input

variable {past : List Input} {input : Input}

/-- The identity of the latest row that has one. -/
def latestId? (past : List Input) : Option Int64 :=
  ((past.map (·.row.id)).filter (0 ≤ ·)).getLast?

/-- Whether an input is evaluated anew after others: its row has no identity, or another one than
the latest row that has one. -/
def Anew (past : List Input) (input : Input) : Prop :=
  input.row.id < 0 ∨ latestId? past ≠ some input.row.id

instance (past : List Input) (input : Input) : Decidable (Anew past input) :=
  inferInstanceAs (Decidable (_ ∨ _))

/-- The inputs that are evaluated anew, when all of them come in turn after others. -/
def anewAfter (past : List Input) : List Input → List Input
  | [] => []
  | input :: inputs =>
    let rest := anewAfter (past ++ [input]) inputs
    if Anew past input then input :: rest else rest

/-- The inputs that are evaluated anew, when all of them come in turn. -/
def anew (inputs : List Input) : List Input := anewAfter [] inputs

theorem latestId?_concat (past : List Input) (input : Input) :
    latestId? (past ++ [input]) =
      if 0 ≤ input.row.id then some input.row.id else latestId? past := by
  by_cases hid : 0 ≤ input.row.id <;> simp [latestId?, hid]

theorem not_anew_iff :
    ¬Anew past input ↔ 0 ≤ input.row.id ∧ latestId? past = some input.row.id := by
  simp [Anew, Int64.not_lt]

theorem anewAfter_append (past inputs rest : List Input) :
    anewAfter past (inputs ++ rest) =
      anewAfter past inputs ++ anewAfter (past ++ inputs) rest := by
  induction inputs generalizing past with
  | nil => simp [anewAfter]
  | cons input inputs ih => by_cases hanew : Anew past input <;> simp [anewAfter, hanew, ih]

theorem anew_concat (past : List Input) (input : Input) :
    anew (past ++ [input]) = if Anew past input then anew past ++ [input] else anew past := by
  by_cases hanew : Anew past input <;> simp [anew, anewAfter_append, anewAfter, hanew]

theorem mem_of_mem_anew (h : input ∈ anew past) : input ∈ past := by
  induction past using List.reverseRecOn with
  | nil => cases h
  | append_singleton past last ih =>
    rw [anew_concat] at h
    split at h <;> grind

end Input

namespace Evaluator

open Input

variable {inner e : Evaluator} {past : List Input} {input : Input} {id : Int64} {v : Value}
  {cache : Option (Int64 × Value)}

/-- What is kept for an identity after some inputs: the result of the evaluation on a row with the
identity after which no row had another one. -/
def Keeps (inner : Evaluator) (past : List Input) (id : Int64) (v : Value) : Prop :=
  ∃ earlier filling between, past = earlier ++ filling :: between ∧ Anew earlier filling ∧
    filling.row.id = id ∧ (∀ input ∈ between, input.row.id < 0 ∨ input.row.id = id) ∧
    v = (inner.after (anew earlier)).valueOn filling

theorem Keeps.concat (h : inner.Keeps past id v) (hinput : input.row.id < 0 ∨ input.row.id = id) :
    inner.Keeps (past ++ [input]) id v := by
  obtain ⟨earlier, filling, between, rfl, hanew, hid, hbetween, hv⟩ := h
  refine ⟨earlier, filling, between ++ [input], by simp, hanew, hid, ?_, hv⟩
  simpa [or_imp, forall_and] using ⟨hbetween, hinput⟩

/-- A cache holds the identity of the latest row that has one, with the result that is kept. -/
structure Holds (inner : Evaluator) (past : List Input) (cache : Option (Int64 × Value)) :
    Prop where
  id : cache.map (·.1) = latestId? past
  keeps : ∀ {id v}, cache = some (id, v) → inner.Keeps past id v

theorem eval_memo_of_kept (hid : 0 ≤ input.row.id) :
    (memo (some (input.row.id, v)) e).eval input.table input.row =
      (v, memo (some (input.row.id, v)) e) := by
  simp [eval, hid, Option.filter]

theorem eval_memo_of_anew (hcache : cache.map (·.1) = latestId? past) (hanew : Anew past input) :
    (memo cache e).eval input.table input.row =
      (e.valueOn input, memo
        (if 0 ≤ input.row.id then some (input.row.id, e.valueOn input) else cache)
        (e.after [input])) := by
  have hunused : (cache.filter fun kept => 0 ≤ input.row.id && kept.1 == input.row.id) = none := by
    rw [Option.filter_eq_none_iff]
    rintro ⟨id, v⟩ rfl
    rw [Anew, ← hcache, Option.map_some, ne_eq, Option.some_inj] at hanew
    rcases hanew with hneg | hne
    · simp [Int64.not_le.mpr hneg]
    · simp [hne]
  rw [eval, hunused]
  rfl

namespace Holds

/-- An evaluation on a row with an identity is kept, and any other leaves what was kept before. -/
theorem anew (h : inner.Holds past cache) (hanew : Anew past input) :
    inner.Holds (past ++ [input])
      (if 0 ≤ input.row.id then some (input.row.id, (inner.after (Input.anew past)).valueOn input)
        else cache) := by
  by_cases hid : 0 ≤ input.row.id
  · refine ⟨by simp [latestId?_concat, hid], fun {id v} hcache => ?_⟩
    obtain ⟨rfl, rfl⟩ : input.row.id = id ∧ (inner.after (Input.anew past)).valueOn input = v := by
      simpa [hid] using hcache
    exact ⟨past, input, [], rfl, hanew, rfl, by simp, rfl⟩
  · rw [if_neg hid]
    refine ⟨by rw [latestId?_concat, if_neg hid, h.id], fun hcache => ?_⟩
    exact (h.keeps hcache).concat (.inl (Int64.not_le.mp hid))

/-- What is not evaluated anew has the identity whose result is kept. -/
theorem exists_of_not_anew (h : inner.Holds past cache) (hkept : ¬Anew past input) :
    ∃ v, cache = some (input.row.id, v) ∧ 0 ≤ input.row.id := by
  obtain ⟨hid, hlatest⟩ := not_anew_iff.mp hkept
  obtain ⟨⟨id, v⟩, rfl, rfl⟩ := Option.map_eq_some_iff.mp (h.id.trans hlatest)
  exact ⟨v, rfl, hid⟩

theorem kept (h : inner.Holds past (some (input.row.id, v))) (hid : 0 ≤ input.row.id) :
    inner.Holds (past ++ [input]) (some (input.row.id, v)) := by
  refine ⟨by simp [latestId?_concat, hid], fun {id' v'} hcache => ?_⟩
  obtain ⟨rfl, rfl⟩ : input.row.id = id' ∧ v = v' := by simpa using hcache
  exact (h.keeps rfl).concat (.inr rfl)

end Holds

/-- The inner evaluator has been evaluated on the inputs that are evaluated anew, and on no others.
Whether one is evaluated anew shows in what is kept. -/
theorem exists_holds (inner : Evaluator) (past : List Input) :
    ∃ cache, inner.Holds past cache ∧
      (memo none inner).after past = memo cache (inner.after (anew past)) := by
  induction past using List.reverseRecOn with
  | nil => exact ⟨none, ⟨rfl, nofun⟩, rfl⟩
  | append_singleton past input ih =>
    obtain ⟨cache, hholds, hafter⟩ := ih
    rw [after_append, hafter, anew_concat]
    by_cases hanew : Anew past input
    · rw [if_pos hanew, after_append]
      exact ⟨_, hholds.anew hanew, congrArg Prod.snd (eval_memo_of_anew hholds.id hanew)⟩
    · rw [if_neg hanew]
      obtain ⟨v, rfl, hid⟩ := hholds.exists_of_not_anew hanew
      exact ⟨_, hholds.kept hid, congrArg Prod.snd (eval_memo_of_kept hid)⟩

/-- After any inputs, an evaluator that keeps results evaluates its inner evaluator on the next one
exactly where that is evaluated anew, and yields the inner evaluator's value. Otherwise it leaves
the inner evaluator alone and yields what is kept. -/
theorem memo_step (inner : Evaluator) (past : List Input) (input : Input) :
    let e := inner.after (anew past)
    ∃ cache cache', (memo none inner).after past = memo cache e ∧
      (memo none inner).after (past ++ [input]) =
        memo cache' (if Anew past input then e.after [input] else e) ∧
      (Anew past input → ((memo none inner).after past).valueOn input = e.valueOn input) ∧
      (¬Anew past input →
        inner.Keeps past input.row.id (((memo none inner).after past).valueOn input)) := by
  intro e
  obtain ⟨cache, hholds, hafter⟩ := inner.exists_holds past
  obtain ⟨cache', -, hnext⟩ := inner.exists_holds (past ++ [input])
  refine ⟨cache, cache', hafter, ?_, fun hanew => ?_, fun hkept => ?_⟩
  · rw [hnext, anew_concat]
    split
    · rw [after_append]
    · rfl
  · rw [hafter, valueOn, value, eval_memo_of_anew hholds.id hanew]
  · obtain ⟨v, rfl, hid⟩ := hholds.exists_of_not_anew hkept
    rw [hafter, valueOn, value, eval_memo_of_kept hid]
    exact hholds.keeps rfl

/-- A function of the row is not changed by keeping its results, where rows with the same identity
are the same. -/
theorem IsFunctionOn.valuesOn_memo {P : Input → Prop} {f : Row → Value}
    (h : inner.IsFunctionOn P f) {inputs : List Input} (hinputs : ∀ input ∈ inputs, P input)
    (hsame : ∀ i ∈ inputs, ∀ j ∈ inputs, 0 ≤ i.row.id → i.row.id = j.row.id → i.row = j.row) :
    (memo none inner).valuesOn inputs = inner.valuesOn inputs := by
  rw [h inputs hinputs]
  induction inputs using List.reverseRecOn with
  | nil => rfl
  | append_singleton past input ih =>
    have hpast : ∀ {i}, i ∈ past → i ∈ past ++ [input] := List.mem_append_left _
    have hrest := ih (fun i hi => hinputs i (hpast hi))
      fun i hi j hj => hsame i (hpast hi) j (hpast hj)
    have hlast : input ∈ past ++ [input] := by simp
    rw [valuesOn_append, hrest, List.map_append]
    suffices ((memo none inner).after past).valueOn input = f input.row by simp [valuesOn, this]
    obtain ⟨-, -, -, -, hanew, hkept⟩ := inner.memo_step past input
    by_cases hrun : Anew past input
    · rw [hanew hrun]
      exact (h.after fun i hi => hinputs i (hpast (mem_of_mem_anew hi))).valueOn
        (hinputs input hlast)
    · -- The evaluation that filled the cache was on the same row, since it had the same identity.
      obtain ⟨earlier, filling, between, rfl, -, hid, -, hvalue⟩ := hkept hrun
      have hfilling : filling ∈ (earlier ++ filling :: between) ++ [input] := by simp
      have hearlier : ∀ i ∈ Input.anew earlier, P i := fun i hi =>
        hinputs i (by simp [mem_of_mem_anew hi])
      have hrow := hsame input hlast filling hfilling (not_anew_iff.mp hrun).1 hid.symm
      rw [hvalue, (h.after hearlier).valueOn (hinputs filling hfilling), hrow]

/-- Keeping results is caching the latest row. After any inputs, the inner evaluator is evaluated on
the next one exactly where its row has no identity or another one than the latest row that has one,
and then its value is the result. Otherwise the result is that of the evaluation that filled the
cache. So no result differs where the inner evaluator is a function of the row and rows with the
same identity are the same. -/
theorem memo_keepsLatest (inner : Evaluator) :
    (∀ (past : List Input) (input : Input),
      let e := inner.after (anew past)
      ∃ cache cache', (memo none inner).after past = memo cache e ∧
        (memo none inner).after (past ++ [input]) =
          memo cache' (if Anew past input then e.after [input] else e) ∧
        (Anew past input → ((memo none inner).after past).valueOn input = e.valueOn input) ∧
        (¬Anew past input →
          inner.Keeps past input.row.id (((memo none inner).after past).valueOn input))) ∧
      ∀ (P : Input → Prop) (f : Row → Value) (inputs : List Input), inner.IsFunctionOn P f →
        (∀ input ∈ inputs, P input) →
        (∀ i ∈ inputs, ∀ j ∈ inputs, 0 ≤ i.row.id → i.row.id = j.row.id → i.row = j.row) →
        (memo none inner).valuesOn inputs = inner.valuesOn inputs :=
  ⟨inner.memo_step, fun _ _ _ hfunction hinputs hsame => hfunction.valuesOn_memo hinputs hsame⟩

/-- Yields the number of its evaluations. -/
def counter : Evaluator :=
  custom ⟨"counter", .int, { Traits.none with nonDeterministic := true, memoize := true }, .scalar,
    fun calls _ => .int (Int32.ofNat (calls + 1))⟩ 0 []

/-- A row that holds its identity. -/
def numbered (id : Int64) : Input := ⟨.empty, ⟨id, [.long id]⟩⟩

/-- After the rows `1`, `1` and `-1` a counter has been evaluated twice. The row `1` gets the first
of the two results, and the row `2` a third. The column of the identities is not changed. -/
theorem memo_keepsLatest_counter :
    let past : List Input := [1, 1, -1].map numbered
    let number : Evaluator := column 0 .long "n"
    ¬Anew past (numbered 1) ∧ counter.Keeps past 1 (.int 1) ∧
      ((memo none counter).after past).valueOn (numbered 1) = .int 1 ∧
      Anew past (numbered 2) ∧
      ((memo none counter).after past).valueOn (numbered 2) = .int 3 ∧
      number.IsFunctionOn (fun _ => True) (fun row => row.value 0) ∧
      (memo none number).valuesOn past = [.long 1, .long 1, .long (-1)] := by
  intro past number
  have hkept : ¬Anew past (numbered 1) := by decide
  have hanew : Anew past (numbered 2) := by decide
  have hnumber : number.IsFunctionOn (fun _ => True) fun row => row.value 0 :=
    isFunctionOn_column 0 .long "n"
  have hsame : ∀ i ∈ past, ∀ j ∈ past, 0 ≤ i.row.id → i.row.id = j.row.id → i.row = j.row := by
    intro i hi j hj _ hid
    obtain ⟨_, -, rfl⟩ := List.mem_map.mp hi
    obtain ⟨_, -, rfl⟩ := List.mem_map.mp hj
    exact congrArg (fun id => (numbered id).row) hid
  obtain ⟨-, -, -, -, -, hkeeps⟩ := (memo_keepsLatest counter).1 past (numbered 1)
  obtain ⟨-, -, -, -, hruns, -⟩ := (memo_keepsLatest counter).1 past (numbered 2)
  have hvalues := (memo_keepsLatest number).2 _ _ past hnumber (fun _ _ => trivial) hsame
  exact ⟨hkept, hkeeps hkept, rfl, hanew, hruns hanew, hnumber, hvalues⟩

end Evaluator
end SqlResolution
