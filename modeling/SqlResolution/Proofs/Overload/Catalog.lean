import Mathlib.Data.Finset.Card
import Mathlib.Data.List.Basic
import SqlResolution.Overload.Catalog
import SqlResolution.Proofs.Overload.Frame
import SqlResolution.Proofs.Text.LetterCase

/-!
# A catalog as a list of registrations

A catalog is filled by calls in any order: factories are registered, one by one or in batches, and
names are forbidden on the way. Whatever the calls were, the list of the overloads that registered
decides what the catalog answers. A call that fails adds nothing, but for the factories of a batch
that stand before the one that failed.
-/
namespace SqlResolution

/-- The name of a signature that is read is in small letters. -/
theorem Signature.lowerAscii_name_of_parse {text : String} {s : Signature} (h : parse text = .ok s) :
    Text.lowerAscii s.name = s.name := by
  obtain ⟨name, body, hframed⟩ | ⟨fault, hfault⟩ := framed_or_invalid text
  · rw [parse_of_framed hframed, Text.map_eq_ok_iff] at h
    obtain ⟨⟨ps, t⟩, -, rfl⟩ := h
    exact Text.lowerAscii_lowerAscii _
  · rw [hfault] at h
    cases h

namespace Catalog

/-! ### What is registered -/

/-- A name that may be registered while others are forbidden, in any case. -/
structure IsAllowed (forbidden : List String) (name : String) : Prop where
  ne_empty : name ≠ ""
  free : ∀ other ∈ forbidden, Text.eqIgnoringCase other name = false
  blank : ' ' ∉ name.toList
  quotes : '"' ∉ name.toList ∧ '\'' ∉ name.toList

instance (forbidden : List String) (name : String) : Decidable (IsAllowed forbidden name) :=
  decidable_of_iff (name ≠ "" ∧ (∀ other ∈ forbidden, Text.eqIgnoringCase other name = false) ∧
      ' ' ∉ name.toList ∧ '"' ∉ name.toList ∧ '\'' ∉ name.toList)
    ⟨fun ⟨hne, hfree, hblank, hquotes⟩ => ⟨hne, hfree, hblank, hquotes⟩,
      fun h => ⟨h.ne_empty, h.free, h.blank, h.quotes⟩⟩

/-- What becomes of a factory while names are forbidden: its overload, or why there is none. -/
def admission (forbidden : List String) (f : Factory) : Except RegistrationError Overload :=
  match Signature.parse f.signature with
  | .error error => .error error
  | .ok s =>
    if IsAllowed forbidden s.name then .ok ⟨s, f⟩ else .error (.invalidFunctionName s.name)

theorem admission_of_allowed {forbidden : List String} {f : Factory} {s : Signature}
    (h : Signature.parse f.signature = .ok s) (hname : IsAllowed forbidden s.name) :
    admission forbidden f = .ok ⟨s, f⟩ := by
  rw [admission, h]
  exact if_pos hname

theorem admission_of_not_allowed {forbidden : List String} {f : Factory} {s : Signature}
    (h : Signature.parse f.signature = .ok s) (hname : ¬IsAllowed forbidden s.name) :
    admission forbidden f = .error (.invalidFunctionName s.name) := by
  rw [admission, h]
  exact if_neg hname

/-- The overloads of factories up to the first that fails. -/
def admitted (forbidden : List String) : List Factory → List Overload
  | [] => []
  | f :: fs =>
    match admission forbidden f with
    | .ok o => o :: admitted forbidden fs
    | .error _ => []

namespace Builder

/-- A call on a catalog that is being filled. -/
inductive Call where
  | register (f : Factory)
  | registerAll (fs : List Factory)
  | addOperator (token : String)
  | forbid (name : String)

/-- The names that a call forbids. -/
def Call.forbids : Call → List String
  | .forbid name => [name]
  | .register _ | .registerAll _ | .addOperator _ => []

/-- The overloads that a call registers while names are forbidden. -/
def Call.admits (forbidden : List String) : Call → List Overload
  | .register f => admitted forbidden [f]
  | .registerAll fs => admitted forbidden fs
  | .addOperator _ | .forbid _ => []

/-- The builder after a call, and what the call answers. -/
def perform (b : Builder) : Call → Builder × Except RegistrationError Unit
  | .register f =>
    match b.register f with
    | .ok b => (b, .ok ())
    | .error error => (b, .error error)
  | .registerAll fs => b.registerAll fs
  | .addOperator token => (b.addOperator token, .ok ())
  | .forbid name => (b.forbid name, .ok ())

def run (b : Builder) (calls : List Call) : Builder := calls.foldl (fun b call => (b.perform call).1) b

end Builder

/-- The overloads that calls register one after another, from the names that are forbidden first. -/
def registrations (forbidden : List String) : List Builder.Call → List Overload
  | [] => []
  | call :: calls => call.admits forbidden ++ registrations (forbidden ++ call.forbids) calls

/-! ### Entries that group overloads by name -/

/-- Some overloads, where there are any. -/
def anyOf? (overloads : List Overload) : Option (List Overload) :=
  if overloads = [] then none else some overloads

theorem getD_anyOf? (overloads : List Overload) : (anyOf? overloads).getD [] = overloads := by
  unfold anyOf?
  split
  · rename_i hnil
    exact hnil.symm
  · rfl

theorem isSome_anyOf? (overloads : List Overload) :
    (anyOf? overloads).isSome = true ↔ overloads ≠ [] := by
  unfold anyOf?
  split <;> simp [*]

/-- Entries that have each name of a list of overloads once, with those of the name in order. -/
structure Groups (entries : List (String × List Overload)) (log : List Overload) : Prop where
  lookup : ∀ name, entries.lookup name = anyOf? (log.filter (·.signature.name == name))
  nodup : (entries.map (·.1)).Nodup
  sum_length : (entries.map (·.2.length)).sum = log.length
  lower : ∀ o ∈ log, Text.lowerAscii o.signature.name = o.signature.name

theorem groups_nil : Groups [] [] :=
  ⟨fun _ => rfl, List.nodup_nil, rfl, fun _ h => by cases h⟩

/-- The names of the entries are those of the overloads. -/
theorem Groups.mem_keys_iff {entries : List (String × List Overload)} {log : List Overload}
    (h : Groups entries log) (name : String) :
    name ∈ entries.map (·.1) ↔ ∃ o ∈ log, o.signature.name = name := by
  have hkeys : name ∈ entries.map (·.1) ↔ entries.lookup name ≠ none := by
    rw [Ne, List.lookup_eq_none_iff, List.mem_map]
    push Not
    refine exists_congr fun entry => and_congr_right fun _ => ?_
    rw [Ne, bne_iff_ne, not_not, eq_comm]
  have hfilter : log.filter (·.signature.name == name) ≠ [] ↔
      ∃ o ∈ log, o.signature.name = name := by
    simp [List.filter_eq_nil_iff]
  rw [hkeys, h.lookup, Option.ne_none_iff_isSome, isSome_anyOf?, hfilter]

namespace Builder

theorem keys_append (name : String) (o : Overload) (entries : List (String × List Overload)) :
    (append name o entries).map (·.1) =
      if name ∈ entries.map (·.1) then entries.map (·.1) else entries.map (·.1) ++ [name] := by
  induction entries with
  | nil => rfl
  | cons entry entries ih =>
    obtain ⟨key, os⟩ := entry
    rw [append]
    by_cases hkey : key = name
    · simp [hkey]
    · rw [if_neg (by simpa using hkey), List.map_cons, ih, List.map_cons]
      by_cases hmem : name ∈ entries.map (·.1)
      · rw [if_pos hmem, if_pos (List.mem_cons_of_mem key hmem)]
      · rw [if_neg hmem, if_neg (List.not_mem_cons_of_ne_of_not_mem (Ne.symm hkey) hmem)]
        rfl

theorem sum_length_append (name : String) (o : Overload)
    (entries : List (String × List Overload)) :
    ((append name o entries).map (·.2.length)).sum = (entries.map (·.2.length)).sum + 1 := by
  induction entries with
  | nil => rfl
  | cons entry entries ih =>
    rw [append]
    split
    · simp only [List.map_cons, List.sum_cons, List.length_append, List.length_singleton]
      omega
    · simp only [List.map_cons, List.sum_cons, ih]
      omega

end Builder

/-- An overload that comes last in the list comes last among those of its name. -/
theorem Groups.append {entries : List (String × List Overload)} {log : List Overload}
    {o : Overload} (h : Groups entries log)
    (hlower : Text.lowerAscii o.signature.name = o.signature.name) :
    Groups (Builder.append o.signature.name o entries) (log ++ [o]) where
  lookup name := by
    by_cases hname : o.signature.name = name
    · subst hname
      rw [Builder.lookup_append_self, h.lookup, getD_anyOf?, List.filter_append,
        List.filter_singleton, beq_self_eq_true, cond_true, anyOf?, if_neg (by simp)]
    · rw [Builder.lookup_append_of_ne (Ne.symm hname), h.lookup, List.filter_append,
        List.filter_singleton, beq_false_of_ne hname, cond_false, List.append_nil]
  nodup := by
    rw [Builder.keys_append]
    split
    · exact h.nodup
    · rename_i hnew
      rw [← List.concat_eq_append]
      exact h.nodup.concat hnew
  sum_length := by
    rw [Builder.sum_length_append, h.sum_length, List.length_append, List.length_singleton]
  lower p hp := by
    obtain hp | hp := List.mem_append.mp hp
    · exact h.lower p hp
    · rw [List.mem_singleton.mp hp, hlower]

/-! ### What a catalog answers -/

/-- A catalog answers as the list of its overloads does. -/
structure Lists (cat : Catalog) (log : List Overload) : Prop where
  /-- The overloads of a name in any case are those of the list that have it, in their order. -/
  overloads? : ∀ name,
    cat.overloads? name = anyOf? (log.filter fun o => Text.eqIgnoringCase o.signature.name name)
  functionCount : cat.functionCount = (log.map (·.signature.name)).toFinset.card
  signatureCount : cat.signatureCount = log.length

theorem Groups.lists {cat : Catalog} {log : List Overload} (h : Groups cat.entries log) :
    cat.Lists log where
  overloads? name := by
    have hnames : ∀ o ∈ log, (o.signature.name == Text.lowerAscii name) =
        Text.eqIgnoringCase o.signature.name name := by
      intro o ho
      rw [Text.eqIgnoringCase, h.lower o ho]
    rw [Catalog.overloads?, h.lookup, List.filter_congr hnames]
  functionCount := by
    have hkeys : (cat.entries.map (·.1)).toFinset = (log.map (·.signature.name)).toFinset := by
      ext name
      rw [List.mem_toFinset, List.mem_toFinset, h.mem_keys_iff, List.mem_map]
    rw [← hkeys, List.toFinset_card_of_nodup h.nodup, List.length_map]
    rfl
  signatureCount := h.sum_length

/-! ### What a call does -/

namespace Builder

/-- The builder with one more overload. -/
def add (b : Builder) (o : Overload) : Builder :=
  { b with catalog := { b.catalog with entries := append o.signature.name o b.catalog.entries } }

/-- A builder whose overloads are those of a list, and that forbids some names in any case. -/
structure Reflects (b : Builder) (forbidden : List String) (log : List Overload) : Prop where
  groups : Groups b.catalog.entries log
  forbids : ∀ name, Text.lowerAscii name ∈ b.forbidden ↔
    ∃ other ∈ forbidden, Text.eqIgnoringCase other name = true

variable {b : Builder} {forbidden : List String} {log : List Overload} {o : Overload} {f : Factory}
  {fs : List Factory} {error : RegistrationError}

theorem reflects_empty : empty.Reflects controlSymbols [] where
  groups := groups_nil
  forbids name := by
    have hlower : ∀ other ∈ controlSymbols, Text.lowerAscii other = other := by decide
    constructor
    · intro hmem
      exact ⟨_, hmem, by rw [Text.eqIgnoringCase_iff, Text.lowerAscii_lowerAscii]⟩
    · rintro ⟨other, hmem, hsame⟩
      rw [← (Text.eqIgnoringCase_iff other name).mp hsame, hlower other hmem]
      exact hmem

theorem Reflects.isValidName_iff (h : b.Reflects forbidden log) (name : String) :
    b.isValidName name = true ↔ IsAllowed forbidden name := by
  have hfree : (b.forbidden.contains (Text.lowerAscii name) = false) ↔
      ∀ other ∈ forbidden, Text.eqIgnoringCase other name = false := by
    rw [← Bool.not_eq_true, List.contains_iff_mem, h.forbids]
    simp
  have hplain : (name.toList.any fun c => c == ' ' || c == '"' || c == '\'') = false ↔
      ' ' ∉ name.toList ∧ '"' ∉ name.toList ∧ '\'' ∉ name.toList := by
    rw [List.any_eq_false]
    constructor
    · intro hplain
      refine ⟨fun hmem => ?_, fun hmem => ?_, fun hmem => ?_⟩ <;> exact hplain _ hmem rfl
    · rintro ⟨hblank, hdouble, hsingle⟩ c hc hmark
      obtain (rfl | rfl) | rfl : (c = ' ' ∨ c = '"') ∨ c = '\'' := by simpa using hmark
      · exact hblank hc
      · exact hdouble hc
      · exact hsingle hc
  unfold isValidName
  rw [Bool.and_eq_true, Bool.and_eq_true, Bool.not_eq_true', Bool.not_eq_true', Bool.not_eq_true',
    hfree, hplain, String.isEmpty_eq_false_iff]
  exact ⟨fun ⟨⟨hne, hfree⟩, hblank, hquotes⟩ => ⟨hne, hfree, hblank, hquotes⟩,
    fun h => ⟨⟨h.ne_empty, h.free⟩, h.blank, h.quotes⟩⟩

theorem Reflects.add (h : b.Reflects forbidden log) (ho : admission forbidden f = .ok o) :
    (b.add o).Reflects forbidden (log ++ [o]) := by
  refine ⟨h.groups.append ?_, h.forbids⟩
  unfold admission at ho
  split at ho
  · cases ho
  · rename_i s hparse
    split at ho
    · cases ho
      exact Signature.lowerAscii_name_of_parse hparse
    · cases ho

/-- A factory adds its overload, or the registration fails. -/
theorem Reflects.register_eq (h : b.Reflects forbidden log) (f : Factory) :
    b.register f = (admission forbidden f).map b.add := by
  unfold register Overload.ofFactory
  cases hparse : Signature.parse f.signature with
  | error error =>
    rw [admission, hparse]
    rfl
  | ok s =>
    by_cases hname : IsAllowed forbidden s.name
    · have hvalid : b.isValidName s.name = true := (h.isValidName_iff s.name).mpr hname
      rw [admission_of_allowed hparse hname]
      simp only [Except.map, bind, Except.bind, hvalid, if_true]
      rfl
    · have hvalid : ¬b.isValidName s.name = true := fun hvalid =>
        hname ((h.isValidName_iff s.name).mp hvalid)
      rw [admission_of_not_allowed hparse hname]
      simp only [Except.map, bind, Except.bind, hvalid]
      rfl

theorem Reflects.registerAll_cons_ok (h : b.Reflects forbidden log)
    (ho : admission forbidden f = .ok o) (fs : List Factory) :
    b.registerAll (f :: fs) = (b.add o).registerAll fs := by
  rw [registerAll, h.register_eq, ho]
  rfl

theorem Reflects.registerAll_cons_error (h : b.Reflects forbidden log)
    (hf : admission forbidden f = .error error) (fs : List Factory) :
    b.registerAll (f :: fs) = (b, .error error) := by
  rw [registerAll, h.register_eq, hf]
  rfl

/-- A batch adds the overloads of its factories up to the first that fails. -/
theorem Reflects.registerAll (h : b.Reflects forbidden log) (fs : List Factory) :
    (b.registerAll fs).1.Reflects forbidden (log ++ admitted forbidden fs) := by
  induction fs generalizing b log with
  | nil => simpa [Builder.registerAll, admitted] using h
  | cons f fs ih =>
    rw [admitted]
    cases hf : admission forbidden f with
    | ok o =>
      rw [h.registerAll_cons_ok hf]
      simpa using ih (h.add hf)
    | error error =>
      rw [h.registerAll_cons_error hf]
      simpa using h

/-- A batch whose factories all register succeeds. -/
theorem Reflects.registerAll_ok (h : b.Reflects forbidden log)
    (hfs : ∀ f ∈ fs, ∃ o, admission forbidden f = .ok o) : (b.registerAll fs).2 = .ok () := by
  induction fs generalizing b log with
  | nil => rfl
  | cons f fs ih =>
    obtain ⟨⟨o, ho⟩, hrest⟩ := List.forall_mem_cons.mp hfs
    rw [h.registerAll_cons_ok ho]
    exact ih (h.add ho) hrest

/-- A batch with a factory that fails is the batch of those before it, but for the answer. -/
theorem Reflects.registerAll_error (h : b.Reflects forbidden log) {before : List Factory}
    (hbefore : ∀ f ∈ before, ∃ o, admission forbidden f = .ok o)
    (hf : admission forbidden f = .error error) (after : List Factory) :
    b.registerAll (before ++ f :: after) = ((b.registerAll before).1, .error error) := by
  induction before generalizing b log with
  | nil => exact h.registerAll_cons_error hf after
  | cons g before ih =>
    obtain ⟨⟨o, ho⟩, hrest⟩ := List.forall_mem_cons.mp hbefore
    rw [List.cons_append, h.registerAll_cons_ok ho, h.registerAll_cons_ok ho]
    exact ih (h.add ho) hrest

theorem perform_register (b : Builder) (f : Factory) :
    b.perform (.register f) = b.registerAll [f] := by
  rw [perform, Builder.registerAll]
  cases b.register f <;> rfl

theorem Reflects.perform (h : b.Reflects forbidden log) (call : Call) :
    (b.perform call).1.Reflects (forbidden ++ call.forbids) (log ++ call.admits forbidden) := by
  cases call with
  | register f =>
    rw [perform_register, Call.forbids, List.append_nil]
    exact h.registerAll [f]
  | registerAll fs =>
    rw [Call.forbids, List.append_nil]
    exact h.registerAll fs
  | addOperator token =>
    rw [Call.forbids, Call.admits, List.append_nil, List.append_nil]
    exact ⟨h.groups, h.forbids⟩
  | forbid name =>
    rw [Call.forbids, Call.admits, List.append_nil]
    refine ⟨h.groups, fun other => ?_⟩
    change Text.lowerAscii other ∈ Text.lowerAscii name :: b.forbidden ↔ _
    simp only [List.mem_cons, h.forbids, List.mem_append, List.not_mem_nil, or_false, or_and_right,
      exists_or, exists_eq_left, Text.eqIgnoringCase_iff]
    rw [or_comm, eq_comm]

theorem Reflects.run (h : b.Reflects forbidden log) (calls : List Call) :
    (b.run calls).Reflects (forbidden ++ calls.flatMap Call.forbids)
      (log ++ registrations forbidden calls) := by
  induction calls generalizing b forbidden log with
  | nil =>
    rw [List.flatMap_nil, registrations, List.append_nil, List.append_nil]
    exact h
  | cons call calls ih =>
    rw [List.flatMap_cons, registrations, ← List.append_assoc, ← List.append_assoc]
    exact ih (h.perform call)

/-- After any calls, a catalog answers as the list of the overloads that registered does. A factory
registers where its signature reads and its name is allowed among the names that are forbidden by
now; otherwise nothing changes. A batch goes up to the first factory that fails and keeps exactly
those before it. -/
theorem lists_of_run (calls : List Call) :
    let b := empty.run calls
    let forbidden := controlSymbols ++ calls.flatMap Call.forbids
    b.catalog.Lists (registrations controlSymbols calls) ∧
      (∀ f o, admission forbidden f = .ok o → (b.perform (.register f)).2 = .ok ()) ∧
      (∀ f error, admission forbidden f = .error error →
        b.perform (.register f) = (b, .error error)) ∧
      (∀ fs, (∀ f ∈ fs, ∃ o, admission forbidden f = .ok o) →
        (b.perform (.registerAll fs)).2 = .ok ()) ∧
      ∀ before f after error, (∀ g ∈ before, ∃ o, admission forbidden g = .ok o) →
        admission forbidden f = .error error →
          b.perform (.registerAll (before ++ f :: after)) =
            ((b.perform (.registerAll before)).1, .error error) := by
  intro b forbidden
  have h : b.Reflects forbidden (registrations controlSymbols calls) :=
    reflects_empty.run calls
  refine ⟨h.groups.lists, ?_, ?_, fun fs hfs => h.registerAll_ok hfs, ?_⟩
  · intro f o ho
    rw [perform_register]
    exact h.registerAll_ok (by simpa using ⟨o, ho⟩)
  · intro f error hf
    rw [perform_register]
    exact h.registerAll_cons_error hf []
  · intro before f after error hbefore hf
    exact h.registerAll_error hbefore hf after

/-- A factory of a signature that builds nothing. -/
def idle (signature : String) : Factory := { (default : Factory) with signature }

/-- Names in both cases, a batch that fails at a name that was forbidden, and a name with a blank. -/
def mixedCalls : List Call :=
  [.register (idle "g(int)"), .forbid "Select",
    .registerAll [idle "h()", idle "SELECT(int)", idle "k()"], .addOperator "@>",
    .register (idle "G(long)"), .register (idle "my fn(int)")]

/-- The two overloads of one name are found in their order, the batch kept what stood before the
forbidden name, and that name is still refused, in a batch too. -/
theorem lists_of_run_mixedCalls :
    let b := empty.run mixedCalls
    (b.catalog.overloads? "G").map (·.map (·.signature)) =
        some [⟨"g", [⟨.int, false⟩], none⟩, ⟨"g", [⟨.long, false⟩], none⟩] ∧
      b.catalog.overloads? "k" = none ∧
      b.catalog.functionCount = 2 ∧ b.catalog.signatureCount = 3 ∧
      b.perform (.register (idle "select()")) = (b, .error (.invalidFunctionName "select")) ∧
      (b.perform (.registerAll [idle "k()"])).2 = .ok () ∧
      b.perform (.registerAll [idle "k()", idle "select()"]) =
        ((b.perform (.registerAll [idle "k()"])).1, .error (.invalidFunctionName "select")) := by
  intro b
  obtain ⟨hlists, -, herror, hbatch, hpartly⟩ := lists_of_run mixedCalls
  have hnone : (registrations controlSymbols mixedCalls).filter
      (fun o => Text.eqIgnoringCase o.signature.name "k") = [] :=
    List.eq_nil_of_length_eq_zero (by decide +kernel)
  have hk : admission (controlSymbols ++ mixedCalls.flatMap Call.forbids) (idle "k()") =
      .ok ⟨⟨"k", [], none⟩, idle "k()"⟩ :=
    admission_of_allowed (by decide +kernel) (by decide +kernel)
  have hselect : admission (controlSymbols ++ mixedCalls.flatMap Call.forbids)
      (idle "select()") = .error (.invalidFunctionName "select") :=
    admission_of_not_allowed (s := ⟨"select", [], none⟩) (by decide +kernel) (by decide +kernel)
  refine ⟨?_, ?_, ?_, ?_, herror _ _ hselect, hbatch _ (by simpa using ⟨_, hk⟩),
    hpartly [_] _ [] _ (by simpa using ⟨_, hk⟩) hselect⟩
  · rw [hlists.overloads?]
    decide +kernel
  · rw [hlists.overloads?, hnone]
    rfl
  · rw [hlists.functionCount]
    decide +kernel
  · rw [hlists.signatureCount]
    decide +kernel

end Builder
end Catalog
end SqlResolution
