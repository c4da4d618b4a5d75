import SqlResolution.Proofs.Builtin.Replacement
import SqlResolution.Proofs.Value.Character

/-!
# Characters in the place of texts

A builtin that asks for a STRING takes a CHAR. Where the argument is cast to a STRING instead, the
values stay the same exactly where the builtin reads each character as the text of it. A list does,
and so does a cast that is given the character for its type.
-/
namespace SqlResolution.Builtin

open Evaluator

/-- Whether a builtin does with a character at a place what it does with the text of it. -/
def ReadsAsText (scales : TextScales) : Builtin → Nat → List Value → Char → Prop
  | kernel k, i, values, _ => k.ReadsAsText i values
  | cast _ target, 0, _, ch =>
    (Value.str ch.toString).cast scales target.tag = (Value.char ch).cast scales target.tag
  | _, _, _, _ => True

/-- Casts from STRING that CHARs are given to, having none of their own: characters are read as
texts for UUIDs, never for DATEs and TIMESTAMPs, and for BOOLEANs where their code is zero. -/
theorem readsAsText_cast (scales : TextScales) (values : List Value) (ch : Char) :
    (cast .string .uuid).ReadsAsText scales 0 values ch ∧
      ¬(cast .string .date).ReadsAsText scales 0 values ch ∧
      ¬(cast .string .timestamp).ReadsAsText scales 0 values ch ∧
      ((cast .string .boolean).ReadsAsText scales 0 values ch ↔
        (Binary.doubleOfInt (Int64.ofNat ch.toNat).toInt != 0) = false) :=
  ⟨(Value.cast_uuid_char scales ch).symm, (Value.cast_date_char_ne scales ch).symm,
    (Value.cast_timestamp_char_ne scales ch).symm,
    eq_comm.trans (Value.cast_boolean_char_iff scales ch)⟩

variable {settings : Settings} {name : String} {span : Span} {args : Args} {c after : Context}
  {b : Builtin} {adjusted : Args} {e : Evaluator} {i : Nat} {arg : Evaluator} {p : Parameter}

/-- The values of a sound CHAR are characters and null. -/
theorem char_or_null {v : Value} (h : v.conformsTo .char = true) :
    v = .null ∨ ∃ ch, v = .char ch := by
  cases v with
  | null => exact .inl rfl
  | char ch => exact .inr ⟨ch, rfl⟩
  | _ => cases h

/-- Kernels that ask for texts take their operands as they are. -/
theorem build_of_string_mem {k : Kernel} (h : ColumnType.string ∈ k.operands) (span : Span)
    (args : Args) (settings : Settings) (c : Context) :
    (kernel k).build span args settings c = .ok (.scalar k args.evaluators) := by
  cases k with
  | equal comparand | less comparand =>
    cases comparand <;> first | rfl | exact absurd h (by decide)
  | _ => rfl

namespace Call

/-- A kernel has the same values with the texts of characters exactly where it reads the characters
as texts. -/
theorem sameValues_kernel_text {k : Kernel} {r : Evaluator}
    (h : Call settings name span args c (kernel k) adjusted e after)
    (hfixes : ∀ arg ∈ args.evaluators, arg.FixesConstants) (harg : args.get? i = some arg)
    (hp : (kernel k).descriptor.parameters[i]? = some p) (hstring : p.type = .string)
    (hr : Replaces after.table p.tag arg r) :
    ∃ e', (kernel k).overload.take settings name span (undefinedPlaces args) (args.set i r) c =
        (.ok e', after) ∧
      ∀ binds rows, Maps binds (·.cast settings.scales .string) arg r →
        (∀ v ∈ (arg.evalRows binds rows).1, v = .null ∨ ∃ ch, v = .char ch) →
          (SameValues binds rows e e' ↔ ∀ vs ∈ evalRowsAll binds rows adjusted.evaluators,
            ∀ ch, vs[i]? = some (.char ch) → k.ReadsAsText i vs) := by
  obtain ⟨type, htype, rfl⟩ :
      ∃ type, k.operands[i]? = some type ∧ (⟨type, false⟩ : Parameter) = p := by
    rwa [descriptor, List.getElem?_map, Option.map_eq_some_iff] at hp
  obtain rfl : type = .string := hstring
  have hmem := List.mem_of_getElem? htype
  obtain ⟨hkept, e', htake, hsame⟩ := h.sameValues_kernel
    (fun _ => build_of_string_mem hmem _ _ _ _) hfixes harg hp hr
  refine ⟨e', htake, fun binds rows hmaps hchars => ?_⟩
  refine (hsame binds rows _ hmaps).trans (forall₂_congr fun vs hvs => ?_)
  obtain ⟨v, hv, hmem'⟩ := exists_of_mem_evalRowsAll hkept hvs
  rw [List.modify_eq_set, hv, Option.getD_some]
  obtain rfl | ⟨ch, rfl⟩ := hchars v hmem'
  · obtain ⟨hlt, hget⟩ := List.getElem?_eq_some_iff.mp hv
    have hself : vs.set i .null = vs := by rw [← hget, List.set_getElem_self]
    rw [Value.cast_null, hself]
    refine iff_of_true rfl fun ch hch => ?_
    cases hch
  · rw [Value.cast_string_char,
      Kernel.apply_set_text hmem (List.getElem?_eq_some_iff.mp htype).1 hv]
    exact ⟨fun h ch _ => h, fun h => h ch rfl⟩

/-- A cast has the same values with the texts of characters exactly where it casts the characters as
their texts. -/
theorem sameValues_cast_text {source target : ColumnType} {r : Evaluator}
    (h : Call settings name span args c (cast source target) adjusted e after)
    (hnull : arg.type.isNull = false) (hnull' : r.type.isNull = false)
    (hfixes : ∀ arg ∈ args.evaluators, arg.FixesConstants) (harg : args.get? 0 = some arg)
    (hp : (cast source target).descriptor.parameters[0]? = some p)
    (hr : Replaces after.table p.tag arg r) :
    ∃ e', (cast source target).overload.take settings name span (undefinedPlaces args)
        (args.set 0 r) c = (.ok e', after) ∧
      ∀ binds rows, Maps binds (·.cast settings.scales .string) arg r →
        (∀ v ∈ (arg.evalRows binds rows).1, v = .null ∨ ∃ ch, v = .char ch) →
          (SameValues binds rows e e' ↔ ∀ vs ∈ evalRowsAll binds rows adjusted.evaluators,
            ∀ ch, vs[0]? = some (.char ch) →
              (Value.str ch.toString).cast settings.scales target.tag =
                (Value.char ch).cast settings.scales target.tag) := by
  obtain ⟨hkept, e', htake, hsame⟩ := h.sameValues_cast hnull hnull' hfixes harg hp hr
  refine ⟨e', htake, fun binds rows hmaps hchars => (hsame binds rows _ hmaps).trans ?_⟩
  constructor
  · intro h vs hvs ch hch
    exact h _ ((mem_evalRows_iff hkept).mpr ⟨vs, hvs, hch⟩)
  · intro h v hv
    obtain ⟨vs, hvs, hvalue⟩ := (mem_evalRows_iff hkept).mp hv
    obtain rfl | ⟨ch, rfl⟩ := hchars v hv
    · rfl
    · exact h vs hvs ch hvalue

/-- With an evaluator of the texts of a CHAR in the CHAR's place, a call has the same values exactly
where the builtin reads the characters on the rows as texts. -/
theorem sameValues_text {r : Evaluator} (h : Call settings name span args c b adjusted e after)
    (hfixes : ∀ arg ∈ args.evaluators, arg.FixesConstants) (harg : args.get? i = some arg)
    (hp : b.descriptor.parameters[i]? = some p) (hstring : p.type = .string)
    (hnull : arg.type.isNull = false) (hnull' : r.type.isNull = false)
    (hr : Replaces after.table p.tag arg r) :
    ∃ e', b.overload.take settings name span (undefinedPlaces args) (args.set i r) c =
        (.ok e', after) ∧
      ∀ binds rows, Maps binds (·.cast settings.scales .string) arg r →
        (∀ v ∈ (arg.evalRows binds rows).1, v = .null ∨ ∃ ch, v = .char ch) →
          (SameValues binds rows e e' ↔ ∀ vs ∈ evalRowsAll binds rows adjusted.evaluators,
            ∀ ch, vs[i]? = some (.char ch) → b.ReadsAsText settings.scales i vs ch) := by
  cases b with
  | kernel k => exact h.sameValues_kernel_text hfixes harg hp hstring hr
  | cast source target =>
    rcases i with _ | _ | i
    · exact h.sameValues_cast_text hnull hnull' hfixes harg hp hr
    · obtain ⟨e', htake, hsame⟩ := h.sameValues_castType hfixes harg hp hr
      exact ⟨e', htake, fun binds rows _ _ =>
        iff_of_true (hsame binds rows) fun _ _ _ _ => trivial⟩
    · cases hp
  | member =>
    rcases i with _ | i
    · obtain ⟨e', htake, hsame⟩ := h.sameValues_member hfixes harg hp hr
      refine ⟨e', htake, fun binds rows hmaps hchars => ?_⟩
      refine iff_of_true (hsame binds rows _ hmaps fun v hv texts holdsNull => ?_)
        fun _ _ _ _ => trivial
      obtain rfl | ⟨ch, rfl⟩ := hchars v hv
      · rfl
      · rfl
    · cases hp
  | total which =>
    obtain rfl := List.mem_singleton.mp (List.mem_of_getElem? hp)
    cases which <;> cases hstring
  | varcharLength | runningAverage =>
    obtain rfl := List.mem_singleton.mp (List.mem_of_getElem? hp)
    cases hstring
  | _ => cases hp

/-- A CHAR for a STRING means what its text means exactly where the builtin reads the characters on
the rows as texts. -/
theorem char_means_text_iff (h : Call settings name span args c b adjusted e after)
    (hfixes : ∀ arg ∈ args.evaluators, arg.FixesConstants) (harg : args.get? i = some arg)
    (hp : b.descriptor.parameters[i]? = some p) (hchar : arg.type = .char)
    (hstring : p.type = .string)
    (hallowed : (!c.allowNonDeterministic && arg.isNonDeterministic) = false) :
    ∃ text e',
      (∀ span positions, catalog.resolve settings "cast" span
        (castCall arg .string positions) c = (.ok text, c)) ∧
      b.overload.take settings name span (undefinedPlaces args) (args.set i text) c =
        (.ok e', after) ∧
      ∀ binds schema rows, arg.Sound binds schema → (∀ row ∈ rows, row.Conforms schema) →
        (SameValues binds rows e e' ↔
          ∀ vs ∈ evalRowsAll binds rows adjusted.evaluators, ∀ ch, vs[i]? = some (.char ch) →
            b.ReadsAsText settings.scales i vs ch) := by
  have harg' : arg.FixesConstants := hfixes arg (List.mem_of_getElem? harg)
  have hplain : arg.isUndefined = false ∧ arg.type.isNull = false ∧
      arg.type.tag.isRewritten = false := by
    rw [Evaluator.isUndefined, hchar]
    exact ⟨rfl, rfl, rfl⟩
  obtain ⟨hdefined, hnull, hrewritten⟩ := hplain
  have htag : p.tag = .string := by
    rw [Parameter.tag, Parameter.isArray, hstring]
    rfl
  have hr : Replaces after.table p.tag arg
      ((castOrNull settings.scales .string arg).finish settings c.table) := by
    rw [htag]
    exact replaces_castOrNull _ _ .string hdefined hrewritten harg' settings c.table
  have hnull' : ((castOrNull settings.scales .string arg).finish settings c.table).type.isNull =
      false := by
    rw [type_finish, type_castOrNull]
    rfl
  obtain ⟨e', htake, hsame⟩ := h.sameValues_text hfixes harg hp hstring hnull hnull' hr
  refine ⟨_, e', ?_, htake, fun binds schema rows hsound hrows => hsame binds rows ?_ ?_⟩
  · exact resolve_castCall settings (by decide +kernel : cast .char .string ∈ all) hchar (by decide)
      (fun target position => rewriteArgument_of_not_isRewritten hrewritten _ target position) harg'
      hallowed
  · exact maps_finish_castOrNull binds settings.scales .string harg' settings c.table
  · intro v hv
    have hconforms := hsound.evalRows hrows v hv
    rw [hchar] at hconforms
    exact char_or_null hconforms

end Call

/-- A CHAR column, and a text after it. -/
def charAndText : Args := ⟨[.column 0 .char "c", .ofString "x"], [⟨3, 1⟩, ⟨6, 3⟩]⟩

theorem call_charMember :
    Call .default "in" ⟨0, 2⟩ charAndText (.fresh 0) member charAndText
      (.member ["x"] false (.column 0 .char "c")) (.fresh 0) :=
  .mk (by decide) (overloads?_of_filter (List.cons_ne_nil member []) (by decide +kernel))
    rfl rfl rfl rfl

/-- A list of texts holds a character as it holds its text. -/
theorem Call.char_means_text_iff_member :
    let row : Row := ⟨7, [.char 'x']⟩
    let e : Evaluator := .member ["x"] false (.column 0 .char "c")
    ∃ text e',
      catalog.resolve .default "cast" .none (castCall (.column 0 .char "c") .string [])
          (.fresh 0) = (.ok text, .fresh 0) ∧
        member.overload.take .default "in" ⟨0, 2⟩ [] (charAndText.set 0 text) (.fresh 0) =
            (.ok e', .fresh 0) ∧
          (e.evalRows .empty [row]).1 = [.boolean true] ∧
            (e'.evalRows .empty [row]).1 = [.boolean true] := by
  intro row e
  have hfixes : ∀ arg ∈ charAndText.evaluators, arg.FixesConstants := by
    intro arg harg
    simp only [charAndText, List.mem_cons, List.not_mem_nil, or_false] at harg
    obtain rfl | rfl := harg
    · exact .of_variable rfl
    · exact .of_plain (by simp [ofString, Plain])
  obtain ⟨text, e', hcast, htake, hsame⟩ := call_charMember.char_means_text_iff hfixes (i := 0)
    rfl rfl rfl rfl rfl
  have hrow : row.Conforms (.ofColumns [.plain "c" .char]) := by
    intro i hi
    match i with
    | 0 => rfl
    | _ + 1 => exact absurd hi (by simp [Schema.ofColumns, Schema.empty])
  have hvalues : (e.evalRows .empty [row]).1 = [.boolean true] := by
    simp only [e, Evaluator.evalRows, Evaluator.eval]
    rfl
  refine ⟨text, e', hcast .none [], htake, hvalues, ?_⟩
  rw [← hvalues]
  have hrows := hsame .empty _ [row] ⟨rfl, rfl⟩ (List.forall_mem_singleton.mpr hrow)
  exact (hrows.mpr fun _ _ _ _ => trivial).evalRows.symm

/-- The capital of a character is null, though that of its text is not. -/
theorem not_char_means_text_upper :
    let row : Row := ⟨7, [.char 'x']⟩
    let args : Args := ⟨[.column 0 .char "c"], [⟨6, 1⟩]⟩
    ∃ e text e',
      Call .default "upper" ⟨0, 5⟩ args (.fresh 0) (kernel .upper) args e (.fresh 0) ∧
        catalog.resolve .default "cast" .none (castCall (.column 0 .char "c") .string [])
            (.fresh 0) = (.ok text, .fresh 0) ∧
          (kernel .upper).overload.take .default "upper" ⟨0, 5⟩ [] (args.set 0 text) (.fresh 0) =
              (.ok e', .fresh 0) ∧
            e.value .empty row = .null ∧ e'.value .empty row = .str "X" := by
  refine ⟨.scalar .upper [.column 0 .char "c"], _, _,
    .mk (by decide +kernel)
      (overloads?_of_filter (List.cons_ne_nil (kernel .upper) []) (by decide +kernel))
      rfl rfl rfl rfl,
    resolve_castCall .default (by decide +kernel : cast .char .string ∈ all) rfl (by decide)
      (fun target position => rewriteArgument_of_not_isRewritten rfl _ target position)
      (.of_variable rfl) rfl .none [], rfl, rfl, ?_⟩
  simp only [castOrNull, Evaluator.value]
  rfl

end SqlResolution.Builtin
