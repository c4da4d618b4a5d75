import SqlResolution.Proofs.Literal
import SqlResolution.Proofs.TypeName

/-!
# Tokens that are numbers

A token that starts with neither a letter nor a quote is a number or bits after a mark of their own.
What is in it tells which of these it may be.
-/
namespace SqlResolution.Literal

open Text

/-! ### Tokens that start with neither a letter nor a quote -/

section Head

variable {token : String} {c : Char} {cs : List Char}

/-- Of the rules before the one for type names only that for numbers can accept such a token. -/
theorem plain?_of_head (htoken : token.toList = c :: cs) (halpha : c.isAlpha = false)
    (hsingle : c ≠ '\'') (hdouble : c ≠ '"') : plain? token = number? token.toList := by
  have hlower := toLower_of_not_isAlpha halpha
  have hletter : ∀ d : Char, d.isAlpha = true → c ≠ d := by
    rintro d hd rfl
    rw [halpha] at hd
    exact Bool.false_ne_true hd
  have hword : ∀ d : Char, d.isAlpha = true → c.toLower ≠ d := by
    rw [hlower]
    exact hletter
  have hnull := not_null_of_head htoken (hword 'n' (by decide))
  have htrue : eqIgnoringCase token "true" = false :=
    lowerAscii_beq_of_head htoken rfl (hword 't' (by decide))
  have hfalse : eqIgnoringCase token "false" = false :=
    lowerAscii_beq_of_head htoken rfl (hword 'f' (by decide))
  have hunquote : unquote? token.toList = none := by
    simp [htoken, unquote?, hsingle, hdouble]
  have hescaped : escaped? token.toList = none := by
    simp [htoken, escaped?, dropOpening?, (hletter 'E' (by decide)).symm]
  unfold plain?
  simp [hnull, htrue, hfalse, hunquote, hescaped]

/-- Such a token is a number, or bits after a mark of their own, or it is rejected. -/
theorem parse_of_head (htoken : token.toList = c :: cs) (hblank : isBlank c = false)
    (halpha : c.isAlpha = false) (hsingle : c ≠ '\'') (hdouble : c ≠ '"') {e? : Option Evaluator}
    (hbits : bits token.toList = .ok e?) (span : Span) :
    parse span token = match number? token.toList <|> e? with
      | some e => .ok e
      | none => .error (.invalidConstant token span) := by
  have hname : typeName? token = .ok none := by
    rw [typeName?, ColumnType.parse_of_head htoken hblank halpha]
    rfl
  have hnamed : named token = .ok e? := by
    rw [named, hname]
    exact hbits
  rw [parse, plain?_of_head htoken halpha hsingle hdouble, hnamed]
  cases number? token.toList with
  | some e => rfl
  | none => cases e? <;> rfl

end Head

/-! ### Tokens that are no numbers -/

/-- The characters that the text of a number may have before its suffix. -/
def isNumeric (c : Char) : Bool :=
  c.isDigit || c == '.' || c == 'e' || c == 'E' || c == '-' || c == '+'

section NoNumber

variable {c : Char} {cs : List Char}

theorem looksNumeric_of_mem (hmem : c ∈ cs) (hc : isNumeric c = false) :
    looksNumeric cs = false := by
  have hall : ∀ ds : List Char, c ∈ ds → ds.all isNumeric = false :=
    fun ds hds => List.all_eq_false.mpr ⟨c, hds, by simp [hc]⟩
  have hsign : ∀ (d : Char) ds, isNumeric d = true → c ∈ d :: ds → c ∈ ds := by
    intro d ds hd hcons
    apply List.mem_of_ne_of_mem _ hcons
    rintro rfl
    rw [hc] at hd
    exact Bool.false_ne_true hd
  unfold looksNumeric
  simp only [Bool.and_eq_false_iff]
  refine .inl (.inr ?_)
  split
  · exact hall _ (hsign _ _ rfl hmem)
  · exact hall _ (hsign _ _ rfl hmem)
  · exact hall _ hmem

theorem eq_of_withoutSuffix? {a b : Char} {ds : List Char} (h : withoutSuffix? a b cs = some ds) :
    cs = ds ++ [a] ∨ cs = ds ++ [b] := by
  rw [withoutSuffix?, Option.orElse_eq_orElse, Option.orElse_eq_or, Option.or_eq_some_iff] at h
  obtain h | ⟨-, h⟩ := h
  · exact .inl (eq_of_dropEnding? h)
  · exact .inr (eq_of_dropEnding? h)

theorem withoutSuffix?_concat {a b : Char} (hc : c = a ∨ c = b) (cs : List Char) :
    withoutSuffix? a b (cs ++ [c]) = some cs := by
  have hinj : ∀ d ds, cs ++ [c] = ds ++ [d] → ds = cs :=
    fun d ds h => (List.append_inj_left' h rfl).symm
  cases hcut : withoutSuffix? a b (cs ++ [c]) with
  | some ds =>
    obtain h | h := eq_of_withoutSuffix? hcut
    · rw [hinj _ ds h]
    · rw [hinj _ ds h]
  | none =>
    rw [withoutSuffix?, Option.orElse_eq_orElse, Option.orElse_eq_or, Option.or_eq_none_iff] at hcut
    obtain rfl | rfl := hc
    · exact absurd hcut.1 (by simp [dropEnding?_append])
    · exact absurd hcut.2 (by simp [dropEnding?_append])

theorem withoutSuffix?_of_ne {a b : Char} (ha : c ≠ a) (hb : c ≠ b) (cs : List Char) :
    withoutSuffix? a b (cs ++ [c]) = none := by
  have hinj : ∀ d ds, cs ++ [c] = ds ++ [d] → c = d :=
    fun d ds h => List.singleton_inj.mp (List.append_inj_right' h rfl)
  cases hcut : withoutSuffix? a b (cs ++ [c]) with
  | none => rfl
  | some ds =>
    obtain h | h := eq_of_withoutSuffix? hcut
    · exact absurd (hinj _ ds h) ha
    · exact absurd (hinj _ ds h) hb

theorem mem_of_withoutSuffix? {a b : Char} {ds : List Char} (h : withoutSuffix? a b cs = some ds)
    (hmem : c ∈ cs) (ha : c ≠ a) (hb : c ≠ b) : c ∈ ds := by
  obtain rfl | rfl := eq_of_withoutSuffix? h
  · simpa [ha] using hmem
  · simpa [hb] using hmem

/-- A text with a character that no number has, as a suffix or before it, is no number. -/
theorem number?_of_mem (hmem : c ∈ cs) (hc : isNumeric c = false)
    (hsuffix : c ∉ ['L', 'l', 'f', 'F']) : number? cs = none := by
  have hint : ∀ ds, c ∈ ds → readInt? ds = none := by
    intro ds hds
    simp only [isNumeric, Bool.or_eq_false_iff, beq_eq_false_iff_ne] at hc
    exact readInt?_of_mem hds hc.1.1.1.1.1 hc.1.2 hc.2
  simp only [List.mem_cons, List.not_mem_nil, or_false, not_or] at hsuffix
  obtain ⟨hL, hl, hf, hF⟩ := hsuffix
  have hlong : readInt? ((withoutSuffix? 'L' 'l' cs).getD cs) = none := by
    apply hint
    cases hds : withoutSuffix? 'L' 'l' cs with
    | none => exact hmem
    | some ds => exact mem_of_withoutSuffix? hds hmem hL hl
  have hfloat : ((withoutSuffix? 'f' 'F' cs).bind fun ds =>
      if looksNumeric ds then
        (Decimal.readSingle? ds).map fun x => Evaluator.constant .float (.float x)
      else none) = none := by
    rw [Option.bind_eq_none_iff]
    intro ds hds
    have hnumeric := looksNumeric_of_mem (mem_of_withoutSuffix? hds hmem hf hF) hc
    simp [hnumeric]
  simp [number?, readInt32?, readInt64?, readIntBetween?, hint cs hmem, hlong,
    looksNumeric_of_mem hmem hc, hfloat]

end NoNumber

/-- A number of 256 bits has an `x`. -/
theorem long256_of_notMem {cs : List Char} (hsmall : 'x' ∉ cs) (hlarge : 'X' ∉ cs) :
    long256 cs = .ok none := by
  have hopening : ∀ x, x ∉ cs → dropOpening? ['0', x] cs = none := by
    intro x hx
    cases h : dropOpening? ['0', x] cs with
    | none => rfl
    | some rest =>
      apply absurd _ hx
      rw [eq_of_dropOpening? h]
      simp
  rw [long256, hopening 'x' hsmall, hopening 'X' hlarge]
  rfl

end SqlResolution.Literal
