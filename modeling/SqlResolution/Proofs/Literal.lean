import SqlResolution.Literal
import SqlResolution.Value.Text

/-!
# Text literals

A text is written as a literal between single quotes, with each of its own written twice, or after
an `E` with backslash escapes. Either way it reads as a constant with the text: the first as a CHAR
where the text is one character that needs no doubling, and any other as a STRING.
-/
namespace SqlResolution.Literal

open Text

variable {c : Char} {cs : List Char}

/-! ### Doubled quotes -/

/-- A text with each single quote written twice. -/
def doubleQuotes (cs : List Char) : List Char :=
  cs.flatMap fun c => if c = '\'' then ['\'', '\''] else [c]

/-- The literal of a text between single quotes. -/
def quoted (s : String) : String :=
  String.ofList ('\'' :: (doubleQuotes s.toList ++ ['\'']))

theorem doubleQuotes_cons_quote (cs : List Char) :
    doubleQuotes ('\'' :: cs) = '\'' :: '\'' :: doubleQuotes cs := rfl

theorem doubleQuotes_cons (hc : c ≠ '\'') (cs : List Char) :
    doubleQuotes (c :: cs) = c :: doubleQuotes cs := by
  rw [doubleQuotes, List.flatMap_cons, if_neg hc]
  rfl

theorem mergeQuotes_cons (hc : c ≠ '\'') (cs : List Char) :
    mergeQuotes (c :: cs) = c :: mergeQuotes cs := by
  rw [mergeQuotes]
  rintro cs rfl
  exact absurd rfl hc

/-- Merging takes the doubled quotes back. -/
theorem mergeQuotes_doubleQuotes (cs : List Char) : mergeQuotes (doubleQuotes cs) = cs := by
  induction cs with
  | nil => rfl
  | cons c cs ih =>
    by_cases hc : c = '\''
    · subst hc
      rw [doubleQuotes_cons_quote, mergeQuotes, ih]
    · rw [doubleQuotes_cons hc, mergeQuotes_cons hc, ih]

/-- Only a character that is no quote is written as one character. -/
theorem doubleQuotes_eq_singleton_iff : doubleQuotes cs = [c] ↔ cs = [c] ∧ c ≠ '\'' := by
  constructor
  · intro h
    cases cs with
    | nil => cases h
    | cons d ds =>
      by_cases hd : d = '\''
      · subst hd
        cases h
      · rw [doubleQuotes_cons hd] at h
        obtain ⟨rfl, hrest⟩ := List.cons.inj h
        have hds := mergeQuotes_doubleQuotes ds
        rw [hrest] at hds
        exact ⟨congrArg (d :: ·) hds.symm, hd⟩
  · rintro ⟨rfl, hc⟩
    exact doubleQuotes_cons hc []

theorem ofQuoted_of_ne_singleton (h : ∀ c, cs ≠ [c]) :
    ofQuoted cs = .ofString (String.ofList (mergeQuotes cs)) := by
  match cs with
  | [] => rfl
  | [c] => exact absurd rfl (h c)
  | _ :: _ :: _ => rfl

/-! ### Escapes -/

/-- A character as it is written after a backslash where it has to be, and else as it is. -/
def escape (c : Char) : List Char :=
  match c with
  | '\\' => ['\\', '\\']
  | '\'' => ['\\', '\'']
  | '\n' => ['\\', 'n']
  | '\t' => ['\\', 't']
  | '\r' => ['\\', 'r']
  | c => [c]

/-- The literal of a text with escapes. -/
def escaped (s : String) : String :=
  String.ofList ('E' :: '\'' :: (s.toList.flatMap escape ++ ['\'']))

theorem decodeEscapes_cons (hc : c ≠ '\\') (cs : List Char) :
    decodeEscapes (c :: cs) = c :: decodeEscapes cs := by
  rw [decodeEscapes]
  all_goals
    intros
    exact absurd ‹_› hc

/-- A written character is read first, whatever follows it. -/
theorem decodeEscapes_escape (c : Char) (cs : List Char) :
    decodeEscapes (escape c ++ cs) = c :: decodeEscapes cs := by
  unfold escape
  split
  · rfl
  · rfl
  · rfl
  · rfl
  · rfl
  · rename_i hbackslash _ _ _ _
    exact decodeEscapes_cons hbackslash cs

theorem decodeEscapes_flatMap (cs : List Char) : decodeEscapes (cs.flatMap escape) = cs := by
  induction cs with
  | nil => rfl
  | cons c cs ih => rw [List.flatMap_cons, decodeEscapes_escape, ih]

/-! ### Tokens -/

/-- A token that starts otherwise is not the word for null. -/
theorem not_null_of_head {token : String} {c : Char} {cs : List Char}
    (htoken : token.toList = c :: cs) (hc : c.toLower ≠ 'n') :
    (eqIgnoringCase token "null" || eqIgnoringCase token "nan") = false := by
  have hnull : eqIgnoringCase token "null" = false :=
    lowerAscii_beq_of_head htoken rfl hc
  have hnan : eqIgnoringCase token "nan" = false :=
    lowerAscii_beq_of_head htoken rfl hc
  rw [hnull, hnan, Bool.or_false]

theorem parse_of_plain? {token : String} {e : Evaluator} (h : plain? token = some e)
    (span : Span) : parse span token = .ok e := by
  rw [parse, h]

/-- What stands between single quotes is read before any other rule but that for null. -/
theorem plain?_quoted (s : String) :
    plain? (quoted s) = some (ofQuoted (doubleQuotes s.toList)) := by
  have htoken : (quoted s).toList = '\'' :: (doubleQuotes s.toList ++ ['\'']) :=
    String.toList_ofList
  have hunquote : unquote? (quoted s).toList = some (doubleQuotes s.toList) := by
    rw [htoken, unquote?]
    exact dropEnding?_append _ _
  unfold plain?
  dsimp only
  rw [not_null_of_head htoken (by decide), if_neg Bool.false_ne_true, hunquote]
  rfl

theorem plain?_escaped (s : String) : plain? (escaped s) = some (.ofString s) := by
  have htoken : (escaped s).toList = 'E' :: '\'' :: (s.toList.flatMap escape ++ ['\'']) :=
    String.toList_ofList
  have hunquote : unquote? (escaped s).toList = none := by
    rw [htoken]
    rfl
  have hescaped : escaped? (escaped s).toList = some (s.toList.flatMap escape) := by
    have hopening : dropOpening? ['E', '\''] (escaped s).toList =
        some (s.toList.flatMap escape ++ ['\'']) := by
      rw [htoken]
      exact dropOpening?_append ['E', '\''] _
    rw [escaped?, hopening]
    exact dropEnding?_append _ _
  unfold plain?
  dsimp only
  rw [not_null_of_head htoken (by decide), if_neg Bool.false_ne_true, hunquote, hescaped,
    Option.map_none, Option.map_some, decodeEscapes_flatMap, String.ofList_toList]
  rfl

/-- A text between single quotes, with its own quotes doubled, reads as a constant of the text,
which is a CHAR where the text is one character other than a single quote, and a STRING otherwise.
A text with escapes reads as a STRING of the text. -/
theorem parse_quoted_escaped (span : Span) (s : String) :
    (∃ type v, parse span (quoted s) = .ok (.constant type v) ∧ v.text = s ∧
      ((∃ c, s.toList = [c] ∧ c ≠ '\'' ∧ type = .char ∧ v = .char c) ∨
        (¬∃ c, s.toList = [c] ∧ c ≠ '\'') ∧ type = .string ∧ v = .str s)) ∧
    parse span (escaped s) = .ok (.constant .string (.str s)) := by
  refine ⟨?_, parse_of_plain? (plain?_escaped s) span⟩
  rw [parse_of_plain? (plain?_quoted s) span]
  by_cases hsingle : ∃ c, s.toList = [c] ∧ c ≠ '\''
  · obtain ⟨c, hs, hc⟩ := hsingle
    have htext : Value.text (.char c) = s := by
      rw [Value.text, ← String.toList_inj, hs, Char.toString, String.toList_singleton]
    rw [doubleQuotes_eq_singleton_iff.mpr ⟨hs, hc⟩]
    exact ⟨.char, .char c, rfl, htext, .inl ⟨c, hs, hc, rfl, rfl⟩⟩
  · have hmany : ∀ c, doubleQuotes s.toList ≠ [c] :=
      fun c h => hsingle ⟨c, doubleQuotes_eq_singleton_iff.mp h⟩
    rw [ofQuoted_of_ne_singleton hmany, mergeQuotes_doubleQuotes, String.ofList_toList]
    exact ⟨.string, .str s, rfl, Value.text.eq_def _, .inr ⟨hsingle, rfl, rfl⟩⟩

/-- A single quote alone is doubled, so it is no CHAR. -/
example : parse .none (quoted "'") = .ok (.ofString "'") := rfl

end SqlResolution.Literal
