import SqlResolution.Proofs.Literal.Number
import SqlResolution.Proofs.Long256
import SqlResolution.Proofs.TypeName.Cuts

/-!
# Constant tokens that are cut inside a character

The digits of a 256-bit number are cut, but only where they are digits. So a token comes to a cut
inside a character exactly where it is read as the name of a type and that comes to one.
-/
namespace SqlResolution.Literal

open Text

variable {token : String} {precision : List Char} {cut : CutInsideCharacter}

theorem exists_bits_eq_ok (cs : List Char) : ∃ e?, bits cs = .ok e? := by
  unfold bits long256
  split
  · exact ⟨_, rfl⟩
  · split
    · rename_i digits _
      obtain ⟨n?, hread⟩ := Long256.exists_read_eq_ok digits
      exact ⟨_, by rw [hread]; rfl⟩
    · exact ⟨_, rfl⟩

theorem typeName?_eq_error_iff :
    typeName? token = .error cut ↔ ColumnType.parse token = .error cut := map_eq_error_iff

theorem named_eq_error_iff : named token = .error cut ↔ ColumnType.parse token = .error cut := by
  obtain ⟨e?, hbits⟩ := exists_bits_eq_ok token.toList
  rw [← typeName?_eq_error_iff, named]
  cases typeName? token with
  | error cut' => simp [bind, Except.bind]
  | ok t? => cases t? <;> simp [bind, Except.bind, pure, Except.pure, hbits]

/-- A token with a bracket in it is no word. -/
theorem eqIgnoringCase_of_mem (h : '(' ∈ token.toList) {word : String}
    (hword : '(' ∉ word.toList.map Char.toLower) : eqIgnoringCase token word = false := by
  rw [Bool.eq_false_iff]
  intro hcase
  rw [eqIgnoringCase_iff, ← String.toList_inj, toList_lowerAscii, toList_lowerAscii] at hcase
  exact hword (hcase ▸ (mem_map_toLower rfl).mpr h)

/-- The rules before the one for type names do not accept the name of a geohash. -/
theorem plain?_of_isTorn (h : ColumnType.IsTorn token.toList precision) : plain? token = none := by
  obtain ⟨before, opening, after, dims, htoken, hbefore, hopening, -, -, -⟩ := h
  have hmem : '(' ∈ token.toList := by
    have hlast : '(' ∈ opening.map Char.toLower := by
      rw [hopening]
      decide
    rw [htoken]
    simp [(mem_map_toLower rfl).mp hlast]
  have hhead : ∃ c cs, token.toList = c :: cs ∧ c ≠ '\'' ∧ c ≠ '"' ∧ c ≠ 'E' := by
    cases before with
    | nil =>
      obtain ⟨c, rest, rfl, hc, -⟩ := List.map_eq_cons_iff.mp hopening
      refine ⟨c, _, htoken, ?_, ?_, ?_⟩
      all_goals
        rintro rfl
        cases hc
    | cons c before =>
      have hblank := (Bool.and_eq_true_iff.mp (List.all_cons.symm.trans hbefore)).1
      refine ⟨c, _, htoken, ?_, ?_, ?_⟩
      all_goals
        rintro rfl
        cases hblank
  obtain ⟨c, cs, hcs, hsingle, hdouble, hE⟩ := hhead
  have hword : ∀ word : String, '(' ∉ word.toList.map Char.toLower →
      eqIgnoringCase token word = false := fun word => eqIgnoringCase_of_mem hmem
  have hunquote : unquote? token.toList = none := by simp [hcs, unquote?, hsingle, hdouble]
  have hescaped : escaped? token.toList = none := by
    simp [hcs, escaped?, dropOpening?, hE.symm]
  have hnumber : number? token.toList = none := number?_of_mem hmem rfl (by decide)
  unfold plain?
  simp [hword "null" (by decide), hword "nan" (by decide), hword "true" (by decide),
    hword "false" (by decide), hunquote, hescaped, hnumber]

/-- A token is cut inside a character exactly where it is so as the name of a type. -/
theorem parse_eq_cut_iff (span : Span) : parse span token = .error (.cutInsideCharacter cut) ↔
    ColumnType.parse token = .error cut := by
  unfold parse
  cases hplain : plain? token with
  | some e =>
    simp only [reduceCtorEq, false_iff]
    intro h
    obtain ⟨precision, htorn, -⟩ := ColumnType.parse_eq_error_iff.mp h
    rw [plain?_of_isTorn htorn] at hplain
    cases hplain
  | none =>
    rw [← named_eq_error_iff]
    cases named token with
    | error cut' => simp
    | ok e? => cases e? <;> simp

end SqlResolution.Literal
