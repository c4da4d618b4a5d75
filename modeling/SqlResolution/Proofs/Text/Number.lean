import SqlResolution.Decimal.Number
import SqlResolution.Proofs.Text.Blank
import SqlResolution.Proofs.Text.Digits

/-!
# Texts of numbers

The characters that the text of a number is made of.
-/
namespace SqlResolution

namespace Decimal

/-- The characters of a number or of a word for one. -/
def isSymbol (c : Char) : Bool := c.isAlphanum || c == '+' || c == '-' || c == '.'

theorem isSymbol_of_isDigit {c : Char} (h : c.isDigit = true) : isSymbol c = true := by
  simp [isSymbol, Char.isAlphanum, h]

theorem isSymbol_of_isAlpha {c : Char} (h : c.isAlpha = true) : isSymbol c = true := by
  simp [isSymbol, Char.isAlphanum, h]

theorem all_isSymbol_of_readNat? {cs : List Char} {n : Nat} (h : Text.readNat? cs = some n) :
    ∀ c ∈ cs, isSymbol c = true :=
  fun c hc => isSymbol_of_isDigit (((Text.readNat?_eq_some_iff cs n).mp h).2.1 c hc)

theorem all_isSymbol_of_readInt? {cs : List Char} {n : Int} (h : Text.readInt? cs = some n) :
    ∀ c ∈ cs, isSymbol c = true := by
  unfold Text.readInt? at h
  split at h
  · obtain ⟨k, hk, -⟩ := Option.map_eq_some_iff.mp h
    obtain ⟨n, hn, -⟩ := Option.bind_eq_some_iff.mp hk
    exact List.forall_mem_cons.mpr ⟨by decide, all_isSymbol_of_readNat? hn⟩
  · obtain ⟨k, hk, -⟩ := Option.map_eq_some_iff.mp h
    exact List.forall_mem_cons.mpr ⟨by decide, all_isSymbol_of_readNat? hk⟩
  · obtain ⟨k, hk, -⟩ := Option.map_eq_some_iff.mp h
    exact all_isSymbol_of_readNat? hk

theorem all_isSymbol_of_readPlain? {cs : List Char} {s : Scaled} (h : readPlain? cs = some s) :
    ∀ c ∈ cs, isSymbol c = true := by
  unfold readPlain? at h
  dsimp only at h
  split at h
  · cases h
  · rename_i hdigits
    have hall : ∀ c ∈ cs.takeWhile (· != '.') ++ (cs.dropWhile (· != '.')).drop 1,
        c.isDigit = true := by
      simp only [Bool.or_eq_true, not_or, Bool.not_eq_true, Bool.not_eq_false'] at hdigits
      exact List.all_eq_true.mp hdigits.2
    intro c hc
    rw [← List.takeWhile_append_dropWhile (p := (· != '.')) (l := cs)] at hc
    obtain hwhole | hrest := List.mem_append.mp hc
    · exact isSymbol_of_isDigit (hall c (List.mem_append_left _ hwhole))
    · cases hpoint : cs.dropWhile (· != '.') with
      | nil =>
        rw [hpoint] at hrest
        cases hrest
      | cons point fraction =>
        rw [hpoint] at hrest hall
        obtain rfl | hfraction := List.mem_cons.mp hrest
        · have hstop := List.head?_dropWhile_not (· != '.') cs
          rw [hpoint] at hstop
          have heq : c = '.' := by simpa using hstop
          rw [heq]
          decide
        · exact isSymbol_of_isDigit (hall c (List.mem_append_right _ hfraction))

theorem all_isSymbol_of_readScaled? {cs : List Char} {s : Scaled} (h : readScaled? cs = some s) :
    ∀ c ∈ cs, isSymbol c = true := by
  unfold readScaled? at h
  dsimp only at h
  intro c hc
  rw [← List.takeWhile_append_dropWhile (p := fun c => !(c == 'e' || c == 'E')) (l := cs)] at hc
  split at h
  · rename_i hrest
    rw [hrest, List.append_nil] at hc
    exact all_isSymbol_of_readPlain? h c hc
  · rename_i mark exponent hrest
    obtain ⟨plain, hplain, h⟩ := Option.bind_eq_some_iff.mp h
    obtain ⟨e, he, -⟩ := Option.bind_eq_some_iff.mp h
    rw [hrest] at hc
    obtain hc | hc := List.mem_append.mp hc
    · exact all_isSymbol_of_readPlain? hplain c hc
    · obtain rfl | hc := List.mem_cons.mp hc
      · have hstop := List.head?_dropWhile_not (fun c => !(c == 'e' || c == 'E')) cs
        rw [hrest] at hstop
        have hmark : c = 'e' ∨ c = 'E' := or_iff_not_imp_left.mpr (by simpa using hstop)
        obtain rfl | rfl := hmark <;> decide
      · exact all_isSymbol_of_readInt? he c hc

theorem isSymbol_of_toLower {c : Char} (h : c.toLower.isAlpha = true) : isSymbol c = true := by
  unfold Char.toLower at h
  split at h
  · rename_i hupper
    have hupper : c.isUpper = true := decide_eq_true hupper
    exact isSymbol_of_isAlpha (Bool.or_eq_true_iff.mpr (.inl hupper))
  · exact isSymbol_of_isAlpha h

theorem all_isSymbol_of_word {cs : List Char} {word : String}
    (h : (Text.lowerAscii (String.ofList cs) == word) = true)
    (hword : word.toList.all Char.isAlpha = true) : ∀ c ∈ cs, isSymbol c = true := by
  intro c hc
  refine isSymbol_of_toLower (List.all_eq_true.mp hword _ ?_)
  rw [← eq_of_beq h, Text.toList_lowerAscii, String.toList_ofList]
  exact List.mem_map_of_mem hc

theorem all_isSymbol_of_readMagnitude? {l : Binary.Layout} {cs : List Char} {w : Nat}
    (h : readMagnitude? l cs = some w) : ∀ c ∈ cs, isSymbol c = true := by
  unfold readMagnitude? at h
  dsimp only at h
  split at h
  · rename_i hword
    rw [Bool.or_eq_true] at hword
    obtain hword | hword := hword
    · exact all_isSymbol_of_word hword (by decide)
    · exact all_isSymbol_of_word hword (by decide)
  · split at h
    · rename_i hword
      exact all_isSymbol_of_word hword (by decide)
    · obtain ⟨s, hs, -⟩ := Option.map_eq_some_iff.mp h
      exact all_isSymbol_of_readScaled? hs

theorem all_isSymbol_of_readWord? {l : Binary.Layout} {cs : List Char} {w : Nat}
    (h : readWord? l cs = some w) : ∀ c ∈ cs, isSymbol c = true := by
  unfold readWord? at h
  split at h
  · obtain ⟨k, hk, -⟩ := Option.map_eq_some_iff.mp h
    exact List.forall_mem_cons.mpr ⟨by decide, all_isSymbol_of_readMagnitude? hk⟩
  · exact List.forall_mem_cons.mpr ⟨by decide, all_isSymbol_of_readMagnitude? h⟩
  · exact all_isSymbol_of_readMagnitude? h

theorem all_isSymbol_of_readDouble? {cs : List Char} {x : Float} (h : readDouble? cs = some x) :
    ∀ c ∈ cs, isSymbol c = true := by
  obtain ⟨w, hw, -⟩ := Option.map_eq_some_iff.mp h
  exact all_isSymbol_of_readWord? hw

end Decimal

end SqlResolution
