/-!
# Letter case

Names compare without regard to the case of ASCII letters. Every other character is left alone.
-/
namespace SqlResolution.Text

/-- ASCII capitals become small letters. -/
def lowerAscii (s : String) : String := String.ofList (s.toList.map Char.toLower)

/-- Equality up to the case of ASCII letters. -/
def eqIgnoringCase (a b : String) : Bool := lowerAscii a == lowerAscii b

@[simp] theorem toList_lowerAscii (s : String) :
    (lowerAscii s).toList = s.toList.map Char.toLower := by
  simp [lowerAscii]

theorem eqIgnoringCase_iff (a b : String) :
    eqIgnoringCase a b = true ↔ lowerAscii a = lowerAscii b := by
  simp [eqIgnoringCase]

theorem eqIgnoringCase_comm (a b : String) : eqIgnoringCase a b = eqIgnoringCase b a := by
  simp only [eqIgnoringCase]
  exact BEq.comm

/-- A text in small letters is no word that starts otherwise. -/
theorem lowerAscii_beq_of_head {s word : String} {c d : Char} {cs ds : List Char}
    (hs : s.toList = c :: cs) (hword : word.toList = d :: ds) (h : c.toLower ≠ d) :
    (lowerAscii s == word) = false := by
  rw [beq_eq_false_iff_ne, Ne, ← String.toList_inj, toList_lowerAscii, hs, hword, List.map_cons]
  exact fun heq => h (List.cons.inj heq).1

end SqlResolution.Text
