import SqlResolution.Text.Blank
import SqlResolution.Text.Integer

/-!
# Numbers and their digits

The decimal digits of a number, and its text with a sign, read as the number.
-/
namespace SqlResolution.Text

-- Powers are the core ones, also where another instance is in scope.
attribute [local instance (high)] instPowNat

theorem digitsValue_eq (acc : Nat) (cs : List Char) :
    digitsValue acc cs = Nat.ofDigitChars 10 cs acc := by
  rw [digitsValue, Nat.ofDigitChars_eq_foldl]
  simp only [Nat.mul_comm]

theorem digitsValue_append (acc : Nat) (cs ds : List Char) :
    digitsValue acc (cs ++ ds) = digitsValue (digitsValue acc cs) ds :=
  List.foldl_append

/-- What was read before counts once for each place of the digits after it. -/
theorem digitsValue_eq_add (acc : Nat) (cs : List Char) :
    digitsValue acc cs = acc * 10 ^ cs.length + digitsValue 0 cs := by
  induction cs generalizing acc with
  | nil => simp [digitsValue]
  | cons c cs ih =>
    have hacc : digitsValue acc (c :: cs) = digitsValue (acc * 10 + (c.toNat - '0'.toNat)) cs := rfl
    have hzero : digitsValue 0 (c :: cs) = digitsValue (0 * 10 + (c.toNat - '0'.toNat)) cs := rfl
    rw [hacc, hzero, ih, ih (0 * 10 + _), List.length_cons, Nat.pow_succ, Nat.zero_mul,
      Nat.zero_add, Nat.add_mul, Nat.mul_assoc, Nat.mul_comm 10, Nat.add_assoc]

theorem digitsValue_zeros (count : Nat) (cs : List Char) :
    digitsValue 0 (List.replicate count '0' ++ cs) = digitsValue 0 cs := by
  induction count with
  | zero => rfl
  | succ count ih => exact ih

theorem digitsValue_append_zeros (cs : List Char) (count : Nat) :
    digitsValue 0 (cs ++ List.replicate count '0') = digitsValue 0 cs * 10 ^ count := by
  have hzeros : digitsValue 0 (List.replicate count '0') = 0 := by
    simpa [digitsValue] using digitsValue_zeros count []
  rw [digitsValue_append, digitsValue_eq_add, hzeros, List.length_replicate, Nat.add_zero]

theorem digitsValue_cons (c : Char) (cs : List Char) :
    digitsValue 0 (c :: cs) = (c.toNat - '0'.toNat) * 10 ^ cs.length + digitsValue 0 cs := by
  rw [← digitsValue_eq_add]
  simp [digitsValue]

theorem digitsValue_lt {cs : List Char} (h : ∀ c ∈ cs, c.isDigit = true) :
    digitsValue 0 cs < 10 ^ cs.length := by
  induction cs with
  | nil => decide
  | cons c cs ih =>
    obtain ⟨hc, hcs⟩ := List.forall_mem_cons.mp h
    have hrest := ih hcs
    have hdigit := (Char.isDigit_iff_toNat.mp hc).2
    have hle : (c.toNat - '0'.toNat) * 10 ^ cs.length ≤ 9 * 10 ^ cs.length :=
      Nat.mul_le_mul_right _ (by simp at hdigit ⊢; omega)
    rw [digitsValue_cons, List.length_cons, Nat.pow_succ]
    omega

/-- Two texts of as many digits that stand for one number are the same. -/
theorem eq_of_digitsValue_eq {cs ds : List Char} (hcs : ∀ c ∈ cs, c.isDigit = true)
    (hds : ∀ d ∈ ds, d.isDigit = true) (hlength : cs.length = ds.length)
    (h : digitsValue 0 cs = digitsValue 0 ds) : cs = ds := by
  induction cs generalizing ds with
  | nil => exact (List.length_eq_zero_iff.mp hlength.symm).symm
  | cons c cs ih =>
    obtain _ | ⟨d, ds⟩ := ds
    · simp at hlength
    · obtain ⟨hc, hcs⟩ := List.forall_mem_cons.mp hcs
      obtain ⟨hd, hds⟩ := List.forall_mem_cons.mp hds
      have hlength : cs.length = ds.length := Nat.succ.inj hlength
      have hcslt := digitsValue_lt hcs
      have hdslt := digitsValue_lt hds
      rw [digitsValue_cons, digitsValue_cons, hlength] at h
      rw [hlength] at hcslt
      have hhead : c.toNat - '0'.toNat = d.toNat - '0'.toNat := by
        have hdiv := congrArg (· / 10 ^ ds.length) h
        simpa [Nat.mul_add_div, Nat.mul_comm _ (10 ^ ds.length), Nat.div_eq_of_lt, hcslt, hdslt,
          Nat.pow_pos] using hdiv
      have hchars : c = d := by
        have hc := (Char.isDigit_iff_toNat.mp hc).1
        have hd := (Char.isDigit_iff_toNat.mp hd).1
        exact Char.toNat_inj.mp (by omega)
      rw [hhead] at h
      rw [hchars, ih hcs hds hlength (Nat.add_left_cancel h)]

/-- The first digits of a number stand for what is left of it when the places after them are cut
off. -/
theorem digitsValue_take {cs : List Char} (h : ∀ c ∈ cs, c.isDigit = true) (count : Nat) :
    digitsValue 0 (cs.take count) = digitsValue 0 cs / 10 ^ (cs.length - count) := by
  have hsplit := congrArg (digitsValue 0) (List.take_append_drop count cs)
  rw [digitsValue_append, digitsValue_eq_add, List.length_drop] at hsplit
  have hdrop : ∀ c ∈ cs.drop count, c.isDigit = true := fun c hc => h c (List.mem_of_mem_drop hc)
  have hlt : digitsValue 0 (cs.drop count) < 10 ^ (cs.length - count) := by
    simpa using digitsValue_lt hdrop
  rw [← hsplit, Nat.mul_comm, Nat.mul_add_div (Nat.pow_pos (by decide)), Nat.div_eq_of_lt hlt,
    Nat.add_zero]

/-- A decimal fraction cut to some places, which are filled up with zeros where it has fewer. -/
theorem digitsValue_places {cs : List Char} (h : ∀ c ∈ cs, c.isDigit = true) (places : Nat) :
    digitsValue 0 ((cs ++ List.replicate places '0').take places) =
      digitsValue 0 cs * 10 ^ places / 10 ^ cs.length := by
  have hdigits : ∀ c ∈ cs ++ List.replicate places '0', c.isDigit = true := by
    intro c hc
    obtain hc | hzero := List.mem_append.mp hc
    · exact h c hc
    · rw [List.eq_of_mem_replicate hzero]
      rfl
  rw [digitsValue_take hdigits, digitsValue_append_zeros, List.length_append,
    List.length_replicate, Nat.add_sub_cancel]

theorem isDigit_of_mem_toDigits {n : Nat} {c : Char} (h : c ∈ Nat.toDigits 10 n) :
    c.isDigit = true :=
  Nat.isDigit_of_mem_toDigits (by decide) (by decide) h

theorem toNat_of_isAlphanum {c : Char} (h : c.isAlphanum = true) :
    48 ≤ c.toNat ∧ c.toNat ≤ 122 := by
  unfold Char.isAlphanum Char.isAlpha Char.isUpper Char.isLower Char.isDigit at h
  simp only [Bool.or_eq_true, Bool.and_eq_true, decide_eq_true_eq, ge_iff_le] at h
  obtain (⟨hlo, hhi⟩ | ⟨hlo, hhi⟩) | ⟨hlo, hhi⟩ := h <;>
    exact ⟨Nat.le_trans (by decide) (UInt32.le_iff_toNat_le.mp hlo),
      Nat.le_trans (UInt32.le_iff_toNat_le.mp hhi) (by decide)⟩

theorem utf8Size_of_isAlphanum {c : Char} (h : c.isAlphanum = true) : c.utf8Size = 1 := by
  have hcode := (toNat_of_isAlphanum h).2
  rw [Char.utf8Size_eq_one_iff]
  exact UInt32.le_iff_toNat_le.mpr (Nat.le_trans hcode (by decide))

theorem isBlank_of_isAlphanum {c : Char} (h : c.isAlphanum = true) : isBlank c = false := by
  have hcode := toNat_of_isAlphanum h
  rw [Bool.eq_false_iff]
  intro hblank
  simp only [isBlank, Bool.or_eq_true, Bool.and_eq_true, decide_eq_true_eq, beq_iff_eq] at hblank
  omega

theorem isBlank_of_isDigit {c : Char} (h : c.isDigit = true) : isBlank c = false :=
  isBlank_of_isAlphanum (by simp [Char.isAlphanum, h])

theorem ne_of_isDigit {c d : Char} (hc : c.isDigit = true) (hd : d.isDigit = false) : c ≠ d := by
  intro h
  rw [h, hd] at hc
  exact Bool.false_ne_true hc

theorem toLower_of_not_isAlpha {c : Char} (h : c.isAlpha = false) : c.toLower = c := by
  refine dif_neg fun hupper => ?_
  have hupper : c.isUpper = true := decide_eq_true hupper
  have halpha : c.isAlpha = true := Bool.or_eq_true_iff.mpr (.inl hupper)
  rw [h] at halpha
  exact Bool.false_ne_true halpha

theorem isAlpha_of_isDigit {c : Char} (h : c.isDigit = true) : c.isAlpha = false := by
  have hcode : c.toNat ≤ 57 := (Char.isDigit_iff_toNat.mp h).2
  rw [Bool.eq_false_iff]
  intro halpha
  unfold Char.isAlpha Char.isUpper Char.isLower at halpha
  simp only [Bool.or_eq_true, Bool.and_eq_true, decide_eq_true_eq, ge_iff_le] at halpha
  obtain ⟨hlo, -⟩ | ⟨hlo, -⟩ := halpha
  · have hle : 65 ≤ c.toNat := UInt32.le_iff_toNat_le.mp hlo
    omega
  · have hle : 97 ≤ c.toNat := UInt32.le_iff_toNat_le.mp hlo
    omega

theorem isBlank_of_toLower {c : Char} (h : isBlank c.toLower = false) :
    isBlank c = false := by
  unfold Char.toLower at h
  split at h
  · rename_i hupper
    have hupper : c.isUpper = true := decide_eq_true hupper
    refine isBlank_of_isAlphanum ?_
    unfold Char.isAlphanum Char.isAlpha
    rw [hupper, Bool.true_or, Bool.true_or]
  · exact h

theorem readNat?_toDigits (n : Nat) : readNat? (Nat.toDigits 10 n) = some n := by
  rw [readNat?_eq_some_iff]
  refine ⟨Nat.toDigits_ne_nil, fun c hc => isDigit_of_mem_toDigits hc, ?_⟩
  rw [digitsValue_eq, Nat.ofDigitChars_toDigits (by decide) (by decide)]

/-- Digits without a sign are read as a number without one. -/
theorem readInt?_of_digits {cs : List Char} (h : ∀ c ∈ cs, c.isDigit = true) :
    readInt? cs = (readNat? cs).map Int.ofNat := by
  unfold readInt?
  split
  · have hsign := h '-' List.mem_cons_self
    cases hsign
  · have hsign := h '+' List.mem_cons_self
    cases hsign
  · rfl

/-- An integer is written in nothing but digits and a sign. -/
theorem readInt?_of_mem {c : Char} {cs : List Char} (hmem : c ∈ cs) (hdigit : c.isDigit = false)
    (hminus : c ≠ '-') (hplus : c ≠ '+') : readInt? cs = none := by
  have hread : ∀ ds, c ∈ ds → readNat? ds = none := by
    intro ds hds
    have hall : ds.all Char.isDigit = false := List.all_eq_false.mpr ⟨c, hds, by simp [hdigit]⟩
    simp [readNat?, hall]
  unfold readInt?
  split
  · simp [hread _ (List.mem_of_ne_of_mem hminus hmem)]
  · simp [hread _ (List.mem_of_ne_of_mem hplus hmem)]
  · simp [hread _ hmem]

theorem toList_repr_of_nonneg {n : Int} (h : 0 ≤ n) :
    n.repr.toList = Nat.toDigits 10 n.toNat := by
  rw [Int.repr_eq_if, if_pos h, Nat.toList_repr]

theorem toList_repr_of_neg {n : Int} (h : n < 0) :
    n.repr.toList = '-' :: Nat.toDigits 10 (-n).toNat := by
  rw [Int.repr_eq_if, if_neg (Int.not_le.mpr h), String.toList_append, Nat.toList_repr]
  rfl

/-- The text of an integer reads as it. -/
theorem readInt?_repr (n : Int) : readInt? n.repr.toList = some n := by
  by_cases h : 0 ≤ n
  · rw [toList_repr_of_nonneg h, readInt?_of_digits fun c hc => isDigit_of_mem_toDigits hc,
      readNat?_toDigits, Option.map_some, Int.ofNat_eq_natCast, Int.toNat_of_nonneg h]
  · have hneg : -((-n).toNat : Int) = n := by omega
    rw [toList_repr_of_neg (Int.not_le.mp h), readInt?, readNat?_toDigits]
    exact congrArg some hneg

theorem readInt64?_repr (n : Int64) : readInt64? n.toInt.repr.toList = some n := by
  have hrange : (Int64.minValue.toInt ≤ n.toInt && n.toInt ≤ Int64.maxValue.toInt) = true := by
    rw [Bool.and_eq_true, decide_eq_true_iff, decide_eq_true_iff]
    exact ⟨n.minValue_le_toInt, n.toInt_le⟩
  rw [readInt64?, readIntBetween?, readInt?_repr, Option.filter_some, if_pos hrange,
    Option.map_some, Int64.ofInt_toInt]

end SqlResolution.Text
