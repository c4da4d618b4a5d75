import SqlResolution.Text.Hex

/-!
# Numbers and their hexadecimal digits

The hexadecimal digits of a number read as the number, in the least width and in any other that
holds them. Digits after others count as the lower places. The least digits, filled up with zeros,
are those of the width.
-/
namespace SqlResolution.Text

-- Powers are the core ones, also where another instance is in scope.
attribute [local instance (high)] instPowNat

variable {cs ds : List Char} {m n : Nat}

/-! ### Reading digits after others -/

theorem foldlM_hexValue? (acc : Nat) (cs : List Char) :
    cs.foldlM (fun n c => (hexValue? c).map (n * 16 + ·)) acc =
      (readHex? cs).map (acc * 16 ^ cs.length + ·) := by
  induction cs generalizing acc with
  | nil => simp [readHex?]
  | cons c cs ih =>
    simp only [readHex?, List.foldlM_cons]
    cases hexValue? c with
    | none => rfl
    | some d =>
      simp only [Option.bind_eq_bind, Option.map_some, Option.bind_some, ih]
      simp [Function.comp_def, Nat.pow_succ, Nat.add_mul, Nat.mul_assoc, Nat.mul_comm 16,
        Nat.add_assoc]

theorem readHex?_append (cs ds : List Char) : readHex? (cs ++ ds) =
    (readHex? cs).bind fun m => (readHex? ds).map (m * 16 ^ ds.length + ·) := by
  rw [readHex?, List.foldlM_append]
  simp only [foldlM_hexValue? _ ds]
  rfl

theorem readHex?_append_eq_some_iff : readHex? (cs ++ ds) = some n ↔
    ∃ high low, readHex? cs = some high ∧ readHex? ds = some low ∧
      high * 16 ^ ds.length + low = n := by
  simp [readHex?_append, Option.bind_eq_some_iff, Option.map_eq_some_iff]

theorem hexValue?_lt {c : Char} (h : hexValue? c = some n) : n < 16 := by
  have hle : ∀ {a b : Char}, a ≤ b → a.toNat ≤ b.toNat := fun h => UInt32.le_iff_toNat_le.mp h
  unfold hexValue? at h
  split at h
  · rename_i hdigit
    have hcode : c.toNat ≤ 57 := (Char.isDigit_iff_toNat.mp hdigit).2
    have hzero : '0'.toNat = 48 := rfl
    have hn := Option.some.inj h
    omega
  · split at h
    · rename_i hsmall
      simp only [Bool.and_eq_true, decide_eq_true_eq] at hsmall
      have hcode : c.toNat ≤ 102 := hle hsmall.2
      have ha : 'a'.toNat = 97 := rfl
      have hn := Option.some.inj h
      omega
    · split at h
      · rename_i hlarge
        simp only [Bool.and_eq_true, decide_eq_true_eq] at hlarge
        have hcode : c.toNat ≤ 70 := hle hlarge.2
        have ha : 'A'.toNat = 65 := rfl
        have hn := Option.some.inj h
        omega
      · simp at h

theorem readHex?_singleton (c : Char) : readHex? [c] = hexValue? c := by
  cases h : hexValue? c <;> simp [readHex?, h]

theorem readHex?_lt (h : readHex? cs = some n) : n < 16 ^ cs.length := by
  induction cs generalizing n with
  | nil =>
    obtain rfl : 0 = n := by simpa [readHex?] using h
    decide
  | cons c cs ih =>
    rw [← List.singleton_append, readHex?_append_eq_some_iff] at h
    obtain ⟨high, low, hhigh, hlow, rfl⟩ := h
    rw [readHex?_singleton] at hhigh
    have hfirst := Nat.mul_le_mul_right (16 ^ cs.length) (Nat.le_of_lt_succ (hexValue?_lt hhigh))
    have hrest := ih hlow
    rw [List.length_cons, Nat.pow_succ]
    omega

/-! ### Digits of a number -/

theorem hexValue?_hexDigit (n : Nat) : hexValue? (hexDigit n) = some (n % 16) := by
  have hall : ∀ k < 16, hexValue? (Nat.digitChar k) = some k := by decide
  exact hall (n % 16) (Nat.mod_lt n (by decide))

/-- The low digits of a number are read as what they hold of it. -/
theorem readHex?_hexFixed_mod (width n : Nat) :
    readHex? (hexFixed width n) = some (n % 16 ^ width) := by
  induction width generalizing n with
  | zero => simp [hexFixed, readHex?, Nat.mod_one]
  | succ width ih =>
    rw [hexFixed, readHex?_append_eq_some_iff]
    refine ⟨n / 16 % 16 ^ width, n % 16, ih (n / 16), ?_, ?_⟩
    · rw [readHex?_singleton, hexValue?_hexDigit]
    · have hmod : n % 16 ^ (width + 1) = n % 16 + 16 * (n / 16 % 16 ^ width) := by
        rw [Nat.pow_succ, Nat.mul_comm, Nat.mod_mul]
      rw [hmod, List.length_singleton]
      omega

theorem readHex?_hexFixed {width n : Nat} (h : n < 16 ^ width) :
    readHex? (hexFixed width n) = some n := by
  rw [readHex?_hexFixed_mod, Nat.mod_eq_of_lt h]

theorem readHex?_hexLeast (n : Nat) : readHex? (hexLeast n) = some n := by
  induction n using Nat.strongRecOn with
  | ind n ih =>
    have hdigit : readHex? [hexDigit n] = some (n % 16) := by
      rw [readHex?_singleton, hexValue?_hexDigit]
    by_cases hsmall : n < 16
    · rw [Nat.mod_eq_of_lt hsmall] at hdigit
      rwa [hexDigit, Nat.mod_eq_of_lt hsmall, ← Nat.toDigits_of_lt_base hsmall] at hdigit
    · have hsplit : hexLeast n = hexLeast (n / 16) ++ [hexDigit n] :=
        Nat.toDigits_of_base_le (by decide) (by omega)
      rw [hsplit, readHex?_append_eq_some_iff]
      refine ⟨n / 16, n % 16, ih (n / 16) (by omega), hdigit, ?_⟩
      rw [List.length_singleton]
      omega

theorem length_hexLeast_le_iff {width : Nat} (h : 0 < width) :
    (hexLeast n).length ≤ width ↔ n < 16 ^ width :=
  Nat.length_toDigits_le_iff (by decide) h

/-! ### Widths -/

theorem hexDigit_mod (n : Nat) : hexDigit (n % 16) = hexDigit n := by
  rw [hexDigit, hexDigit, Nat.mod_mod]

/-- The digits of a width are those of what the width holds of the number. -/
theorem hexFixed_mod (width n : Nat) : hexFixed width (n % 16 ^ width) = hexFixed width n := by
  induction width generalizing n with
  | zero => rfl
  | succ width ih =>
    have hhigh : n % 16 ^ (width + 1) / 16 = n / 16 % 16 ^ width := by
      rw [Nat.pow_succ, Nat.mul_comm, Nat.mod_mul_right_div_self]
    have hlow : n % 16 ^ (width + 1) % 16 = n % 16 := by
      rw [Nat.pow_succ, Nat.mul_comm, Nat.mod_mul_right_mod]
    rw [hexFixed, hexFixed, hhigh, ih, ← hexDigit_mod, hlow, hexDigit_mod]

/-- Digits of a width after those of the number without them. -/
theorem hexFixed_add (front back n : Nat) :
    hexFixed (front + back) n = hexFixed front (n / 16 ^ back) ++ hexFixed back n := by
  induction back generalizing n with
  | zero => simp [hexFixed]
  | succ back ih =>
    have hdiv : n / 16 / 16 ^ back = n / 16 ^ (back + 1) := by
      rw [Nat.div_div_eq_div_mul, Nat.pow_succ, Nat.mul_comm]
    rw [← Nat.add_assoc, hexFixed, ih, hdiv, hexFixed, List.append_assoc]

theorem hexFixed_zero (width : Nat) : hexFixed width 0 = List.replicate width '0' := by
  induction width with
  | zero => rfl
  | succ width ih =>
    rw [hexFixed, Nat.zero_div, ih, List.replicate_succ']
    rfl

/-- Filling up to a width gives the digits of the width, where the number has no more of them. -/
theorem hexPadded_eq_hexFixed {width n : Nat} (hwidth : 0 < width) (h : n < 16 ^ width) :
    hexPadded width n = hexFixed width n := by
  induction width generalizing n with
  | zero => exact absurd hwidth (Nat.lt_irrefl 0)
  | succ width ih =>
    by_cases hsmall : n < 16
    · have hdigit : hexLeast n = [hexDigit n] := by
        rw [hexLeast, Nat.toDigits_of_lt_base hsmall, hexDigit, Nat.mod_eq_of_lt hsmall]
      rw [hexPadded, List.leftpad, hdigit, hexFixed, Nat.div_eq_of_lt hsmall, hexFixed_zero]
      rfl
    · have hsplit : hexLeast n = hexLeast (n / 16) ++ [hexDigit n] :=
        Nat.toDigits_of_base_le (by decide) (Nat.le_of_not_lt hsmall)
      have hquotient : n / 16 < 16 ^ width := by
        rw [Nat.pow_succ, Nat.mul_comm] at h
        exact Nat.div_lt_of_lt_mul h
      have hpos : 0 < width := by
        refine Nat.pos_of_ne_zero ?_
        rintro rfl
        exact hsmall h
      have hrest := ih hpos hquotient
      rw [hexPadded, List.leftpad] at hrest
      rw [hexPadded, List.leftpad, hsplit, List.length_append, List.length_singleton,
        Nat.add_sub_add_right, ← List.append_assoc, hrest, hexFixed]

/-! ### Characters of digits -/

/-- Digits are read, and nothing else is. -/
theorem isSome_readHex? (cs : List Char) : (readHex? cs).isSome = cs.all isHexDigit := by
  induction cs with
  | nil => rfl
  | cons c cs ih =>
    rw [← List.singleton_append, readHex?_append, readHex?_singleton, List.singleton_append,
      List.all_cons, isHexDigit, ← ih]
    cases hexValue? c with
    | none => rfl
    | some d => simp

theorem isAlphanum_of_hexValue? {c : Char} {n : Nat} (h : hexValue? c = some n) :
    c.isAlphanum = true := by
  unfold hexValue? at h
  unfold Char.isAlphanum Char.isAlpha Char.isUpper Char.isLower
  simp only [Bool.or_eq_true, Bool.and_eq_true, decide_eq_true_eq]
  split at h
  · rename_i hdigit
    exact .inr hdigit
  · split at h
    · rename_i hsmall
      simp only [Bool.and_eq_true, decide_eq_true_eq] at hsmall
      exact .inl (.inr ⟨hsmall.1, Nat.le_trans hsmall.2 (by decide)⟩)
    · split at h
      · rename_i hlarge
        simp only [Bool.and_eq_true, decide_eq_true_eq] at hlarge
        exact .inl (.inl ⟨hlarge.1, Nat.le_trans hlarge.2 (by decide)⟩)
      · cases h

theorem isAlphanum_of_foldlM_hexValue? {cs : List Char} {acc n : Nat}
    (h : cs.foldlM (fun n c => (hexValue? c).map (n * 16 + ·)) acc = some n) :
    ∀ c ∈ cs, c.isAlphanum = true := by
  induction cs generalizing acc with
  | nil => simp
  | cons c cs ih =>
    simp only [List.foldlM_cons, Option.bind_eq_bind, Option.bind_eq_some_iff,
      Option.map_eq_some_iff] at h
    obtain ⟨_, ⟨_, hdigit, rfl⟩, hrest⟩ := h
    exact List.forall_mem_cons.mpr ⟨isAlphanum_of_hexValue? hdigit, ih hrest⟩

end SqlResolution.Text
