import Mathlib.Data.List.Forall2
import Mathlib.Data.Nat.Digits.Defs
import SqlResolution.Proofs.Literal.Number
import SqlResolution.Proofs.Long256

/-!
# Literals of 256 bits

One to 64 hexadecimal digits after `0x` are a LONG256 constant of the number they stand for, and
more than 64 are rejected. The text of every LONG256 is such a literal and reads as the same words.
-/
namespace SqlResolution.Literal

open Text Long256

-- Powers are the core ones, also where another instance is in scope.
attribute [local instance (high)] instPowNat

/-! ### Hexadecimal digits -/

/-- The character is the digit, small or capital. -/
def IsHexDigit (c : Char) (d : Nat) : Prop :=
  "0123456789abcdef".toList[d]? = some c ∨ "0123456789ABCDEF".toList[d]? = some c

instance (c : Char) (d : Nat) : Decidable (IsHexDigit c d) := inferInstanceAs (Decidable (_ ∨ _))

theorem hexValue?_of_isHexDigit {c : Char} {d : Nat} (h : IsHexDigit c d) :
    hexValue? c = some d := by
  have hsmall : ∀ digit ∈ "0123456789abcdef".toList.zipIdx,
      hexValue? digit.1 = some digit.2 := by decide
  have hcapital : ∀ digit ∈ "0123456789ABCDEF".toList.zipIdx,
      hexValue? digit.1 = some digit.2 := by decide
  obtain h | h := h
  · exact hsmall (c, d) (List.mk_mem_zipIdx_iff_getElem?.mpr h)
  · exact hcapital (c, d) (List.mk_mem_zipIdx_iff_getElem?.mpr h)

theorem readHex?_of_isHexDigit {cs : List Char} {ds : List Nat}
    (h : List.Forall₂ IsHexDigit cs ds) : readHex? cs = some (Nat.ofDigits 16 ds.reverse) := by
  induction h with
  | nil => rfl
  | @cons c d cs ds hc hcs ih =>
    rw [← List.singleton_append, readHex?_append_eq_some_iff]
    refine ⟨d, Nat.ofDigits 16 ds.reverse, ?_, ih, ?_⟩
    · rw [readHex?_singleton, hexValue?_of_isHexDigit hc]
    · rw [List.reverse_cons, Nat.ofDigits_append, Nat.ofDigits_singleton, List.length_reverse,
        hcs.length_eq, Nat.add_comm, Nat.mul_comm]

/-! ### Tokens -/

/-- A token that starts as such a literal does is one, or it is rejected. -/
theorem parse_opening {x : Char} (hx : x = 'x' ∨ x = 'X') {cs : List Char}
    {n? : Option (BitVec 256)} (hread : read cs = .ok n?) (span : Span) :
    parse span (String.ofList ('0' :: x :: cs)) = match n? with
      | some n => .ok (.constant .long256 (.long256 n))
      | none => .error (.invalidConstant (String.ofList ('0' :: x :: cs)) span) := by
  have hnumber : number? ('0' :: x :: cs) = none := by
    have hmem : x ∈ '0' :: x :: cs := by simp
    obtain rfl | rfl := hx
    all_goals exact number?_of_mem hmem rfl (by decide)
  have hlong256 : long256 ('0' :: x :: cs) = .ok n? := by
    obtain rfl | rfl := hx
    all_goals simp [long256, dropOpening?, hread]
  have hbits : bits (String.ofList ('0' :: x :: cs)).toList =
      .ok (n?.map fun n => .constant .long256 (.long256 n)) := by
    rw [String.toList_ofList]
    simp [bits, Geohash.parseLiteral?, hlong256, Except.map]
  rw [parse_of_head String.toList_ofList rfl rfl (by decide) (by decide) hbits,
    String.toList_ofList, hnumber]
  cases n? with
  | some n => rfl
  | none => rfl

/-- The text of a number of 256 bits is a literal of it. -/
theorem parse_text_long256 (span : Span) (n : BitVec 256) :
    parse span (Value.long256 n).text = .ok (.constant .long256 (.long256 n)) := by
  have htext : (Value.long256 n).text =
      String.ofList ('0' :: 'x' :: digits (limbs n).reverse) := by
    rw [Value.text, Long256.text, ← String.toList_inj]
    simp
  rw [htext, parse_opening (.inl rfl) (read_digits n)]

/-- One to 64 hexadecimal digits after `0x` are a LONG256 constant, the words of which stand for
the number of the digits, and more of them are rejected. The text of every four words is such a
literal, and it reads as a LONG256 constant of the same words. -/
theorem parse_hexadecimal (span : Span) :
    (∀ (x : Char) (cs : List Char) (ds : List Nat), x = 'x' ∨ x = 'X' →
      List.Forall₂ IsHexDigit cs ds →
        (1 ≤ cs.length ∧ cs.length ≤ 64 → ∃ n,
          parse span (String.ofList ('0' :: x :: cs)) = .ok (.constant .long256 (.long256 n)) ∧
            value (limbs n) = Nat.ofDigits 16 ds.reverse) ∧
        (64 < cs.length → parse span (String.ofList ('0' :: x :: cs)) =
          .error (.invalidConstant (String.ofList ('0' :: x :: cs)) span))) ∧
    ∀ a b c d : BitVec 64, ∃ n,
      parse span (Value.long256 (ofLimbs [a, b, c, d])).text =
          .ok (.constant .long256 (.long256 n)) ∧
        limbs n = [a, b, c, d] := by
  refine ⟨fun x cs ds hx hdigits => ⟨?_, ?_⟩, fun a b c d => ?_⟩
  · rintro ⟨hpos, hle⟩
    have hne : cs ≠ [] := List.ne_nil_of_length_pos hpos
    obtain ⟨hread, hlt⟩ := read_of_readHex? hne hle (readHex?_of_isHexDigit hdigits)
    refine ⟨_, by rw [parse_opening hx hread], ?_⟩
    rw [value_limbs, BitVec.toNat_ofNat, Nat.mod_eq_of_lt hlt]
  · intro hlong
    rw [parse_opening hx (read_of_length_lt hlong)]
  · exact ⟨ofLimbs [a, b, c, d], parse_text_long256 span _, limbs_ofLimbs a b c d⟩

theorem parse_hexadecimal_wide :
    List.Forall₂ IsHexDigit ('f' :: 'F' :: List.replicate 16 '0')
      (15 :: 15 :: List.replicate 16 0) ∧
    (∃ n, parse .none "0XfF0000000000000000" = .ok (.constant .long256 (.long256 n)) ∧
      value (limbs n) = 255 * 2 ^ (64 : Nat)) ∧
    parse .none (String.ofList ('0' :: 'x' :: List.replicate 65 'f')) =
      .error (.invalidConstant (String.ofList ('0' :: 'x' :: List.replicate 65 'f')) .none) := by
  have hwide : List.Forall₂ IsHexDigit ('f' :: 'F' :: List.replicate 16 '0')
      (15 :: 15 :: List.replicate 16 0) := by decide
  have hlong : List.Forall₂ IsHexDigit (List.replicate 65 'f') (List.replicate 65 15) := by decide
  have hhexadecimal := (parse_hexadecimal .none).1
  refine ⟨hwide, ?_, (hhexadecimal 'x' _ _ (.inl rfl) hlong).2 (by decide)⟩
  obtain ⟨n, hparse, hvalue⟩ := (hhexadecimal 'X' _ _ (.inr rfl) hwide).1 (by decide)
  exact ⟨n, hparse, hvalue.trans (by decide)⟩

end SqlResolution.Literal
