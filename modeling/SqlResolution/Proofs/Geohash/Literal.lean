import SqlResolution.Proofs.Geohash.Narrowing
import SqlResolution.Value.Adapt

/-!
# The forms of a geohash

A literal of base-32 digits has five bits a digit, and the same single bits write the same geohash.
A precision after the digits keeps their leading bits, as narrowing and the casts do. So it is one
geohash of each precision that a text has, whichever way it is read.
-/
namespace SqlResolution.Geohash

-- Powers are the core ones, also where another instance is in scope.
attribute [local instance (high)] instPowNat

variable {cs ds : List Char} {bits a b k n : Nat} {l : Literal} {v : Int64}

/-! ### Single bits -/

/-- The number of a bit, or of several after `n`. -/
def bitsFrom (n : Nat) (cs : List Char) : Nat :=
  cs.foldl (fun n c => n * 2 + (if c == '1' then 1 else 0)) n

theorem bitsFrom_eq (n : Nat) (cs : List Char) :
    bitsFrom n cs = n * 2 ^ cs.length + bitsFrom 0 cs := by
  induction cs generalizing n with
  | nil => simp [bitsFrom]
  | cons c cs ih =>
    change bitsFrom (n * 2 + _) cs = _ + bitsFrom (0 * 2 + _) cs
    rw [ih, ih (0 * 2 + _), List.length_cons, Nat.pow_succ']
    simp only [Nat.zero_mul, Nat.zero_add, Nat.add_mul, Nat.mul_assoc, Nat.add_assoc]

theorem bitsFrom_lt (n : Nat) (cs : List Char) : bitsFrom n cs < (n + 1) * 2 ^ cs.length := by
  induction cs generalizing n with
  | nil => simp [bitsFrom]
  | cons c cs ih =>
    have hbit : (if c == '1' then 1 else 0) ≤ 1 := by split <;> decide
    calc bitsFrom n (c :: cs)
        < (n * 2 + (if c == '1' then 1 else 0) + 1) * 2 ^ cs.length := ih _
      _ ≤ ((n + 1) * 2) * 2 ^ cs.length := Nat.mul_le_mul_right _ (by omega)
      _ = (n + 1) * 2 ^ (c :: cs).length := by
        rw [List.length_cons, Nat.pow_succ', Nat.mul_assoc]

theorem readBits?_eq_some_iff :
    readBits? cs = some n ↔ (∀ c ∈ cs, c = '0' ∨ c = '1') ∧ bitsFrom 0 cs = n := by
  unfold readBits?
  split
  · rename_i hbits
    simp only [List.all_eq_true, Bool.or_eq_true, beq_iff_eq] at hbits
    rw [Option.some.injEq, and_iff_right hbits, bitsFrom]
  · rename_i hbits
    simp only [List.all_eq_true, Bool.or_eq_true, beq_iff_eq] at hbits
    simp [hbits]

/-- The five bits of a digit's value, most significant first. -/
def fiveBits (k : Nat) : List Char :=
  [4, 3, 2, 1, 0].map fun i => if k.testBit i then '1' else '0'

/-- The bits of base-32 digits. -/
def bitText (cs : List Char) : List Char :=
  cs.flatMap fun c => fiveBits ((digitValue? c).getD 0)

theorem length_bitText (cs : List Char) : (bitText cs).length = cs.length * 5 := by
  induction cs with
  | nil => rfl
  | cons c cs ih =>
    rw [bitText, List.flatMap_cons, List.length_append, ← bitText, ih, List.length_cons]
    change 5 + cs.length * 5 = _
    omega

theorem bitsFrom_fiveBits (n : Nat) (hk : k < 32) : bitsFrom n (fiveBits k) = n * 32 + k := by
  have hall : ∀ k < 32, bitsFrom 0 (fiveBits k) = k := by decide
  rw [bitsFrom_eq, hall k hk]
  rfl

theorem eq_zero_or_one_of_mem_fiveBits {c : Char} (h : c ∈ fiveBits k) : c = '0' ∨ c = '1' := by
  obtain ⟨i, -, rfl⟩ := List.mem_map.mp h
  split
  · exact .inr rfl
  · exact .inl rfl

/-- The bits of digits write the number of the digits. -/
theorem readBits?_bitText (h : readDigits? cs = some n) : readBits? (bitText cs) = some n := by
  induction cs using List.reverseRecOn generalizing n with
  | nil =>
    cases h
    rfl
  | append_singleton cs c ih =>
    rw [readDigits?_concat, Option.bind_eq_some_iff] at h
    obtain ⟨m, hm, hdigit⟩ := h
    obtain ⟨k, hk, rfl⟩ := Option.map_eq_some_iff.mp hdigit
    obtain ⟨hbits, hvalue⟩ := readBits?_eq_some_iff.mp (ih hm)
    have hsplit : bitText (cs ++ [c]) = bitText cs ++ fiveBits k := by
      simp [bitText, hk]
    rw [hsplit, readBits?_eq_some_iff]
    constructor
    · intro d hd
      obtain hd | hd := List.mem_append.mp hd
      · exact hbits d hd
      · exact eq_zero_or_one_of_mem_fiveBits hd
    · rw [bitsFrom, List.foldl_append, ← bitsFrom, ← bitsFrom, hvalue,
        bitsFrom_fiveBits m (digitValue?_eq_some_iff.mp hk).1]

theorem ofBits?_eq_some_iff : ofBits? cs = some l ↔
    0 < cs.length ∧ cs.length ≤ maxGeohashBits ∧
      ∃ n, readBits? cs = some n ∧ l = ⟨cs.length, Int64.ofNat n⟩ := by
  rw [ofBits?, Option.ite_none_left_eq_some, Option.map_eq_some_iff]
  simp only [Bool.or_eq_true, List.isEmpty_iff, decide_eq_true_eq, not_or, Nat.not_lt,
    ← List.length_pos_iff, and_assoc, @eq_comm _ l]

/-! ### Digits -/

theorem length_le_byteLength (cs : List Char) : cs.length ≤ Text.byteLength cs := by
  induction cs with
  | nil => exact Nat.le_refl _
  | cons c cs ih =>
    have hpos := c.utf8Size_pos
    have hsum : Text.byteLength (c :: cs) = c.utf8Size + Text.byteLength cs := rfl
    rw [List.length_cons, hsum]
    omega

/-- A digit is one byte long. -/
theorem utf8Size_of_toLower_mem {c : Char} (h : c.toLower ∈ alphabet) : c.utf8Size = 1 := by
  have hascii : alphabet.all (fun d => d.toNat ≤ 127) = true := by decide
  have hlower := of_decide_eq_true (List.all_eq_true.mp hascii _ h)
  rw [Char.utf8Size_eq_one_iff]
  unfold Char.toLower at hlower
  split at hlower
  · rename_i hupper
    exact UInt32.le_trans hupper.2 (by decide)
  · exact UInt32.le_iff_toNat_le.mpr hlower

theorem byteLength_of_readDigits? (h : readDigits? cs = some n) :
    Text.byteLength cs = cs.length := by
  have hdigits := isSome_readDigits?_iff.mp (Option.isSome_of_eq_some h)
  clear h
  induction cs with
  | nil => rfl
  | cons c cs ih =>
    obtain ⟨hc, hcs⟩ := List.forall_mem_cons.mp hdigits
    change c.utf8Size + Text.byteLength cs = _
    rw [utf8Size_of_toLower_mem hc, ih hcs, List.length_cons, Nat.add_comm]

theorem ofDigits?_eq_some_iff {given : Option Nat} : ofDigits? cs given = some l ↔
    given.getD (Text.byteLength cs * 5) = l.bits ∧ Text.byteLength cs * 5 ≤ maxGeohashBits ∧
      l.bits ≤ Text.byteLength cs * 5 ∧ ofText? cs l.bits = some l.value := by
  rw [ofDigits?, Option.ite_none_left_eq_some, Option.map_eq_some_iff]
  simp only [Bool.or_eq_true, beq_iff_eq, decide_eq_true_eq, not_or, Nat.not_lt]
  constructor
  · rintro ⟨⟨⟨⟨-, hle⟩, -⟩, hfits⟩, v, hv, rfl⟩
    exact ⟨rfl, hle, hfits, hv⟩
  · rintro ⟨hbits, hle, hfits, htext⟩
    have hpos := (toInt_of_ofText? htext).1
    rw [hbits]
    exact ⟨⟨⟨⟨by omega, hle⟩, by omega⟩, hfits⟩, l.value, htext, rfl⟩

/-- Up to twelve digits write a geohash of five bits a digit. -/
theorem ofDigits?_none_eq_some_iff : ofDigits? cs none = some l ↔
    0 < cs.length ∧ cs.length * 5 ≤ maxGeohashBits ∧
      ∃ n, readDigits? cs = some n ∧ l = ⟨cs.length * 5, Int64.ofNat n⟩ := by
  have hsize : ∀ size : Nat, (size * 5 + 4) / 5 = size := by omega
  rw [ofDigits?_eq_some_iff, Option.getD_none]
  constructor
  · rintro ⟨hbits, hle, -, htext⟩
    rw [← hbits] at htext
    obtain ⟨n, ⟨hpos, -, hlength, hread⟩, hvalue⟩ := ofText?_eq_some_iff.mp htext
    rw [hsize] at hlength hread hvalue
    have hbytes : Text.byteLength cs = cs.length :=
      Nat.le_antisymm hlength (length_le_byteLength cs)
    rw [hbytes] at hbits hle hpos hread hvalue
    rw [List.take_length] at hread
    rw [Nat.sub_self, Nat.pow_zero, Nat.div_one] at hvalue
    obtain ⟨_, _⟩ := l
    cases hbits
    cases hvalue
    exact ⟨by omega, hle, n, hread, rfl⟩
  · rintro ⟨hpos, hle, n, hread, rfl⟩
    rw [byteLength_of_readDigits? hread]
    refine ⟨rfl, hle, Nat.le_refl _, ofText?_eq_some_iff.mpr ⟨n, ⟨?_, hle, ?_, ?_⟩, ?_⟩⟩
    · exact Nat.mul_pos hpos (by decide)
    · exact Nat.le_of_eq (hsize _)
    · rw [hsize, List.take_length, hread]
    · rw [hsize, Nat.sub_self, Nat.pow_zero, Nat.div_one]

theorem ofText?_of_ofDigits? (h : ofDigits? cs none = some l) :
    ofText? cs l.bits = some l.value :=
  (ofDigits?_eq_some_iff.mp h).2.2.2

/-- Digits with a precision write the leading bits of the digits. -/
theorem ofDigits?_some (h : ofDigits? cs none = some l) (n : Nat) :
    ofDigits? cs (some n) =
      if 0 < n ∧ n ≤ l.bits then some ⟨n, narrow l.value l.bits n⟩ else none := by
  obtain ⟨hbits, hle, -, htext⟩ := ofDigits?_eq_some_iff.mp h
  rw [Option.getD_none] at hbits
  split
  · rename_i hn
    exact ofDigits?_eq_some_iff.mpr ⟨rfl, hle, hbits ▸ hn.2, ofText?_of_le hn.1 hn.2 htext⟩
  · rename_i hn
    rw [Option.eq_none_iff_forall_ne_some]
    intro k hk
    obtain ⟨rfl, -, hfits, hk⟩ := ofDigits?_eq_some_iff.mp hk
    exact hn ⟨(toInt_of_ofText? hk).1, hbits ▸ hfits⟩

/-- Digits with a precision write the leading bits of those digits that hold them. -/
theorem exists_ofDigits?_take (h : ofDigits? cs (some n) = some l) :
    ∃ whole, ofDigits? (cs.take ((n + 4) / 5)) none = some whole ∧ n ≤ whole.bits ∧
      l = ⟨n, narrow whole.value whole.bits n⟩ := by
  obtain ⟨hbits, -, -, htext⟩ := ofDigits?_eq_some_iff.mp h
  rw [Option.getD_some] at hbits
  subst hbits
  obtain ⟨m, ⟨hpos, hle, hlength, hread⟩, hvalue⟩ := ofText?_eq_some_iff.mp htext
  have htake : (cs.take ((l.bits + 4) / 5)).length = (l.bits + 4) / 5 := by
    rw [List.length_take, Nat.min_eq_left hlength]
  have hmax : maxGeohashBits = 60 := rfl
  have hwhole : ofDigits? (cs.take ((l.bits + 4) / 5)) none =
      some ⟨(l.bits + 4) / 5 * 5, Int64.ofNat m⟩ := by
    rw [ofDigits?_none_eq_some_iff, htake]
    exact ⟨by omega, by omega, m, hread, rfl⟩
  have hfits : l.bits ≤ (l.bits + 4) / 5 * 5 := by omega
  refine ⟨_, hwhole, hfits, ?_⟩
  have hnarrow := ofText?_of_le hpos hfits (ofText?_of_ofDigits? hwhole)
  have hsame : ofText? (cs.take ((l.bits + 4) / 5)) l.bits = ofText? cs l.bits := by
    rw [htext, ofText?_eq_some_iff]
    exact ⟨m, ⟨hpos, hle, Nat.le_of_eq htake.symm, by rwa [List.take_take, Nat.min_self]⟩, hvalue⟩
  rw [hsame, htext] at hnarrow
  rw [← Option.some.inj hnarrow]

/-! ### Literals -/

theorem parseLiteral?_digits (hmark : cs.head? ≠ some '#') (hslash : '/' ∉ cs) :
    parseLiteral? ('#' :: cs) = ofDigits? cs none := by
  unfold parseLiteral?
  split
  · rename_i heq
    cases heq
    exact absurd rfl hmark
  · rename_i heq
    cases heq
    rw [Text.splitOnce?_of_notMem hslash]
  · rename_i hother
    exact absurd rfl (hother cs)

theorem parseLiteral?_precision (hmark : cs.head? ≠ some '#') (hslash : '/' ∉ cs) (ds : List Char) :
    parseLiteral? ('#' :: (cs ++ '/' :: ds)) =
      (Text.readNatUpTo? 255 ds).bind fun n => ofDigits? cs (some n) := by
  unfold parseLiteral?
  split
  · rename_i heq
    obtain ⟨-, heq⟩ := List.cons.inj heq
    cases cs with
    | nil => cases heq
    | cons c cs =>
      cases heq
      exact absurd rfl hmark
  · rename_i heq
    cases heq
    rw [Text.splitOnce?_append hslash]
    rfl
  · rename_i hother
    exact absurd rfl (hother _)

/-- A literal has a precision, and a value of so many bits. -/
theorem toInt_of_parseLiteral? {token : List Char} (h : parseLiteral? token = some l) :
    0 < l.bits ∧ l.bits ≤ maxGeohashBits ∧ 0 ≤ l.value.toInt ∧
      l.value.toInt < (2 ^ l.bits : Nat) := by
  have hdigits : ∀ cs given, ofDigits? cs given = some l → 0 < l.bits ∧
      l.bits ≤ maxGeohashBits ∧ 0 ≤ l.value.toInt ∧ l.value.toInt < (2 ^ l.bits : Nat) :=
    fun cs given hl => toInt_of_ofText? (ofDigits?_eq_some_iff.mp hl).2.2.2
  unfold parseLiteral? at h
  split at h
  · obtain ⟨hpos, hle, n, hn, rfl⟩ := ofBits?_eq_some_iff.mp h
    obtain ⟨-, rfl⟩ := readBits?_eq_some_iff.mp hn
    rename_i cs
    have hlt := bitsFrom_lt 0 cs
    rw [Nat.zero_add, Nat.one_mul] at hlt
    have hvalue : (Int64.ofNat (bitsFrom 0 cs)).toInt = (bitsFrom 0 cs : Nat) :=
      Int64.toInt_ofNat_of_lt (Nat.lt_of_lt_of_le hlt
        (Nat.pow_le_pow_right (by decide) (Nat.le_trans hle (by decide))))
    rw [hvalue]
    exact ⟨hpos, hle, Int.natCast_nonneg _, Int.ofNat_lt.mpr hlt⟩
  · split at h
    · obtain ⟨n, -, h⟩ := Option.bind_eq_some_iff.mp h
      exact hdigits _ _ h
    · exact hdigits _ _ h
  · cases h

/-- The bits of digits write the geohash of the digits. -/
theorem parseLiteral?_bitText (h : ofDigits? cs none = some l) :
    parseLiteral? ('#' :: '#' :: bitText cs) = some l := by
  obtain ⟨hpos, hle, n, hread, rfl⟩ := ofDigits?_none_eq_some_iff.mp h
  change ofBits? (bitText cs) = _
  rw [ofBits?_eq_some_iff, length_bitText]
  exact ⟨Nat.mul_pos hpos (by decide), hle, n, readBits?_bitText hread, rfl⟩

/-- A text that is cast to a geohash and narrowed is cast to the narrower one. -/
theorem apply_geohashToGeohash {adapter : Adapter} (hreads : adapter.readsGeohash = true)
    {source : ColumnType} {s : String} (hpos : 0 < a) (hle : a ≤ b) (hmax : b ≤ maxGeohashBits)
    (h : adapter.apply source (.geohash b) (.str s) = .geohash v) :
    Adapter.geohashToGeohash.apply (.geohash b) (.geohash a) (.geohash v) =
      adapter.apply source (.geohash a) (.str s) := by
  have happly : ∀ target : ColumnType, adapter.apply source target (.str s) =
      ((ofText? s.toList target.bits).map Value.geohash).getD .null := by
    cases adapter with
    | strToGeohash | varcharToGeohash => exact fun _ => rfl
    | _ => cases hreads
  have hb := ColumnType.bits_geohash_of_le hmax
  have ha := ColumnType.bits_geohash_of_le (Nat.le_trans hle hmax)
  rw [happly, hb] at h
  cases htext : ofText? s.toList b with
  | none =>
    rw [htext] at h
    cases h
  | some w =>
    rw [htext] at h
    cases h
    rw [happly, ha, ofText?_of_le hpos hle htext, Adapter.apply, hb, ha]
    rfl

/-- A text has one geohash of each precision. Reading fewer of its bits comes to the same as
narrowing what more of them read as, and narrowing in steps to the same as narrowing at once.
Base-32 digits write the same literal as their bits do; with a precision after them, however it is
written, they write their leading bits, which takes no more of them than hold the bits. Casts agree
with this, and every literal has a precision and a value of so many bits. -/
theorem reductions_agree :
    (∀ text a b v, 0 < a → a ≤ b → ofText? text b = some v →
      ofText? text a = some (narrow v b a)) ∧
    (∀ v b c d, d ≤ c → c ≤ b → b ≤ maxGeohashBits →
      narrow (narrow v b c) c d = narrow v b d) ∧
    (∀ cs l, cs.head? ≠ some '#' → '/' ∉ cs → parseLiteral? ('#' :: cs) = some l →
      parseLiteral? ('#' :: '#' :: bitText cs) = some l ∧
      ∀ ds n, Text.readNatUpTo? 255 ds = some n →
        parseLiteral? ('#' :: (cs ++ '/' :: ds)) =
          if 0 < n ∧ n ≤ l.bits then some ⟨n, narrow l.value l.bits n⟩ else none) ∧
    (∀ cs ds l, cs.head? ≠ some '#' → '/' ∉ cs →
      parseLiteral? ('#' :: (cs ++ '/' :: ds)) = some l →
      Text.readNatUpTo? 255 ds = some l.bits ∧
      ∃ whole, parseLiteral? ('#' :: cs.take ((l.bits + 4) / 5)) = some whole ∧
        l.bits ≤ whole.bits ∧ l.value = narrow whole.value whole.bits l.bits) ∧
    (∀ (adapter : Adapter) source (s : String) a b v, adapter.readsGeohash = true →
      0 < a → a ≤ b → b ≤ maxGeohashBits →
      adapter.apply source (.geohash b) (.str s) = .geohash v →
      Adapter.geohashToGeohash.apply (.geohash b) (.geohash a) (.geohash v) =
        adapter.apply source (.geohash a) (.str s)) ∧
    ∀ token l, parseLiteral? token = some l →
      0 < l.bits ∧ l.bits ≤ maxGeohashBits ∧ 0 ≤ l.value.toInt ∧
        l.value.toInt < (2 ^ l.bits : Nat) := by
  refine ⟨fun text a b v hpos hle h => ofText?_of_le hpos hle h, fun v b c d hdc hcb hmax => ?_,
    fun cs l hmark hslash h => ?_, fun cs ds l hmark hslash h => ?_,
    fun adapter source s a b v hreads hpos hle hmax h => ?_,
    fun token l h => toInt_of_parseLiteral? h⟩
  · have hmax : b ≤ 60 := hmax
    exact narrow_narrow v hdc hcb (by omega)
  · rw [parseLiteral?_digits hmark hslash] at h
    refine ⟨parseLiteral?_bitText h, fun ds n hn => ?_⟩
    rw [parseLiteral?_precision hmark hslash, hn, Option.bind_some, ofDigits?_some h]
  · rw [parseLiteral?_precision hmark hslash, Option.bind_eq_some_iff] at h
    obtain ⟨n, hn, h⟩ := h
    obtain ⟨whole, hwhole, hle, rfl⟩ := exists_ofDigits?_take h
    refine ⟨hn, whole, ?_, hle, rfl⟩
    rw [parseLiteral?_digits _ fun hmem => hslash (List.mem_of_mem_take hmem), hwhole]
    rw [List.head?_take]
    split
    · exact fun hnone => by cases hnone
    · exact hmark
  · exact apply_geohashToGeohash hreads hpos hle hmax h

/-- A text of twelve digits has 42 bits and 18 of them, `#u33d` is written in its bits and cut to
18 of them, and the second letter of `#ua/5`, which is no digit, does not count. -/
theorem reductions_agree_u33d :
    (ofText? "U4pRUYDQQvj0".toList 42 = some 3593511233114 ∧
      ofText? "U4pRUYDQQvj0".toList 18 = some (narrow 3593511233114 42 18)) ∧
    narrow (narrow (-1000) 42 38) 38 33 = narrow (-1000) 42 33 ∧
    (parseLiteral? "#u33d".toList = some ⟨20, 855148⟩ ∧
      parseLiteral? ('#' :: '#' :: bitText "u33d".toList) = some ⟨20, 855148⟩ ∧
      parseLiteral? "#u33d/18".toList = some ⟨18, narrow 855148 20 18⟩) ∧
    (parseLiteral? "#ua/5".toList = some ⟨5, 26⟩ ∧
      ∃ whole, parseLiteral? "#u".toList = some whole ∧ 5 ≤ whole.bits ∧
        26 = narrow whole.value whole.bits 5) ∧
    Adapter.geohashToGeohash.apply (.geohash 42) (.geohash 18) (.geohash 3593511233114) =
      Adapter.strToGeohash.apply .string (.geohash 18) (.str "U4pRUYDQQvj0") ∧
    (0 < 20 ∧ 20 ≤ maxGeohashBits ∧ 0 ≤ (855148 : Int64).toInt ∧
      (855148 : Int64).toInt < (2 ^ (20 : Nat) : Nat)) := by
  obtain ⟨hfewer, hsteps, hdigits, hprecision, hcasts, hbounds⟩ := reductions_agree
  have htext : ofText? "U4pRUYDQQvj0".toList 42 = some 3593511233114 := by decide +kernel
  have hliteral : parseLiteral? "#u33d".toList = some ⟨20, 855148⟩ := by decide +kernel
  have hcut : parseLiteral? "#ua/5".toList = some ⟨5, 26⟩ := by decide +kernel
  refine ⟨⟨htext, hfewer _ _ _ _ (by decide) (by decide) htext⟩,
    hsteps _ _ _ _ (by decide) (by decide) (by decide), ⟨hliteral, ?_⟩, ⟨hcut, ?_⟩, ?_,
    hbounds _ _ hliteral⟩
  · obtain ⟨hbits, hcuts⟩ := hdigits "u33d".toList _ (by decide) (by decide) hliteral
    exact ⟨hbits, hcuts "18".toList 18 (by decide +kernel)⟩
  · exact (hprecision "ua".toList "5".toList _ (by decide) (by decide) hcut).2
  · refine hcasts .strToGeohash _ _ _ _ _ rfl (by decide) (by decide) (by decide) ?_
    exact congrArg (fun v => (v.map Value.geohash).getD .null) htext

end SqlResolution.Geohash
