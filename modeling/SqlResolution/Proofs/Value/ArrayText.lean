import SqlResolution.Proofs.Value.ArrayShape

/-!
# Array text

What a text is to stand for as an array of a number of dimensions, and for which texts the implicit
cast gives it: those whose literal notes the lengths of its shape in their order. All literals of
one level do, and of two levels those that are square.
-/
namespace SqlResolution
namespace Value

theorem volume_eq (shape : List UInt32) :
    volume shape = UInt64.ofNat (shape.map UInt32.toNat).prod := by
  have hfold : ∀ (k : Nat) (shape : List UInt32),
      (shape.map UInt32.toUInt64).foldl (· * ·) (UInt64.ofNat k) =
        UInt64.ofNat (k * (shape.map UInt32.toNat).prod) := by
    intro k shape
    induction shape generalizing k with
    | nil => simp
    | cons n shape ih =>
      rw [List.map_cons, List.map_cons, List.foldl_cons, ← UInt64.ofNat_uInt32ToNat,
        ← UInt64.ofNat_mul, ih, List.prod_cons, Nat.mul_assoc]
  simpa [volume] using hfold 1 shape

theorem withShape?_eq_some_iff (element : TypeTag) (shape : List UInt32) (values : List Value)
    (v : Value) : withShape? element shape values = some v ↔
      volume shape = UInt64.ofNat values.length ∧ v = array element shape values := by
  unfold withShape?
  split
  · rename_i h
    rw [Option.some.injEq, eq_of_beq h, eq_comm]
    simp
  · rename_i h
    simp [show ¬volume shape = UInt64.ofNat values.length from fun heq => h (beq_iff_eq.mpr heq)]

namespace DoubleArray

/-- The lengths as words, of the same numbers. -/
def IsLengths (shape : List UInt32) (s : List Nat) : Prop := shape.map UInt32.toNat = s

theorem isLengths_ofNat {s : List Nat} (h : ∀ n ∈ s, n < 2 ^ 32) :
    IsLengths (s.map UInt32.ofNat) s := by
  unfold IsLengths
  rw [List.map_map]
  conv_rhs => rw [← List.map_id s]
  exact List.map_congr_left fun n hn => UInt32.toNat_ofNat_of_lt' (h n hn)

theorem IsLengths.lt {shape : List UInt32} {s : List Nat} (h : IsLengths shape s) :
    ∀ n ∈ s, n < 2 ^ 32 := by
  subst h
  intro n hn
  obtain ⟨w, -, rfl⟩ := List.mem_map.mp hn
  exact w.toNat_lt

theorem IsLengths.unique {shape : List UInt32} {s s' : List Nat} (h : IsLengths shape s)
    (h' : IsLengths shape s') : s = s' :=
  h.symm.trans h'

/-- What a text is to stand for as an array of doubles: the array of the literal that it writes,
where that has as many levels as the array has dimensions and has a shape, and null for every other
text. -/
inductive Denotes (text : String) (dims : Nat) : Value → Prop
  | array {t : Literal} {s : List Nat} {shape : List UInt32} (hwrites : t.Writes text.toList)
    (hshape : t.HasShape s) (hlevels : s.length = dims) (hlengths : IsLengths shape s) :
    Denotes text dims (array .double shape (t.leaves.map double))
  | null (h : ∀ t s, Literal.Writes text.toList t → t.HasShape s → s.length ≠ dims) :
    Denotes text dims null

namespace Literal

/-- A literal whose groups, in the order in which they close, note its shape; one of another number
of levels, or without a shape, notes no lengths that pass for one. -/
structure IsRead (t : Literal) (dims : Nat) : Prop where
  noted : ∀ {s}, t.HasShape s → s.length = dims → t.noted? = some s ∧ ∀ n ∈ s, n < 2 ^ 32
  refused : (∀ s, t.HasShape s → s.length ≠ dims) → t.height ≤ dims →
    ∀ {s}, t.noted? = some s → s.length = dims →
      volume (s.map UInt32.ofNat) ≠ UInt64.ofNat t.leaves.length

theorem array?_eq_some_iff (levels : Nat) (t : Literal) (v : Value) :
    t.array? levels = some v ↔ t.height ≤ levels ∧ ∃ s, t.noted? = some s ∧ s.length = levels ∧
      volume (s.map UInt32.ofNat) = UInt64.ofNat t.leaves.length ∧
        v = array .double (s.map UInt32.ofNat) (t.leaves.map double) := by
  unfold array?
  split
  · rename_i hheight
    rw [Option.bind_eq_some_iff]
    simp only [hheight, true_and]
    refine exists_congr fun s => and_congr_right fun _ => ?_
    split
    · rename_i hlength
      rw [withShape?_eq_some_iff, List.length_map]
      simp [hlength]
    · rename_i hlength
      simp [hlength]
  · rename_i hheight
    simp [hheight]

/-- A literal of a shape gives an array of the shape exactly where the lengths of the shape are
noted in their order. -/
theorem HasShape.array?_iff {t : Literal} {s : List Nat} {shape : List UInt32} (h : t.HasShape s)
    (hlengths : IsLengths shape s) :
    t.array? s.length = some (array .double shape (t.leaves.map double)) ↔ t.noted? = some s := by
  rw [array?_eq_some_iff]
  constructor
  · rintro ⟨-, noted, hnoted, -, -, harray⟩
    cases harray
    have hnoted' : IsLengths (noted.map UInt32.ofNat) noted :=
      isLengths_ofNat fun n hn => hlengths.lt n (h.mem_of_noted? hnoted n hn)
    rw [hnoted, hnoted'.unique hlengths]
  · intro hnoted
    have hwords : s.map UInt32.ofNat = shape := by
      rw [← hlengths, List.map_map]
      conv_rhs => rw [← List.map_id shape]
      exact List.map_congr_left fun w _ => UInt32.ofNat_toNat
    refine ⟨Nat.le_of_eq h.height_eq, s, hnoted, rfl, ?_, by rw [hwords]⟩
    rw [hwords, volume_eq, hlengths, h.length_leaves]

/-- A double alone is no array. -/
theorem isRead_leaf {dims : Nat} (hdims : 0 < dims) (x : Float) : (leaf x).IsRead dims := by
  constructor
  · intro s h hlength
    cases h with
    | leaf =>
      subst hlength
      cases hdims
  · intro _ _ s hnoted hlength
    cases hnoted
    subst hlength
    cases hdims

theorem HasShape.exists_items {t : Literal} {s : List Nat} (h : t.HasShape s) (hs : s ≠ []) :
    ∃ items, t = .group items := by
  cases h with
  | leaf => exact absurd rfl hs
  | empty => exact ⟨[], rfl⟩
  | @group items => exact ⟨items, rfl⟩

/-- A literal that gives what its text is to stand for is read. -/
theorem isRead_of_denotes {text : String} {dims : Nat} {t : Literal}
    (hwrites : t.Writes text.toList) (h : Denotes text dims ((t.array? dims).getD null)) :
    t.IsRead dims := by
  generalize hv : (t.array? dims).getD null = v at h
  cases h with
  | @array t' s shape hwrites' hshape hlevels hlengths =>
    obtain rfl := hwrites.unique hwrites'
    constructor
    · intro s' hshape' _
      obtain rfl := hshape.unique hshape'
      have harray : t.array? s.length = some (array .double shape (t.leaves.map double)) := by
        rw [hlevels]
        cases hread : t.array? dims with
        | none =>
          rw [hread] at hv
          cases hv
        | some v =>
          rw [hread] at hv
          exact congrArg some hv
      exact ⟨(hshape.array?_iff hlengths).mp harray, hlengths.lt⟩
    · intro hnone
      exact absurd hlevels (hnone s hshape)
  | null hnone =>
    constructor
    · intro s hshape hlength
      exact absurd hlength (hnone _ s hwrites hshape)
    · intro _ hheight s hnoted hlength hvolume
      rw [(array?_eq_some_iff dims t _).mpr ⟨hheight, s, hnoted, hlength, hvolume, rfl⟩] at hv
      cases hv

/-- A literal that is read gives what its text is to stand for. -/
theorem denotes_of_isRead {text : String} {dims : Nat} {t : Literal}
    (hwrites : t.Writes text.toList) (h : t.IsRead dims) :
    Denotes text dims ((t.array? dims).getD null) := by
  by_cases hshape : ∃ s, t.HasShape s ∧ s.length = dims
  · obtain ⟨s, hshape, hlength⟩ := hshape
    obtain ⟨hnoted, hlt⟩ := h.noted hshape hlength
    have hlengths := isLengths_ofNat hlt
    have harray := (hshape.array?_iff hlengths).mpr hnoted
    rw [hlength] at harray
    rw [harray]
    exact .array hwrites hshape hlength hlengths
  · have hnone : ∀ s, t.HasShape s → s.length ≠ dims :=
      fun s hs hlength => hshape ⟨s, hs, hlength⟩
    have harray : t.array? dims = none := by
      refine Option.eq_none_iff_forall_ne_some.mpr fun v hv => ?_
      obtain ⟨hheight, s, hnoted, hlength, hvolume, -⟩ := (array?_eq_some_iff dims t v).mp hv
      exact h.refused hnone hheight hnoted hlength hvolume
    rw [harray]
    refine .null fun t' s hwrites' hs => ?_
    obtain rfl := hwrites.unique hwrites'
    exact hnone s hs

end Literal

/-- Reading a text gives what the text is to stand for exactly where the literal that it writes, if
there is one, is read. -/
theorem denotes_parse?_iff {dims : Nat} (hdims : 0 < dims) (text : String) :
    Denotes text dims ((parse? text dims).getD null) ↔
      ∀ t, Literal.Writes text.toList t → t.IsRead dims := by
  have hgroup : ∀ {t s}, Literal.HasShape t s → s.length = dims → ∃ items, t = .group items := by
    intro t s h hlength
    refine h.exists_items ?_
    rintro rfl
    subst hlength
    cases hdims
  rw [parse?_eq, show max 1 dims = dims by omega]
  constructor
  · intro h t hwrites
    cases t with
    | leaf x => exact Literal.isRead_leaf hdims x
    | group items =>
      rw [(Literal.read?_eq_some_iff _ _).mpr ⟨hwrites, items, rfl⟩, Option.bind_some] at h
      exact Literal.isRead_of_denotes hwrites h
  · intro h
    cases hread : Literal.read? text.toList with
    | none =>
      refine .null fun t s hwrites hshape hlength => ?_
      rw [(Literal.read?_eq_some_iff _ t).mpr ⟨hwrites, hgroup hshape hlength⟩] at hread
      cases hread
    | some t =>
      obtain ⟨hwrites, -⟩ := (Literal.read?_eq_some_iff _ t).mp hread
      rw [Option.bind_some]
      exact Literal.denotes_of_isRead hwrites (h t hwrites)

namespace Literal

theorem items_of_heightAll_zero {items : List Literal} (h : heightAll items = 0) :
    ∀ t ∈ items, ∃ x, t = leaf x := by
  induction items with
  | nil => exact fun t ht => absurd ht List.not_mem_nil
  | cons u us ih =>
    rw [heightAll] at h
    obtain ⟨hu, hus⟩ : u.height = 0 ∧ heightAll us = 0 := by omega
    intro t ht
    obtain rfl | ht := List.mem_cons.mp ht
    · cases t with
      | leaf x => exact ⟨x, rfl⟩
      | group items => cases hu
    · exact ih hus t ht

/-- A group of doubles has a shape. -/
theorem hasShape_of_leaves {items : List Literal} (h : ∀ t ∈ items, ∃ x, t = leaf x) :
    (group items).HasShape [items.length] := by
  by_cases hne : items = []
  · subst hne
    exact .empty
  · refine .group hne fun t ht => ?_
    obtain ⟨x, rfl⟩ := h t ht
    exact .leaf x

theorem closingsAll_of_leaves {items : List Literal} (h : ∀ t ∈ items, ∃ x, t = leaf x)
    (depth : Nat) : closingsAll depth items = [] := by
  induction items with
  | nil => rfl
  | cons u us ih =>
    obtain ⟨x, rfl⟩ := h u List.mem_cons_self
    rw [closingsAll, ih fun t ht => h t (List.mem_cons_of_mem _ ht)]
    rfl

/-- As an array of one dimension, every literal is read. -/
theorem isRead_one {t : Literal} (hsize : t.leaves.length < 2 ^ 32) : t.IsRead 1 := by
  cases t with
  | leaf x => exact isRead_leaf Nat.one_pos x
  | group items =>
    have hleaves : (group items).height ≤ 1 → ∀ t ∈ items, ∃ x, t = leaf x := by
      intro hheight
      rw [height] at hheight
      exact items_of_heightAll_zero (by omega)
    constructor
    · intro s hshape hlength
      have hflat := hleaves (Nat.le_of_eq (hshape.height_eq.trans hlength))
      obtain rfl := hshape.unique (hasShape_of_leaves hflat)
      refine ⟨?_, ?_⟩
      · rw [noted?, closings, closingsAll_of_leaves hflat]
        rfl
      · intro n hn
        obtain rfl := List.mem_singleton.mp hn
        have hcount := hshape.length_leaves
        rw [List.prod_singleton] at hcount
        rwa [← hcount]
    · intro hnone hheight
      exact absurd rfl (hnone _ (hasShape_of_leaves (hleaves hheight)))

theorem HasShape.closings_eq {t : Literal} {n : Nat} (h : t.HasShape [n]) (depth : Nat) :
    t.closings depth = [(depth, n)] := by
  cases h with
  | empty => rfl
  | group _ h =>
    have hflat : ∀ u ∈ _, ∃ x, u = Literal.leaf x := fun u hu => by
      cases h u hu with
      | leaf x => exact ⟨x, rfl⟩
    rw [closings, closingsAll_of_leaves hflat]
    rfl

/-- A literal of two levels is read exactly where it is a square of more than one row. -/
theorem HasShape.noted?_eq_iff {t : Literal} {m n : Nat} (h : t.HasShape [m, n]) :
    t.noted? = some [m, n] ↔ m = n ∧ 2 ≤ m := by
  cases h with
  | @group items _ hne h =>
    have hrows : ∀ {rows : List Literal}, (∀ t ∈ rows, t.HasShape [n]) →
        closingsAll 1 rows = List.replicate rows.length (1, n) := by
      intro rows hrows
      induction rows with
      | nil => rfl
      | cons row rows ih =>
        rw [closingsAll, (hrows row List.mem_cons_self).closings_eq,
          ih fun t ht => hrows t (List.mem_cons_of_mem row ht)]
        rfl
    have hnoted : (Literal.group items).noted? =
        (((⟨[], []⟩ : Progress).closeAll? (List.replicate items.length (1, n))).bind
          (·.close? 0 items.length)).map (·.shape) := by
      rw [noted?, closings, hrows h, Progress.closeAll?_append]
      simp
    have hsquare : ∀ k, (⟨[n, n], []⟩ : Progress).closeAll? (List.replicate k (1, n)) =
        some ⟨[n, n], []⟩ := by
      intro k
      induction k with
      | zero => rfl
      | succ k ih =>
        rw [List.replicate_succ, Progress.closeAll?_cons]
        simp [Progress.close?, ih]
    rw [hnoted]
    rcases hlength : items.length with _ | _ | k
    · exact absurd (List.length_eq_zero_iff.mp hlength) hne
    · -- A single row notes one length only.
      by_cases hn : n = 1
      · simp [Progress.close?, hn]
      · simp [Progress.close?, hn]
    · rw [List.replicate_succ, List.replicate_succ]
      by_cases hn : n = k + 2
      · subst hn
        simp [Progress.close?, hsquare]
      · have hrows : ¬k + 2 = n := fun h => hn h.symm
        simp [Progress.close?, hsquare, hn, hrows]

end Literal

end DoubleArray
end Value

open Value.DoubleArray

/-- An implicit cast of text to an array of doubles gives what the text is to stand for exactly
where the literal that the text writes, if there is one, is read. -/
theorem doubleArray_of_implicitCast {b : BindTable} {span : Span} {row : Row} {e : Evaluator}
    {text : String} {dims : Nat} (hdims : 0 < dims)
    (htype : e.type.tag = .string ∨ e.type.tag = .symbol) (htext : e.value b row = .str text) :
    ∃ e', implicitCast b span e (.array .double dims) = .ok ⟨true, e'⟩ ∧
      e'.type = .array .double dims ∧
        (Denotes text dims (e'.value b row) ↔
          ∀ t, Literal.Writes text.toList t → t.IsRead dims) := by
  have hadapter : adapterFor? e.type (.array .double dims) = some .strToDoubleArray := by
    unfold adapterFor?
    obtain htype | htype := htype <;> rw [htype] <;> rfl
  refine ⟨.adapt .strToDoubleArray e.type (.array .double dims) e, ?_, rfl, ?_⟩
  · unfold implicitCast
    rw [hadapter]
    rfl
  · rw [Evaluator.value_adapt, htext]
    exact denotes_parse?_iff hdims text

namespace Value.DoubleArray.Literal

/-- Items between braces. -/
theorem Writes.braces {body : List Char} {items : List Literal} (h : WritesItems body items) :
    Writes ('\x7b' :: (body ++ ['\x7d'])) (.group items) :=
  @Writes.group [] body [] '\x7b' '\x7d' items rfl rfl h rfl

theorem exists_writes_digit {c : Char} (h : c ∈ "123456".toList) : ∃ x, Writes [c] (leaf x) := by
  have hall : "123456".toList.all fun c => (Decimal.readDouble? (Text.trim [c])).isSome := by
    decide +kernel
  obtain ⟨x, hx⟩ := Option.isSome_iff_exists.mp (List.all_eq_true.mp hall c h)
  exact ⟨x, .leaf hx⟩

/-- Two rows, each of some digits. -/
theorem HasShape.rows (xs ys : List Float) (h : xs.length = ys.length) :
    (Literal.group [.group (xs.map .leaf), .group (ys.map .leaf)]).HasShape [2, xs.length] := by
  have hrow : ∀ zs : List Float, (Literal.group (zs.map .leaf)).HasShape [zs.length] := by
    intro zs
    rw [← List.length_map (f := Literal.leaf)]
    refine hasShape_of_leaves fun t ht => ?_
    obtain ⟨x, -, rfl⟩ := List.mem_map.mp ht
    exact ⟨x, rfl⟩
  refine .group (by simp) fun t ht => ?_
  obtain rfl | ht := List.mem_cons.mp ht
  · exact hrow xs
  · obtain rfl := List.mem_singleton.mp ht
    rw [h]
    exact hrow ys

theorem exists_writes_square : ∃ t, Writes "\x7b\x7b1,2\x7d,\x7b3,4\x7d\x7d".toList t ∧
    t.HasShape [2, 2] := by
  obtain ⟨x₁, h₁⟩ := exists_writes_digit (c := '1') (by decide)
  obtain ⟨x₂, h₂⟩ := exists_writes_digit (c := '2') (by decide)
  obtain ⟨x₃, h₃⟩ := exists_writes_digit (c := '3') (by decide)
  obtain ⟨x₄, h₄⟩ := exists_writes_digit (c := '4') (by decide)
  refine ⟨_, .braces (.more (.braces (.more h₁ (.one h₂))) (.one (.braces (.more h₃ (.one h₄))))),
    ?_⟩
  exact .rows [x₁, x₂] [x₃, x₄] rfl

theorem exists_writes_rows : ∃ t, Writes "\x7b\x7b1,2,3\x7d,\x7b4,5,6\x7d\x7d".toList t ∧
    t.HasShape [2, 3] ∧ t.noted? = none ∧ ∃ items, t = group items := by
  obtain ⟨x₁, h₁⟩ := exists_writes_digit (c := '1') (by decide)
  obtain ⟨x₂, h₂⟩ := exists_writes_digit (c := '2') (by decide)
  obtain ⟨x₃, h₃⟩ := exists_writes_digit (c := '3') (by decide)
  obtain ⟨x₄, h₄⟩ := exists_writes_digit (c := '4') (by decide)
  obtain ⟨x₅, h₅⟩ := exists_writes_digit (c := '5') (by decide)
  obtain ⟨x₆, h₆⟩ := exists_writes_digit (c := '6') (by decide)
  refine ⟨_, .braces (.more (.braces (.more h₁ (.more h₂ (.one h₃))))
    (.one (.braces (.more h₄ (.more h₅ (.one h₆)))))), ?_, rfl, _, rfl⟩
  exact .rows [x₁, x₂, x₃] [x₄, x₅, x₆] rfl

end Value.DoubleArray.Literal

open Value.DoubleArray.Literal

/-- A square of two rows is read. -/
theorem doubleArray_of_implicitCast_square :
    let text := "\x7b\x7b1,2\x7d,\x7b3,4\x7d\x7d"
    let e : Evaluator := .constant .string (.str text)
    (0 < 2 ∧ (e.type.tag = .string ∨ e.type.tag = .symbol) ∧
      e.value ⟨[], []⟩ .empty = .str text) ∧
      ∃ e', implicitCast ⟨[], []⟩ ⟨0, 0⟩ e (.array .double 2) = .ok ⟨true, e'⟩ ∧
        Denotes text 2 (e'.value ⟨[], []⟩ .empty) ∧ e'.value ⟨[], []⟩ .empty ≠ .null := by
  intro text e
  obtain ⟨t, hwrites, hshape⟩ := exists_writes_square
  have htype : e.type.tag = .string ∨ e.type.tag = .symbol := .inl rfl
  obtain ⟨e', hcast, -, hdenotes⟩ := @doubleArray_of_implicitCast ⟨[], []⟩ ⟨0, 0⟩ .empty e text 2
    (by decide) htype rfl
  have hread : ∀ t, Literal.Writes text.toList t → t.IsRead 2 := by
    intro t' ht'
    obtain rfl := hwrites.unique ht'
    refine ⟨fun hs _ => ?_, fun hnone => absurd rfl (hnone _ hshape)⟩
    obtain rfl := hshape.unique hs
    exact ⟨hshape.noted?_eq_iff.mpr ⟨rfl, Nat.le_refl 2⟩, by decide⟩
  have hvalue := hdenotes.mpr hread
  refine ⟨⟨by decide, htype, rfl⟩, e', hcast, hvalue, ?_⟩
  intro hnull
  rw [hnull] at hvalue
  cases hvalue with
  | null hnone => exact hnone _ _ hwrites hshape rfl

/-- Two rows of three are not read. -/
theorem not_doubleArray_of_implicitCast_rows :
    let text := "\x7b\x7b1,2,3\x7d,\x7b4,5,6\x7d\x7d"
    let e : Evaluator := .constant .string (.str text)
    ∃ e', implicitCast ⟨[], []⟩ ⟨0, 0⟩ e (.array .double 2) = .ok ⟨true, e'⟩ ∧
      e'.value ⟨[], []⟩ .empty = .null ∧
        (∃ t, Literal.Writes text.toList t ∧ t.HasShape [2, 3]) ∧ ¬Denotes text 2 .null := by
  intro text e
  obtain ⟨t, hwrites, hshape, hnoted, hgroup⟩ := exists_writes_rows
  refine ⟨.adapt .strToDoubleArray .string (.array .double 2) e, rfl, ?_, ⟨_, hwrites, hshape⟩, ?_⟩
  · rw [Evaluator.value_adapt]
    change (Value.DoubleArray.parse? text 2).getD .null = .null
    rw [parse?_eq, (read?_eq_some_iff _ _).mpr ⟨hwrites, hgroup⟩, Option.bind_some, array?,
      hnoted]
    simp
  · intro hdenotes
    cases hdenotes with
    | null hnone => exact hnone _ _ hwrites hshape rfl

end SqlResolution
