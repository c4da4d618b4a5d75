import SqlResolution.Proofs.Text.Number
import SqlResolution.Value.DoubleArray

/-!
# Literals of arrays

A literal is a tree with doubles at its leaves and groups of items above them. The grammar says
which texts write which literal, and reading a text finds the literal that it writes: there is at
most one.
-/
namespace SqlResolution

namespace Value.DoubleArray

/-- A tree of doubles. -/
inductive Literal where
  | leaf (x : Float)
  | group (items : List Literal)

namespace Literal

mutual

/-- A text writes a leaf where it reads as a double, and a group where the items stand between a
bracket and the one that closes it. Blanks may stand around both. -/
inductive Writes : List Char → Literal → Prop
  | leaf {cs : List Char} {x : Float} (h : Decimal.readDouble? (Text.trim cs) = some x) :
    Writes cs (leaf x)
  | group {before body after : List Char} {bracket close : Char} {items : List Literal}
    (hbefore : before.all Text.isBlank) (hclose : closing? bracket = some close)
    (hbody : WritesItems body items) (hafter : after.all Text.isBlank) :
    Writes (before ++ bracket :: (body ++ close :: after)) (group items)

/-- The items of a group, with commas between them. -/
inductive WritesItems : List Char → List Literal → Prop
  | none {blanks : List Char} (h : blanks.all Text.isBlank) : WritesItems blanks []
  | one {cs : List Char} {t : Literal} (h : Writes cs t) : WritesItems cs [t]
  | more {cs rest : List Char} {t u : Literal} {ts : List Literal} (h : Writes cs t)
    (hrest : WritesItems rest (u :: ts)) : WritesItems (cs ++ ',' :: rest) (t :: u :: ts)

end

/-- A leaf before a comma or the closing bracket. -/
def readLeaf? (close : Char) (cs : List Char) : Option (Literal × List Char) :=
  let stays (c : Char) : Bool := c != ',' && c != close
  match cs.dropWhile stays with
  | [] => none
  | rest => (Decimal.readDouble? (Text.trim (cs.takeWhile stays))).map fun x => (leaf x, rest)

mutual

/-- A group of any depth, and what follows it. -/
def readGroup? : Nat → List Char → Option (Literal × List Char)
  | fuel + 1, c :: cs =>
    (closing? c).bind fun close =>
      if (Text.trimStart cs).head? == some close then some (group [], (Text.trimStart cs).drop 1)
      else (readItems? fuel close (Text.trimStart cs)).map fun r => (group r.1, r.2)
  | _, _ => none

/-- The items of a group up to its closing bracket, and what follows it. -/
def readItems? : Nat → Char → List Char → Option (List Literal × List Char)
  | 0, _, _ => none
  | fuel + 1, close, cs =>
    let nested := (cs.head?.bind closing?).isSome
    (if nested then readGroup? fuel cs else readLeaf? close cs).bind fun r =>
      match Text.trimStart r.2 with
      | c :: rest =>
        if c == ',' then
          (readItems? fuel close (Text.trimStart rest)).map fun s => (r.1 :: s.1, s.2)
        else if c == close then some ([r.1], rest)
        else none
      | [] => none

end

/-- The literal that a text writes. -/
def read? (text : List Char) : Option Literal :=
  (readGroup? (2 * (Text.trim text).length + 1) (Text.trim text)).bind fun r =>
    if (Text.trim r.2).isEmpty then some r.1 else none

/-- The brackets and the comma. -/
def isMark (c : Char) : Bool :=
  c == ',' || c == '\x7b' || c == '\x7d' || c == '[' || c == ']'

/-- A class of characters that has no mark in it. -/
theorem isMark_of_class {p : Char → Bool} {c : Char}
    (hmarks : [',', '\x7b', '\x7d', '[', ']'].any p = false) (h : p c = true) :
    isMark c = false := by
  cases hc : isMark c with
  | false => rfl
  | true =>
    simp only [isMark, Bool.or_eq_true, beq_iff_eq] at hc
    exact absurd h (List.any_eq_false.mp hmarks c (by simpa [or_assoc] using hc))

theorem isMark_of_isBlank {c : Char} (h : Text.isBlank c = true) : isMark c = false :=
  isMark_of_class (by decide) h

theorem isMark_of_isSymbol {c : Char} (h : Decimal.isSymbol c = true) : isMark c = false :=
  isMark_of_class (by decide) h

/-- A bracket that opens a group, and the one that closes it. -/
theorem closing?_eq_some {bracket close : Char} (h : closing? bracket = some close) :
    bracket = '\x7b' ∧ close = '\x7d' ∨ bracket = '[' ∧ close = ']' := by
  unfold closing? at h
  split at h
  · exact .inl ⟨rfl, (Option.some.inj h).symm⟩
  · exact .inr ⟨rfl, (Option.some.inj h).symm⟩
  · cases h

theorem Writes.append_left {cs blanks : List Char} {t : Literal} (h : Writes cs t)
    (hblanks : blanks.all Text.isBlank) : Writes (blanks ++ cs) t := by
  cases h with
  | leaf h => exact .leaf (by rwa [Text.trim_append_left hblanks])
  | group hbefore hclose hbody hafter =>
    rw [← List.append_assoc]
    exact .group (by simp [hblanks, hbefore]) hclose hbody hafter

theorem Writes.append_right {cs blanks : List Char} {t : Literal} (h : Writes cs t)
    (hblanks : blanks.all Text.isBlank) : Writes (cs ++ blanks) t := by
  cases h with
  | leaf h => exact .leaf (by rwa [Text.trim_append_right hblanks])
  | group hbefore hclose hbody hafter =>
    rw [List.append_assoc, List.cons_append, List.append_assoc, List.cons_append]
    exact .group hbefore hclose hbody (by simp [hblanks, hafter])

theorem WritesItems.append_left {cs blanks : List Char} {ts : List Literal} (h : WritesItems cs ts)
    (hblanks : blanks.all Text.isBlank) : WritesItems (blanks ++ cs) ts := by
  cases h with
  | none h => exact .none (by simp [hblanks, h])
  | one h => exact .one (h.append_left hblanks)
  | more h hrest =>
    rw [← List.append_assoc]
    exact .more (h.append_left hblanks) hrest

/-! ## What is read is written -/

theorem writes_of_readLeaf? {close : Char} {cs rest : List Char} {t : Literal}
    (h : readLeaf? close cs = some (t, rest)) : ∃ w, cs = w ++ rest ∧ Writes w t := by
  unfold readLeaf? at h
  dsimp only at h
  split at h
  · cases h
  · obtain ⟨x, hx, hpair⟩ := Option.map_eq_some_iff.mp h
    cases hpair
    exact ⟨_, List.takeWhile_append_dropWhile.symm, .leaf hx⟩

mutual

theorem writes_of_readGroup? : ∀ (fuel : Nat) {cs rest : List Char} {t : Literal},
    readGroup? fuel cs = some (t, rest) → ∃ w, cs = w ++ rest ∧ Writes w t
  | 0, cs, _, _, h => by simp [readGroup?] at h
  | fuel + 1, [], _, _, h => by simp [readGroup?] at h
  | fuel + 1, c :: cs, rest, t, h => by
    obtain ⟨blanks, hblanks, hcs⟩ := Text.exists_trimStart cs
    rw [readGroup?] at h
    obtain ⟨close, hclose, h⟩ := Option.bind_eq_some_iff.mp h
    split at h
    · rename_i hempty
      obtain ⟨rest', hrest⟩ : ∃ rest', Text.trimStart cs = close :: rest' := by
        exact List.head?_eq_some_iff.mp (eq_of_beq hempty)
      cases h
      refine ⟨[] ++ c :: (blanks ++ close :: []), ?_, .group rfl hclose (.none hblanks) rfl⟩
      rw [hrest] at hcs ⊢
      simp [hcs]
    · obtain ⟨⟨items, rest'⟩, hitems, h⟩ := Option.map_eq_some_iff.mp h
      cases h
      obtain ⟨body, hbody, hwrites, -⟩ := writes_of_readItems? fuel hitems
      refine ⟨[] ++ c :: ((blanks ++ body) ++ close :: []), ?_,
        .group rfl hclose (hwrites.append_left hblanks) rfl⟩
      rw [hbody] at hcs
      simp [hcs]

theorem writes_of_readItems? : ∀ (fuel : Nat) {close : Char} {cs rest : List Char}
    {ts : List Literal}, readItems? fuel close cs = some (ts, rest) →
      ∃ body, cs = body ++ close :: rest ∧ WritesItems body ts ∧ ts ≠ []
  | 0, _, _, _, _, h => by simp [readItems?] at h
  | fuel + 1, close, cs, rest, ts, h => by
    rw [readItems?] at h
    obtain ⟨⟨t, rest₁⟩, hitem, h⟩ := Option.bind_eq_some_iff.mp h
    obtain ⟨w, hw, hwrites⟩ : ∃ w, cs = w ++ rest₁ ∧ Writes w t := by
      split at hitem
      · exact writes_of_readGroup? fuel hitem
      · exact writes_of_readLeaf? hitem
    obtain ⟨blanks, hblanks, hrest₁⟩ := Text.exists_trimStart rest₁
    have hspaced := hwrites.append_right hblanks
    dsimp only at h
    split at h
    · rename_i c rest₂ hnext
      rw [hnext] at hrest₁
      split at h
      · rename_i hcomma
        obtain ⟨⟨us, rest₃⟩, hmore, h⟩ := Option.map_eq_some_iff.mp h
        cases h
        obtain ⟨more, hmore', hall, hne⟩ := writes_of_readItems? fuel hmore
        obtain ⟨front, hfront, hrest₂⟩ := Text.exists_trimStart rest₂
        obtain ⟨u, us', rfl⟩ := List.exists_cons_of_ne_nil hne
        refine ⟨(w ++ blanks) ++ ',' :: (front ++ more), ?_,
          .more hspaced (hall.append_left hfront), List.cons_ne_nil _ _⟩
        rw [hmore'] at hrest₂
        rw [hw, hrest₁, hrest₂, eq_of_beq hcomma]
        simp
      · split at h
        · rename_i hclosed
          cases h
          refine ⟨w ++ blanks, ?_, .one hspaced, List.cons_ne_nil _ _⟩
          rw [hw, hrest₁, eq_of_beq hclosed]
          simp
        · cases h
    · cases h

end

/-! ## What is written is read -/

/-- An item that is a group where it starts with a bracket. -/
def readItem? (fuel : Nat) (close : Char) (cs : List Char) : Option (Literal × List Char) :=
  if (cs.head?.bind closing?).isSome then readGroup? fuel cs else readLeaf? close cs

theorem readItems?_of_last {fuel : Nat} {close : Char} {cs rest rest' : List Char} {t : Literal}
    (hitem : readItem? fuel close cs = some (t, rest))
    (hrest : Text.trimStart rest = close :: rest') (hclose : close ≠ ',') :
    readItems? (fuel + 1) close cs = some ([t], rest') := by
  rw [readItems?, ← readItem?, hitem, Option.bind_some, hrest]
  simp [hclose]

theorem readItems?_of_more {fuel : Nat} {close : Char} {cs rest more rest' : List Char}
    {t : Literal} {ts : List Literal} (hitem : readItem? fuel close cs = some (t, rest))
    (hrest : Text.trimStart rest = ',' :: more)
    (hmore : readItems? fuel close (Text.trimStart more) = some (ts, rest')) :
    readItems? (fuel + 1) close cs = some (t :: ts, rest') := by
  rw [readItems?, ← readItem?, hitem, Option.bind_some, hrest]
  simp [hmore]

/-- No mark stands in the text of a leaf. -/
theorem isMark_of_writes_leaf {w : List Char} {x : Float}
    (h : Decimal.readDouble? (Text.trim w) = some x) : ∀ c ∈ w, isMark c = false := by
  obtain ⟨before, after, hbefore, hafter, hw⟩ := Text.exists_trim w
  rw [hw]
  intro c hc
  obtain hc | hc := List.mem_append.mp hc
  · obtain hc | hc := List.mem_append.mp hc
    · exact isMark_of_isBlank (List.all_eq_true.mp hbefore c hc)
    · exact isMark_of_isSymbol (Decimal.all_isSymbol_of_readDouble? h c hc)
  · exact isMark_of_isBlank (List.all_eq_true.mp hafter c hc)

/-- The first character of a literal closes nothing. -/
theorem Writes.exists_head {w : List Char} {t : Literal} (h : Writes w t) :
    ∃ c cs, Text.trimStart w = c :: cs ∧ c ≠ '\x7d' ∧ c ≠ ']' := by
  cases h with
  | leaf h =>
    cases hw : Text.trimStart w with
    | nil =>
      rw [Text.trim, hw] at h
      cases h
    | cons c cs =>
      have hmem : c ∈ w := (List.dropWhile_suffix _).subset (hw ▸ List.mem_cons_self)
      have hmark := isMark_of_writes_leaf h c hmem
      refine ⟨c, cs, rfl, ?_, ?_⟩
      · rintro rfl
        cases hmark
      · rintro rfl
        cases hmark
  | @group before body after bracket close items hbefore hclose hbody hafter =>
    refine ⟨bracket, body ++ close :: after, ?_⟩
    rw [Text.trimStart_append hbefore]
    obtain ⟨rfl, -⟩ | ⟨rfl, -⟩ := closing?_eq_some hclose
    · exact ⟨Text.trimStart_cons (by decide) _, by decide, by decide⟩
    · exact ⟨Text.trimStart_cons (by decide) _, by decide, by decide⟩

theorem WritesItems.exists_head {body : List Char} {ts : List Literal} (h : WritesItems body ts)
    (hne : ts ≠ []) : ∃ c cs, Text.trimStart body = c :: cs ∧ c ≠ '\x7d' ∧ c ≠ ']' := by
  cases h with
  | none h => exact absurd rfl hne
  | one h => exact h.exists_head
  | @more cs rest _ _ _ h hrest =>
    obtain ⟨c, cs', hcs, hc⟩ := h.exists_head
    refine ⟨c, cs' ++ ',' :: rest, ?_, hc⟩
    rw [Text.trimStart_append_right (by simp [hcs]), hcs, List.cons_append]

theorem readLeaf?_of_writes {close c : Char} {w : List Char} {x : Float} (rest : List Char)
    (h : Decimal.readDouble? (Text.trim w) = some x) (hclose : isMark close = true)
    (hc : c = ',' ∨ c = close) :
    readLeaf? close (Text.trimStart w ++ c :: rest) = some (leaf x, c :: rest) := by
  have hstays : ∀ a ∈ Text.trimStart w, (a != ',' && a != close) = true := by
    intro a ha
    have hmark := isMark_of_writes_leaf h a ((List.dropWhile_suffix _).subset ha)
    rw [Bool.and_eq_true, bne_iff_ne, bne_iff_ne]
    constructor
    · rintro rfl
      cases hmark
    · rintro rfl
      rw [hclose] at hmark
      cases hmark
  have hstop : ¬(c != ',' && c != close) = true := by
    obtain rfl | rfl := hc <;> simp
  unfold readLeaf?
  dsimp only
  rw [List.dropWhile_append_of_pos hstays, List.takeWhile_append_of_pos hstays,
    List.dropWhile_cons, if_neg hstop, List.takeWhile_cons, if_neg hstop, List.append_nil,
    Text.trim_trimStart, h]
  rfl

theorem trimStart_cons_of_isMark {c : Char} (h : isMark c = true) (cs : List Char) :
    Text.trimStart (c :: cs) = c :: cs := by
  refine Text.trimStart_cons ?_ cs
  cases hc : Text.isBlank c with
  | false => rfl
  | true =>
    rw [isMark_of_isBlank hc] at h
    cases h

theorem isMark_of_closing? {bracket close : Char} (h : closing? bracket = some close) :
    isMark close = true := by
  obtain ⟨-, rfl⟩ | ⟨-, rfl⟩ := closing?_eq_some h <;> rfl

/-- A character other than a bracket opens nothing. -/
theorem closing?_of_isMark {c : Char} (h : isMark c = false) : closing? c = none := by
  cases hc : closing? c with
  | none => rfl
  | some close =>
    obtain ⟨rfl, -⟩ | ⟨rfl, -⟩ := closing?_eq_some hc <;> cases h

theorem readGroup?_of_items {fuel : Nat} {bracket close : Char} {body : List Char}
    (rest : List Char) {items : List Literal} (hclose : closing? bracket = some close)
    (hbody : WritesItems body items)
    (hitems : items ≠ [] →
      readItems? fuel close (Text.trimStart body ++ close :: rest) = some (items, rest)) :
    readGroup? (fuel + 1) (bracket :: (body ++ close :: rest)) = some (group items, rest) := by
  rw [readGroup?, hclose, Option.bind_some]
  by_cases hnil : items = []
  · subst hnil
    cases hbody with
    | none hblank =>
      rw [Text.trimStart_append hblank, trimStart_cons_of_isMark (isMark_of_closing? hclose)]
      simp
  · obtain ⟨c, cs, hc, hbrace, hsquare⟩ := hbody.exists_head hnil
    have hopen : c ≠ close := by
      obtain ⟨-, rfl⟩ | ⟨-, rfl⟩ := closing?_eq_some hclose
      · exact hbrace
      · exact hsquare
    rw [Text.trimStart_append_right (by simp [hc]), hitems hnil, hc]
    simp [hopen]

mutual

/-- Items take one step of the fuel each, and groups one more. -/
theorem Writes.readItem? : ∀ {w : List Char} {t : Literal}, Writes w t →
    ∀ (fuel : Nat) {bracket close c : Char} (rest : List Char), closing? bracket = some close →
      (c = ',' ∨ c = close) → 2 * w.length ≤ fuel →
        ∃ rest', Literal.readItem? fuel close (Text.trimStart w ++ c :: rest) = some (t, rest') ∧
          Text.trimStart rest' = c :: rest
  | w, _, .leaf (x := x) h, fuel, bracket, close, c, rest, hclose, hc, hfuel => by
    have hmark : isMark c = true := by
      obtain rfl | rfl := hc
      · rfl
      · exact isMark_of_closing? hclose
    refine ⟨c :: rest, ?_, trimStart_cons_of_isMark hmark rest⟩
    obtain ⟨a, as, hw, -⟩ := (Writes.leaf h).exists_head
    have ha : isMark a = false :=
      isMark_of_writes_leaf h a ((List.dropWhile_suffix _).subset (hw ▸ List.mem_cons_self))
    have hleaf := readLeaf?_of_writes rest h (isMark_of_closing? hclose) hc
    unfold Literal.readItem?
    rw [hw] at hleaf ⊢
    rw [List.cons_append] at hleaf ⊢
    rw [List.head?_cons, Option.bind_some, closing?_of_isMark ha]
    exact hleaf
  | _, _, @Writes.group before body after bracket' close' items hbefore hclose' hbody hafter, fuel,
      bracket, close, c, rest, hclose, hc, hfuel => by
    have hmark : isMark c = true := by
      obtain rfl | rfl := hc
      · rfl
      · exact isMark_of_closing? hclose
    have hbracket : Text.trimStart (before ++ bracket' :: (body ++ close' :: after)) =
        bracket' :: (body ++ close' :: after) := by
      rw [Text.trimStart_append hbefore]
      refine trimStart_cons_of_isMark ?_ _
      obtain ⟨rfl, -⟩ | ⟨rfl, -⟩ := closing?_eq_some hclose' <;> rfl
    refine ⟨after ++ c :: rest, ?_, ?_⟩
    · have hlength : 2 * body.length + 4 ≤ fuel := by
        simp only [List.length_append, List.length_cons] at hfuel
        omega
      obtain ⟨fuel, rfl⟩ : ∃ n, fuel = n + 1 := ⟨fuel - 1, by omega⟩
      have hgroup := readGroup?_of_items (after ++ c :: rest) hclose' hbody
        fun hne => hbody.readItems? fuel _ hne hclose' (by omega)
      unfold Literal.readItem?
      rw [hbracket]
      simpa [hclose'] using hgroup
    · rw [Text.trimStart_append hafter]
      exact trimStart_cons_of_isMark hmark rest

theorem WritesItems.readItems? : ∀ {body : List Char} {ts : List Literal}, WritesItems body ts →
    ∀ (fuel : Nat) {bracket close : Char} (rest : List Char), ts ≠ [] →
      closing? bracket = some close → 2 * body.length + 1 ≤ fuel →
        Literal.readItems? fuel close (Text.trimStart body ++ close :: rest) = some (ts, rest)
  | _, _, .none h, _, _, _, _, hne, _, _ => absurd rfl hne
  | _, _, .one h, fuel, bracket, close, rest, hne, hclose, hfuel => by
    obtain ⟨fuel, rfl⟩ : ∃ n, fuel = n + 1 := ⟨fuel - 1, by omega⟩
    obtain ⟨rest', hitem, hrest⟩ :=
      h.readItem? fuel rest hclose (.inr rfl) (by omega)
    refine readItems?_of_last hitem hrest ?_
    obtain ⟨-, rfl⟩ | ⟨-, rfl⟩ := closing?_eq_some hclose <;> decide
  | _, _, @WritesItems.more cs more _ _ _ h hmore, fuel, bracket, close, rest, hne, hclose,
      hfuel => by
    obtain ⟨fuel, rfl⟩ : ∃ n, fuel = n + 1 := ⟨fuel - 1, by omega⟩
    rw [List.length_append, List.length_cons] at hfuel
    obtain ⟨c, cs', hcs, -⟩ := h.exists_head
    obtain ⟨a, as, hall, -⟩ := hmore.exists_head (List.cons_ne_nil _ _)
    obtain ⟨rest', hitem, hrest⟩ :=
      h.readItem? fuel (more ++ close :: rest) hclose (.inl rfl) (by omega)
    have hitems := hmore.readItems? fuel rest (List.cons_ne_nil _ _) hclose (by omega)
    rw [← Text.trimStart_append_right (by simp [hall])] at hitems
    rw [Text.trimStart_append_right (by simp [hcs]), List.append_assoc, List.cons_append]
    exact readItems?_of_more hitem hrest hitems

end

theorem exists_items_of_readGroup? {fuel : Nat} {cs rest : List Char} {t : Literal}
    (h : readGroup? fuel cs = some (t, rest)) : ∃ items, t = group items := by
  match fuel, cs, h with
  | 0, _, h => simp [readGroup?] at h
  | _ + 1, [], h => simp [readGroup?] at h
  | _ + 1, c :: cs, h =>
    rw [readGroup?] at h
    obtain ⟨close, -, h⟩ := Option.bind_eq_some_iff.mp h
    split at h
    · cases h
      exact ⟨[], rfl⟩
    · obtain ⟨r, -, h⟩ := Option.map_eq_some_iff.mp h
      cases h
      exact ⟨r.1, rfl⟩

/-- Every text that writes a group is read as the group, and no other text is read. -/
theorem read?_eq_some_iff (text : List Char) (t : Literal) :
    read? text = some t ↔ Writes text t ∧ ∃ items, t = group items := by
  constructor
  · intro h
    obtain ⟨⟨t', rest⟩, hread, hrest⟩ := Option.bind_eq_some_iff.mp h
    split at hrest
    · rename_i hempty
      cases hrest
      obtain ⟨w, hw, hwrites⟩ := writes_of_readGroup? _ hread
      obtain ⟨before, after, hbefore, hafter, htext⟩ := Text.exists_trim text
      refine ⟨?_, exists_items_of_readGroup? hread⟩
      rw [htext, hw, List.append_assoc, List.append_assoc]
      refine (hwrites.append_right ?_).append_left hbefore
      obtain ⟨front, back, hfront, hback, hblanks⟩ := Text.exists_trim rest
      rw [List.isEmpty_iff.mp hempty, List.append_nil] at hblanks
      rw [hblanks]
      simp [hfront, hback, hafter]
    · cases hrest
  · rintro ⟨hwrites, items, rfl⟩
    cases hwrites with
    | @group before body after bracket close _ hbefore hclose hbody hafter =>
      have htrim : Text.trim (before ++ bracket :: (body ++ close :: after)) =
          bracket :: (body ++ close :: []) := by
        rw [Text.trim_append_left hbefore,
          show bracket :: (body ++ close :: after) = bracket :: (body ++ [close]) ++ after by simp,
          Text.trim_append_right hafter]
        refine Text.IsTrimmed.trim ⟨?_, ?_⟩
        · obtain ⟨rfl, -⟩ | ⟨rfl, -⟩ := closing?_eq_some hclose <;> rfl
        · rw [← List.cons_append, List.getLast?_append]
          obtain ⟨-, rfl⟩ | ⟨-, rfl⟩ := closing?_eq_some hclose <;> rfl
      unfold read?
      have hfuel : 2 * body.length + 1 ≤ 2 * (bracket :: (body ++ [close])).length := by
        simp only [List.length_append, List.length_cons]
        omega
      rw [htrim, readGroup?_of_items [] hclose hbody fun hne =>
        hbody.readItems? _ [] hne hclose hfuel]
      rfl

theorem not_writes_group {text : List Char} {x : Float}
    (h : Decimal.readDouble? (Text.trim text) = some x) (items : List Literal) :
    ¬Writes text (group items) := by
  intro hgroup
  cases hgroup with
  | @group before body after bracket close _ _ hclose _ _ =>
    have hmark := isMark_of_writes_leaf h close (by simp)
    rw [isMark_of_closing? hclose] at hmark
    cases hmark

/-- A text writes one literal at most. -/
theorem Writes.unique {text : List Char} {t u : Literal} (ht : Writes text t) (hu : Writes text u) :
    t = u := by
  cases t with
  | leaf x =>
    cases ht with
    | leaf hx =>
      cases u with
      | leaf y =>
        cases hu with
        | leaf hy => rw [Option.some.inj (hx.symm.trans hy)]
      | group items => exact absurd hu (not_writes_group hx items)
  | group items =>
    cases u with
    | leaf y =>
      cases hu with
      | leaf hy => exact absurd ht (not_writes_group hy items)
    | group items' =>
      have hread := (read?_eq_some_iff text _).mpr ⟨ht, items, rfl⟩
      have hread' := (read?_eq_some_iff text _).mpr ⟨hu, items', rfl⟩
      exact Option.some.inj (hread.symm.trans hread')

end Literal
end Value.DoubleArray
end SqlResolution
