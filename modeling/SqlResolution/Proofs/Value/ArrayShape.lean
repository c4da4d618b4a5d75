import Mathlib.Algebra.BigOperators.Group.List.Basic
import SqlResolution.ImplicitCast
import SqlResolution.Proofs.Evaluator.Plain
import SqlResolution.Proofs.Value.ArrayLiteral

/-!
# Shapes of literals

Reading a text notes a length for each group that closes past the lengths that are there, and the
groups inside close first. So the lengths come in the order of the closing brackets, and they are
those of the levels from the outside in where every group that adds one agrees with the level that
its length is taken for.
-/
namespace SqlResolution.Value.DoubleArray

namespace Progress

/-- Adds values. -/
def push (p : Progress) (xs : List Float) : Progress := { p with values := p.values ++ xs }

/-- Notes groups in the order in which they close, each with its depth and its number of items. -/
def closeAll? (p : Progress) (groups : List (Nat × Nat)) : Option Progress :=
  groups.foldlM (fun p g => p.close? g.1 g.2) p

@[simp] theorem closeAll?_nil (p : Progress) : p.closeAll? [] = some p := rfl

@[simp] theorem closeAll?_cons (p : Progress) (g : Nat × Nat) (groups : List (Nat × Nat)) :
    p.closeAll? (g :: groups) = (p.close? g.1 g.2).bind (·.closeAll? groups) :=
  List.foldlM_cons

theorem closeAll?_append (p : Progress) (groups more : List (Nat × Nat)) :
    p.closeAll? (groups ++ more) = (p.closeAll? groups).bind (·.closeAll? more) :=
  List.foldlM_append

@[simp] theorem push_nil (p : Progress) : p.push [] = p := by simp [push]

@[simp] theorem push_push (p : Progress) (xs ys : List Float) :
    (p.push xs).push ys = p.push (xs ++ ys) := by
  simp [push]

theorem close?_push (p : Progress) (xs : List Float) (depth count : Nat) :
    (p.push xs).close? depth count = (p.close? depth count).map (·.push xs) := by
  unfold close? push
  dsimp only
  split
  · split <;> rfl
  · rfl

/-- Lengths are noted without regard to the values. -/
theorem closeAll?_push (p : Progress) (xs : List Float) (groups : List (Nat × Nat)) :
    (p.push xs).closeAll? groups = (p.closeAll? groups).map (·.push xs) := by
  induction groups generalizing p with
  | nil => rfl
  | cons g groups ih =>
    rw [closeAll?_cons, closeAll?_cons, close?_push]
    cases p.close? g.1 g.2 with
    | none => rfl
    | some q => exact ih q

theorem values_close? {p q : Progress} {depth count : Nat} (h : p.close? depth count = some q) :
    q.values = p.values := by
  unfold close? at h
  split at h
  · split at h
    · cases h
      rfl
    · cases h
  · cases h
    rfl

theorem values_closeAll? {p q : Progress} {groups : List (Nat × Nat)}
    (h : p.closeAll? groups = some q) : q.values = p.values := by
  induction groups generalizing p with
  | nil =>
    cases h
    rfl
  | cons g groups ih =>
    rw [closeAll?_cons] at h
    obtain ⟨r, hr, h⟩ := Option.bind_eq_some_iff.mp h
    rw [ih h, values_close? hr]

/-- A length that is noted was there before, or is that of a group that closed. -/
theorem mem_shape_closeAll? {p q : Progress} {groups : List (Nat × Nat)}
    (h : p.closeAll? groups = some q) :
    ∀ n ∈ q.shape, n ∈ p.shape ∨ ∃ g ∈ groups, g.2 = n := by
  induction groups generalizing p with
  | nil =>
    cases h
    exact fun n hn => .inl hn
  | cons g groups ih =>
    rw [closeAll?_cons] at h
    obtain ⟨r, hr, h⟩ := Option.bind_eq_some_iff.mp h
    intro n hn
    obtain hn | ⟨g', hg', hn⟩ := ih h n hn
    · unfold close? at hr
      split at hr
      · split at hr
        · cases hr
          exact .inl hn
        · cases hr
      · cases hr
        obtain hn | hn := List.mem_append.mp hn
        · exact .inl hn
        · exact .inr ⟨g, List.mem_cons_self, (List.mem_singleton.mp hn).symm⟩
    · exact .inr ⟨g', List.mem_cons_of_mem g hg', hn⟩

end Progress

namespace Literal

mutual

/-- The doubles of a literal in reading order. -/
def leaves : Literal → List Float
  | leaf x => [x]
  | group items => leavesAll items

def leavesAll : List Literal → List Float
  | [] => []
  | t :: ts => t.leaves ++ leavesAll ts

end

mutual

/-- The greatest number of groups around a leaf or inside one another. -/
def height : Literal → Nat
  | leaf _ => 0
  | group items => heightAll items + 1

def heightAll : List Literal → Nat
  | [] => 0
  | t :: ts => max t.height (heightAll ts)

end

mutual

/-- The groups of a literal in the order in which they close, with their depths and numbers of
items. -/
def closings (depth : Nat) : Literal → List (Nat × Nat)
  | leaf _ => []
  | group items => closingsAll (depth + 1) items ++ [(depth, items.length)]

def closingsAll (depth : Nat) : List Literal → List (Nat × Nat)
  | [] => []
  | t :: ts => t.closings depth ++ closingsAll depth ts

end

/-- The lengths that are noted while a literal is read; none where a group disagrees with the
length at its depth. -/
def noted? (t : Literal) : Option (List Nat) :=
  ((⟨[], []⟩ : Progress).closeAll? (t.closings 0)).map (·.shape)

/-- What reading a literal adds to what has been read. -/
def note? (levels depth : Nat) (p : Progress) (t : Literal) : Option Progress :=
  if depth + t.height ≤ levels then (p.push t.leaves).closeAll? (t.closings depth) else none

def noteAll? (levels depth : Nat) (p : Progress) (ts : List Literal) : Option Progress :=
  if depth + heightAll ts ≤ levels then (p.push (leavesAll ts)).closeAll? (closingsAll depth ts)
  else none

theorem noteAll?_nil {levels depth : Nat} (hdepth : depth ≤ levels) (p : Progress) :
    noteAll? levels depth p [] = some p := by
  rw [noteAll?, if_pos (by rw [heightAll]; exact hdepth), leavesAll, closingsAll,
    Progress.push_nil, Progress.closeAll?_nil]

theorem noteAll?_cons (levels depth : Nat) (p : Progress) (t : Literal) (ts : List Literal) :
    noteAll? levels depth p (t :: ts) =
      (t.note? levels depth p).bind (noteAll? levels depth · ts) := by
  unfold noteAll? note?
  rw [heightAll, leavesAll, closingsAll, Progress.closeAll?_append, ← Progress.push_push,
    Progress.closeAll?_push]
  by_cases ht : depth + t.height ≤ levels
  · rw [if_pos ht]
    by_cases hts : depth + heightAll ts ≤ levels
    · rw [if_pos (by omega), Option.bind_map]
      simp only [hts, if_true]
      rfl
    · rw [if_neg (by omega)]
      simp [hts]
  · rw [if_neg ht, if_neg (by omega), Option.bind_none]

theorem note?_group (levels depth : Nat) (p : Progress)
    (items : List Literal) :
    (group items).note? levels depth p =
      (noteAll? levels (depth + 1) p items).bind (·.close? depth items.length) := by
  unfold note? noteAll?
  rw [height, leaves, closings, Progress.closeAll?_append]
  by_cases hitems : depth + 1 + heightAll items ≤ levels
  · rw [if_pos hitems, if_pos (by omega)]
    simp
  · rw [if_neg hitems, if_neg (by omega), Option.bind_none]

theorem takeLeaf?_eq (close : Char) (p : Progress) (cs : List Char) :
    takeLeaf? close p cs = (readLeaf? close cs).map fun r => (p.push r.1.leaves, r.2) := by
  unfold takeLeaf? readLeaf?
  dsimp only
  generalize cs.dropWhile (fun c => c != ',' && c != close) = rest
  cases rest with
  | nil => rfl
  | cons c rest =>
    cases Decimal.readDouble? (Text.trim (cs.takeWhile fun c => c != ',' && c != close)) with
    | none => rfl
    | some x => rfl

theorem readLeaf?_eq_some {close : Char} {cs rest : List Char} {t : Literal}
    (h : readLeaf? close cs = some (t, rest)) : ∃ x, t = leaf x := by
  unfold readLeaf? at h
  dsimp only at h
  split at h
  · cases h
  · obtain ⟨x, -, h⟩ := Option.map_eq_some_iff.mp h
    cases h
    exact ⟨x, rfl⟩

/-- An item of a group at a depth. -/
def takeItem? (levels fuel depth : Nat) (close : Char) (p : Progress) (cs : List Char) :
    Option (Progress × List Char) :=
  if (cs.head?.bind closing?).isSome then
    if depth + 1 < levels then takeGroup? levels fuel (depth + 1) p cs else none
  else takeLeaf? close p cs

/-- What follows an item of a group at a depth: more items, or the end of the group. -/
def takeRest? (levels fuel depth : Nat) (close : Char) (count : Nat) (q : Progress × List Char) :
    Option (Progress × List Char) :=
  match Text.trimStart q.2 with
  | c :: rest =>
    if c == ',' then takeItems? levels fuel depth close (count + 1) q.1 (Text.trimStart rest)
    else if c == close then (q.1.close? depth (count + 1)).map (·, rest)
    else none
  | [] => none

theorem takeItems?_succ (levels fuel depth : Nat) (close : Char) (count : Nat) (p : Progress)
    (cs : List Char) :
    takeItems? levels (fuel + 1) depth close count p cs =
      (takeItem? levels fuel depth close p cs).bind
        (takeRest? levels fuel depth close count) := by
  rw [takeItems?, takeItem?]
  split
  · split
    · refine Option.bind_congr fun q _ => ?_
      obtain ⟨p, rest⟩ := q
      dsimp only [takeRest?]
      cases p.close? depth (count + 1) <;> rfl
    · rfl
  · refine Option.bind_congr fun q _ => ?_
    obtain ⟨p, rest⟩ := q
    dsimp only [takeRest?]
    cases p.close? depth (count + 1) <;> rfl

/-- An item is read and then noted, if groups are. -/
theorem takeItem?_eq {levels fuel depth : Nat} (close : Char) (p : Progress) (cs : List Char)
    (hdepth : depth < levels)
    (hgroup : depth + 1 < levels → takeGroup? levels fuel (depth + 1) p cs =
      (readGroup? fuel cs).bind fun r => (r.1.note? levels (depth + 1) p).map (·, r.2)) :
    takeItem? levels fuel depth close p cs =
      (readItem? fuel close cs).bind fun r => (r.1.note? levels (depth + 1) p).map (·, r.2) := by
  unfold takeItem? readItem?
  split
  · split
    · rename_i hnested
      exact hgroup hnested
    · rename_i hdeep
      cases hread : readGroup? fuel cs with
      | none => rfl
      | some r =>
        obtain ⟨items, hgroup⟩ := exists_items_of_readGroup? hread
        rw [Option.bind_some, hgroup, note?, if_neg (by rw [height]; omega), Option.map_none]
  · rw [takeLeaf?_eq]
    cases hread : readLeaf? close cs with
    | none => rfl
    | some r =>
      obtain ⟨x, hleaf⟩ := readLeaf?_eq_some hread
      rw [Option.bind_some, Option.map_some, hleaf, note?, if_pos (by rw [height]; omega)]
      rfl

mutual

/-- Reading a group into an array reads the literal and then notes its groups. -/
theorem takeGroup?_eq : ∀ (fuel : Nat) {levels depth : Nat} (p : Progress) (cs : List Char),
    depth < levels → takeGroup? levels fuel depth p cs =
      (readGroup? fuel cs).bind fun r => (r.1.note? levels depth p).map (·, r.2)
  | 0, _, _, _, _, _ => by simp [takeGroup?, readGroup?]
  | _ + 1, _, _, _, [], _ => by simp [takeGroup?, readGroup?]
  | fuel + 1, levels, depth, p, c :: cs, hdepth => by
    rw [takeGroup?, readGroup?]
    cases closing? c with
    | none => rfl
    | some close =>
      dsimp only [bind, Option.bind]
      split
      · dsimp only
        rw [note?_group, noteAll?_nil hdepth, Option.bind_some, List.length_nil]
        cases p.close? depth 0 <;> rfl
      · rw [takeItems?_eq fuel _ 0 _ _ hdepth]
        cases readItems? fuel close (Text.trimStart cs) with
        | none => rfl
        | some r =>
          simp only [Option.bind_some, Option.map_some, Nat.zero_add]
          rw [note?_group]

theorem takeItems?_eq : ∀ (fuel : Nat) {levels depth : Nat} (close : Char) (count : Nat)
    (p : Progress) (cs : List Char), depth < levels →
      takeItems? levels fuel depth close count p cs =
        (readItems? fuel close cs).bind fun r =>
          ((noteAll? levels (depth + 1) p r.1).bind (·.close? depth (count + r.1.length))).map
            (·, r.2)
  | 0, _, _, _, _, _, _, _ => by simp [takeItems?, readItems?]
  | fuel + 1, levels, depth, close, count, p, cs, hdepth => by
    have hitem := takeItem?_eq close p cs hdepth fun hnested => takeGroup?_eq fuel p cs hnested
    rw [takeItems?_succ, hitem, readItems?, ← readItem?]
    cases readItem? fuel close cs with
    | none => rfl
    | some r =>
      rw [Option.bind_some, Option.bind_some, Option.bind_map]
      dsimp only [Function.comp_def, takeRest?]
      cases Text.trimStart r.2 with
      | nil => cases r.1.note? levels (depth + 1) p <;> rfl
      | cons c rest =>
        dsimp only
        split
        · rw [Option.bind_map]
          cases hnote : r.1.note? levels (depth + 1) p with
          | none =>
            rw [Option.bind_none, eq_comm, Option.bind_eq_none_iff]
            intro s _
            simp [noteAll?_cons, hnote]
          | some q =>
            rw [Option.bind_some, takeItems?_eq fuel close _ q _ hdepth]
            refine Option.bind_congr fun s _ => ?_
            simp only [Function.comp_apply, noteAll?_cons, hnote, Option.bind_some,
              List.length_cons, Nat.add_assoc, Nat.add_comm 1]
        · split
          · rw [Option.bind_some, noteAll?_cons]
            cases r.1.note? levels (depth + 1) p with
            | none => rfl
            | some q =>
              rw [Option.bind_some, Option.bind_some, noteAll?_nil hdepth]
              rfl
          · cases r.1.note? levels (depth + 1) p <;> rfl

end

/-- The array that a literal gives where as many lengths are noted as there are to be levels. -/
def array? (levels : Nat) (t : Literal) : Option Value :=
  if t.height ≤ levels then
    t.noted?.bind fun s =>
      if s.length = levels then
        withShape? .double (s.map UInt32.ofNat) (t.leaves.map Value.double)
      else none
  else none

theorem note?_zero (levels : Nat) (t : Literal) :
    t.note? levels 0 ⟨[], []⟩ =
      if t.height ≤ levels then t.noted?.map fun s => ⟨s, t.leaves⟩ else none := by
  unfold note? noted?
  rw [Nat.zero_add, Progress.closeAll?_push]
  split
  · cases hread : (⟨[], []⟩ : Progress).closeAll? (t.closings 0) with
    | none => rfl
    | some q => simp [Progress.push, Progress.values_closeAll? hread]
  · rfl

end Literal

/-- A text gives the array of the literal that it writes. -/
theorem parse?_eq (text : String) (dims : Nat) :
    parse? text dims = (Literal.read? text.toList).bind (Literal.array? (max 1 dims)) := by
  unfold parse? Literal.read?
  dsimp only
  rw [Literal.takeGroup?_eq _ _ _ (by omega), Option.bind_assoc]
  cases Literal.readGroup? (2 * (Text.trim text.toList).length + 1) (Text.trim text.toList) with
  | none => rfl
  | some r =>
    simp only [Option.bind_some, Literal.note?_zero]
    cases hrest : (Text.trim r.2).isEmpty with
    | false =>
      rw [show (if false = true then some r.1 else none) = none from rfl, Option.bind_none]
      refine Option.bind_eq_none_iff.mpr fun q hq => ?_
      obtain ⟨_, -, rfl⟩ := Option.map_eq_some_iff.mp hq
      simp [hrest]
    | true =>
      rw [if_pos rfl, Option.bind_some, Literal.array?]
      split
      · cases r.1.noted? with
        | none => rfl
        | some s => simp [List.isEmpty_iff.mp hrest]
      · rfl

namespace Literal

/-- A literal of a shape: the doubles stand at one level, and all groups of a level have the same
number of items. A group without items is of the innermost level. -/
inductive HasShape : Literal → List Nat → Prop
  | leaf (x : Float) : HasShape (leaf x) []
  | empty : HasShape (group []) [0]
  | group {items : List Literal} {s : List Nat} (hne : items ≠ [])
    (h : ∀ t ∈ items, HasShape t s) : HasShape (group items) (items.length :: s)

theorem heightAll_of_forall {items : List Literal} {n : Nat} (hne : items ≠ [])
    (h : ∀ t ∈ items, t.height = n) : heightAll items = n := by
  induction items with
  | nil => exact absurd rfl hne
  | cons t ts ih =>
    rw [heightAll, h t List.mem_cons_self]
    by_cases hts : ts = []
    · rw [hts, heightAll, Nat.max_zero]
    · rw [ih hts fun u hu => h u (List.mem_cons_of_mem t hu), Nat.max_self]

theorem length_leavesAll {items : List Literal} {n : Nat} (h : ∀ t ∈ items, t.leaves.length = n) :
    (leavesAll items).length = items.length * n := by
  induction items with
  | nil => simp [leavesAll]
  | cons t ts ih =>
    rw [leavesAll, List.length_append, h t List.mem_cons_self,
      ih fun u hu => h u (List.mem_cons_of_mem t hu), List.length_cons, Nat.succ_mul, Nat.add_comm]

theorem mem_closingsAll {items : List Literal} {depth : Nat} {g : Nat × Nat} :
    g ∈ closingsAll depth items ↔ ∃ t ∈ items, g ∈ t.closings depth := by
  induction items with
  | nil => simp [closingsAll]
  | cons t ts ih => simp [closingsAll, ih]

namespace HasShape

variable {t : Literal} {s s' : List Nat}

theorem height_eq (h : HasShape t s) : t.height = s.length := by
  induction h with
  | leaf x => rfl
  | empty => rfl
  | group hne _ ih => rw [height, heightAll_of_forall hne ih, List.length_cons]

theorem length_leaves (h : HasShape t s) : t.leaves.length = s.prod := by
  induction h with
  | leaf x => rfl
  | empty => rfl
  | group _ _ ih => rw [leaves, length_leavesAll ih, List.prod_cons]

theorem mem_of_closings (h : HasShape t s) :
    ∀ {depth : Nat}, ∀ g ∈ t.closings depth, g.2 ∈ s := by
  induction h with
  | leaf x => exact fun g hg => absurd hg List.not_mem_nil
  | empty =>
    intro depth g hg
    obtain rfl := List.mem_singleton.mp hg
    exact List.mem_singleton_self 0
  | group hne _ ih =>
    intro depth g hg
    rw [closings] at hg
    obtain hg | hg := List.mem_append.mp hg
    · obtain ⟨u, hu, hg⟩ := mem_closingsAll.mp hg
      exact List.mem_cons_of_mem _ (ih u hu g hg)
    · obtain rfl := List.mem_singleton.mp hg
      exact List.mem_cons_self

/-- A literal has one shape at most. -/
theorem unique (h : HasShape t s) (h' : HasShape t s') : s = s' := by
  induction h generalizing s' with
  | leaf x =>
    cases h' with
    | leaf => rfl
  | empty =>
    cases h' with
    | empty => rfl
    | group hne => exact absurd rfl hne
  | @group items s hne h ih =>
    cases h' with
    | empty => exact absurd rfl hne
    | group _ h' =>
      obtain ⟨t, ht⟩ := List.exists_mem_of_ne_nil items hne
      rw [ih t ht (h' t ht)]

/-- What is noted while a literal of a shape is read are lengths of the shape. -/
theorem mem_of_noted? (h : HasShape t s) (hnoted : t.noted? = some s') : ∀ n ∈ s', n ∈ s := by
  obtain ⟨p, hp, rfl⟩ := Option.map_eq_some_iff.mp hnoted
  intro n hn
  obtain hn | ⟨g, hg, rfl⟩ := Progress.mem_shape_closeAll? hp n hn
  · cases hn
  · exact h.mem_of_closings g hg

end HasShape
end Literal
end SqlResolution.Value.DoubleArray
