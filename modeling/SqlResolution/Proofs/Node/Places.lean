import SqlResolution.Node.Postorder

/-!
# Places in a tree

A place is the way from the root to a node, by the places of arguments. In postorder a place comes
before those above it and before those to its right, and the nodes of a tree stand in this order,
each place once.
-/
namespace SqlResolution.Node

/-- The way from a root to a node: the places of arguments from the top down. -/
abbrev Place := List Nat

/-- Postorder of places: below comes before above, and left before right. -/
def Place.Before : Place → Place → Prop
  | _ :: _, [] => True
  | [], _ => False
  | i :: p, j :: q => i < j ∨ i = j ∧ Place.Before p q

/-- The node at a place. -/
def at? : Node → Place → Option Node
  | n, [] => some n
  | n, i :: p => n.args[i]?.bind (·.at? p)

mutual

/-- The places of a tree, each after those below it. -/
def places : Node → List Place
  | ⟨_, _, _, args, _⟩ => placesFrom 0 args ++ [[]]

/-- The places of arguments that start at one. -/
def placesFrom (i : Nat) : List Node → List Place
  | [] => []
  | n :: ns => n.places.map (i :: ·) ++ placesFrom (i + 1) ns

end

/-- Places are those of a tree in postorder: all of them, and sorted. -/
structure IsPostorder (root : Node) (places : List Place) : Prop where
  complete : ∀ p, p ∈ places ↔ (root.at? p).isSome = true
  sorted : places.Pairwise Place.Before

namespace Place

theorem Before.irrefl : (p : Place) → ¬p.Before p
  | [], h => h
  | i :: p, h => h.elim (Nat.lt_irrefl i) fun hp => Before.irrefl p hp.2

theorem before_cons_iff {i : Nat} {p q : Place} : Before (i :: p) (i :: q) ↔ p.Before q := by
  simp [Before]

end Place

/-- A tree has no place twice. -/
theorem IsPostorder.nodup {root : Node} {places : List Place} (h : root.IsPostorder places) :
    places.Nodup := by
  refine h.sorted.imp ?_
  rintro p _ hbefore rfl
  exact Place.Before.irrefl p hbefore

/-- A place of arguments is below one of them. -/
theorem exists_of_mem_placesFrom {i : Nat} {ns : List Node} {p : Place}
    (h : p ∈ placesFrom i ns) : ∃ j q, i ≤ j ∧ p = j :: q := by
  induction ns generalizing i with
  | nil => simp [placesFrom] at h
  | cons n ns ih =>
    simp only [placesFrom, List.mem_append, List.mem_map] at h
    obtain ⟨q, -, rfl⟩ | h := h
    · exact ⟨i, q, Nat.le_refl i, rfl⟩
    · obtain ⟨j, q, hj, rfl⟩ := ih h
      exact ⟨j, q, Nat.le_of_succ_le hj, rfl⟩

mutual

theorem mem_places_iff : (n : Node) → (p : Place) → (p ∈ n.places ↔ (n.at? p).isSome = true)
  | ⟨_, _, _, args, _⟩, [] => by simp [places, at?]
  | ⟨_, _, _, args, _⟩, i :: p => by
    simp only [places, List.mem_append, List.mem_singleton, reduceCtorEq, or_false]
    have hargs := mem_placesFrom_iff 0 args i p
    rwa [Nat.zero_add] at hargs

theorem mem_placesFrom_iff : (i : Nat) → (ns : List Node) → (k : Nat) → (p : Place) →
    ((i + k) :: p ∈ placesFrom i ns ↔ (ns[k]?.bind (·.at? p)).isSome = true)
  | i, [], k, p => by simp [placesFrom]
  | i, n :: ns, 0, p => by
    simp only [placesFrom, List.mem_append, List.mem_map, List.cons.injEq, Nat.add_zero, true_and,
      exists_eq_right, List.getElem?_cons_zero, Option.bind_some, mem_places_iff n p,
      or_iff_left_iff_imp]
    intro h
    obtain ⟨j, q, hj, heq⟩ := exists_of_mem_placesFrom h
    obtain ⟨rfl, -⟩ := List.cons.inj heq
    omega
  | i, n :: ns, k + 1, p => by
    have hrest := mem_placesFrom_iff (i + 1) ns k p
    rw [show i + 1 + k = i + (k + 1) by omega] at hrest
    rw [placesFrom, List.mem_append, List.getElem?_cons_succ, ← hrest, or_iff_right_iff_imp]
    intro h
    obtain ⟨q, -, heq⟩ := List.mem_map.mp h
    obtain ⟨hi, -⟩ := List.cons.inj heq
    omega

end

mutual

theorem pairwise_places : (n : Node) → n.places.Pairwise Place.Before
  | ⟨_, _, _, args, _⟩ => by
    rw [places]
    refine List.pairwise_append.mpr ⟨pairwise_placesFrom 0 args, List.pairwise_singleton _ _, ?_⟩
    intro p hp q hq
    obtain ⟨j, p, -, rfl⟩ := exists_of_mem_placesFrom hp
    rw [List.mem_singleton.mp hq]
    trivial

theorem pairwise_placesFrom : (i : Nat) → (ns : List Node) →
    (placesFrom i ns).Pairwise Place.Before
  | _, [] => .nil
  | i, n :: ns => by
    rw [placesFrom]
    refine List.pairwise_append.mpr ⟨?_, pairwise_placesFrom (i + 1) ns, ?_⟩
    · refine List.pairwise_map.mpr ((pairwise_places n).imp ?_)
      exact Place.before_cons_iff.mpr
    · intro p hp q hq
      obtain ⟨p, -, rfl⟩ := List.mem_map.mp hp
      obtain ⟨j, q, hj, rfl⟩ := exists_of_mem_placesFrom hq
      exact .inl hj

end

theorem isPostorder_places (n : Node) : n.IsPostorder n.places :=
  ⟨mem_places_iff n, pairwise_places n⟩

mutual

/-- The nodes in postorder are those at the places of the tree. -/
theorem map_at?_places : (n : Node) → n.places.map n.at? = n.postorder.map some
  | ⟨kind, token, span, args, query⟩ => by
    rw [places, postorder, List.map_append, List.map_append,
      map_at?_placesFrom 0 args ⟨kind, token, span, args, query⟩ fun k => by rw [Nat.zero_add]]
    rfl

theorem map_at?_placesFrom : (i : Nat) → (ns : List Node) → (root : Node) →
    (∀ k, root.args[i + k]? = ns[k]?) →
      (placesFrom i ns).map root.at? = (postorders ns).map some
  | _, [], _, _ => rfl
  | i, n :: ns, root, hargs => by
    have hrest : ∀ k, root.args[i + 1 + k]? = ns[k]? := fun k => by
      rw [Nat.add_assoc, Nat.add_comm 1 k, hargs, List.getElem?_cons_succ]
    have hhead : ∀ p, root.at? (i :: p) = n.at? p := fun p => by
      rw [at?, show root.args[i]? = some n from hargs 0, Option.bind_some]
    rw [placesFrom, postorders, List.map_append, List.map_append, List.map_map,
      map_at?_placesFrom (i + 1) ns root hrest, ← map_at?_places n]
    congr 1
    exact List.map_congr_left fun p _ => hhead p

end

end SqlResolution.Node
