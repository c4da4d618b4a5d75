import SqlResolution.Proofs.Overload.Typing
import SqlResolution.Proofs.Variables

/-!
# Slots and their links over time

A link keeps the type that it has, while the bind table goes on. Links to slots are made, links are
given types and slots are defined, in any order. A slot that has an entry keeps it through all of
this, so a link that has the type of its slot once has it ever after.
-/
namespace SqlResolution

/-- What is done with a bind table and the links to its slots. -/
inductive LinkEvent where
  /-- A token is made a link, where it stands for a slot. -/
  | link (span : Span) (token : String)
  /-- One of the links, counted in the order in which they were made, is given a type. -/
  | assign (k : Nat) (type : ColumnType)
  /-- A slot is given a type. -/
  | define (slot : Nat) (type : ColumnType)

/-- A link, and whether it was ever given a type. -/
structure LiveLink where
  evaluator : Evaluator
  assigned : Bool

/-- A bind table with the links to its slots, in the order in which they were made. -/
structure Linking where
  table : BindTable
  links : List LiveLink

namespace Linking

def start (b : BindTable) : Linking := ⟨b, []⟩

/-- The context in which links are made: one that has this table. -/
def context (c : Context) (s : Linking) : Context := { c with binds := some s.table }

def step (c : Context) (s : Linking) : LinkEvent → Linking
  | .link span token =>
    match Link.numbered (s.context c) span token with
    | .ok e => { s with links := s.links ++ [⟨e, false⟩] }
    | .error _ => s
  | .assign k type =>
    match s.links[k]? with
    | none => s
    | some l =>
      match l.evaluator.assignType s.table type with
      | .ok (e, b) => ⟨b, s.links.set k ⟨e, true⟩⟩
      | .error _ => { s with links := s.links.set k ⟨l.evaluator, true⟩ }
  | .define slot type => { s with table := s.table.define slot type }

def run (c : Context) (s : Linking) (events : List LinkEvent) : Linking := events.foldl (step c) s

variable {c : Context} {s s' : Linking} {event : LinkEvent}

theorem run_append (c : Context) (s : Linking) (before after : List LinkEvent) :
    s.run c (before ++ after) = (s.run c before).run c after := List.foldl_append ..

theorem run_cons (c : Context) (s : Linking) (event : LinkEvent) (events : List LinkEvent) :
    s.run c (event :: events) = (s.step c event).run c events := rfl

/-- What an event can do where all links are links to slots. -/
inductive Move (c : Context) (s : Linking) : LinkEvent → Linking → Prop
  | idle (event : LinkEvent) : Move c s event s
  | link {span : Span} {token : String} (i : Nat) :
      Move c s (.link span token)
        { s with links := s.links ++ [⟨.slotLink i ((s.table.slotType? i).getD .undefined), false⟩] }
  | assign {k i : Nat} {type old : ColumnType} {assigned : Bool}
      (linked : s.links[k]? = some ⟨.slotLink i old, assigned⟩) :
      Move c s (.assign k type)
        ⟨s.table.define i type, s.links.set k ⟨.slotLink i (s.table.definedType i type), true⟩⟩
  | define (i : Nat) (type : ColumnType) :
      Move c s (.define i type) { s with table := s.table.define i type }

/-- The links to slots and the table agree. Since the run began with the table `b`, no more than the
slots `D` and those of assigned links were given types. -/
structure Coherent (b : BindTable) (D : Nat → Prop) (s : Linking) : Prop where
  /-- An assigned link has the type that the table has for its slot. -/
  slots : ∀ l ∈ s.links, ∃ i type, l.evaluator = .slotLink i type ∧
    (l.assigned = true → s.table.slotType? i = some type)
  untouched : ∀ i, ¬D i →
    (∀ l ∈ s.links, l.assigned = true → l.evaluator.slot? ≠ some i) → s.table.slot? i = b.slot? i
  named : ∀ name, s.table.named? name = b.named? name

variable {b : BindTable} {D : Nat → Prop}

theorem coherent_start (b : BindTable) (D : Nat → Prop) : (start b).Coherent b D where
  slots l hl := by cases hl
  untouched _ _ _ := rfl
  named _ := rfl

theorem move_step (h : s.Coherent b D) (c : Context) (event : LinkEvent) :
    s.Move c event (s.step c event) := by
  cases event with
  | link span token =>
    rw [step]
    cases hlink : Link.numbered (s.context c) span token with
    | error error => exact .idle _
    | ok e =>
      obtain ⟨n, -, -, rfl⟩ := Link.numbered_ok hlink
      exact .link (n.toInt.toNat - 1)
  | assign k type =>
    rw [step]
    cases hl : s.links[k]? with
    | none => exact .idle _
    | some l =>
      obtain ⟨i, old, hslot, -⟩ := h.slots l (List.mem_of_getElem? hl)
      obtain ⟨e, assigned⟩ := l
      cases hslot
      exact .assign hl
  | define i type => exact .define i type

theorem slotType?_of_slot? {i : Nat} {v : BindVariable} (h : b.slot? i = some v) :
    b.slotType? i = some v.type := by
  rw [BindTable.slotType?, h, Option.map_some]

theorem named?_define (b : BindTable) (i : Nat) (type : ColumnType) (name : String) :
    (b.define i type).named? name = b.named? name :=
  BindTable.lookup?_give_of_ne (x := .slot i) (y := .named name) (by simp) b type

namespace Move

/-- A slot that has an entry keeps it. -/
theorem slot? (h : s.Move c event s') {i : Nat} {v : BindVariable}
    (hv : s.table.slot? i = some v) : s'.table.slot? i = some v := by
  cases h with
  | idle | link => exact hv
  | assign | define => exact BindTable.slot?_define_of_some hv _

theorem slotType? (h : s.Move c event s') {i : Nat} {type : ColumnType}
    (htype : s.table.slotType? i = some type) : s'.table.slotType? i = some type := by
  obtain ⟨v, hv, rfl⟩ := Option.map_eq_some_iff.mp htype
  exact slotType?_of_slot? (h.slot? hv)

/-- A link that has the type of its slot keeps it, also where it is given another. -/
theorem typed (h : s.Move c event s') {k i : Nat} {type : ColumnType} {assigned : Bool}
    (hlink : s.links[k]? = some ⟨.slotLink i type, assigned⟩)
    (htype : s.table.slotType? i = some type) :
    ∃ assigned, s'.links[k]? = some ⟨.slotLink i type, assigned⟩ := by
  obtain ⟨hlt, -⟩ := List.getElem?_eq_some_iff.mp hlink
  cases h with
  | idle | define => exact ⟨assigned, hlink⟩
  | link => exact ⟨assigned, (List.getElem?_append_left hlt).trans hlink⟩
  | @assign j _ given _ _ linked =>
    by_cases hjk : j = k
    · subst hjk
      rw [hlink] at linked
      cases linked
      refine ⟨true, ?_⟩
      rw [List.getElem?_set_self hlt, BindTable.definedType, htype, Option.getD_some]
    · exact ⟨assigned, (List.getElem?_set_ne hjk).trans hlink⟩

theorem coherent (h : s.Move c event s') (hs : s.Coherent b D)
    (hdefine : ∀ i type, event = .define i type → D i) : s'.Coherent b D := by
  have hslotType : ∀ {i type}, s.table.slotType? i = some type →
      s'.table.slotType? i = some type := h.slotType?
  cases h with
  | idle => exact hs
  | link i =>
    refine ⟨fun l hl => ?_, fun j hD hfree => hs.untouched j hD fun l hl => ?_, hs.named⟩
    · obtain hl | rfl := List.mem_append.mp hl |>.imp_right List.mem_singleton.mp
      · exact hs.slots l hl
      · exact ⟨i, _, rfl, fun hassigned => by cases hassigned⟩
    · exact hfree l (List.mem_append_left _ hl)
  | @assign k i type old assigned linked =>
    obtain ⟨hlt, -⟩ := List.getElem?_eq_some_iff.mp linked
    refine ⟨fun l hl => ?_, fun j hD hfree => ?_, fun name => ?_⟩
    · obtain hl | rfl := List.mem_or_eq_of_mem_set hl
      · obtain ⟨j, t, hlink, htype⟩ := hs.slots l hl
        exact ⟨j, t, hlink, fun hassigned => hslotType (htype hassigned)⟩
      · exact ⟨i, _, rfl, fun _ => s.table.slotType?_define_self i type⟩
    · have hji : j ≠ i := by
        rintro rfl
        exact hfree _ (List.mem_set hlt _) rfl rfl
      rw [BindTable.slot?_define_of_ne hji]
      refine hs.untouched j hD fun l hl hassigned hslot => ?_
      -- The entry that was replaced links slot `i`, so `l` is still among the links.
      obtain ⟨m, hm⟩ := List.getElem?_of_mem hl
      have hmk : k ≠ m := by
        rintro rfl
        rw [linked] at hm
        cases hm
        exact hji (Option.some.inj hslot).symm
      exact hfree l (List.mem_of_getElem? ((List.getElem?_set_ne hmk).trans hm)) hassigned hslot
    · rw [named?_define, hs.named]
  | define i type =>
    refine ⟨fun l hl => ?_, fun j hD hfree => ?_, fun name => ?_⟩
    · obtain ⟨j, t, hlink, htype⟩ := hs.slots l hl
      exact ⟨j, t, hlink, fun hassigned => hslotType (htype hassigned)⟩
    · have hji : j ≠ i := by
        rintro rfl
        exact hD (hdefine j type rfl)
      rw [BindTable.slot?_define_of_ne hji]
      exact hs.untouched j hD hfree
    · rw [named?_define, hs.named]

end Move

/-- A run keeps links and table in agreement where it defines no slots but some. -/
theorem Coherent.run (hs : s.Coherent b D) (c : Context) {events : List LinkEvent}
    (hdefine : ∀ i type, .define i type ∈ events → D i) : (s.run c events).Coherent b D := by
  induction events generalizing s with
  | nil => exact hs
  | cons event events ih =>
    refine ih ((move_step hs c event).coherent hs fun i type hevent => ?_) fun i type hmem => ?_
    · exact hdefine i type (hevent ▸ List.mem_cons_self)
    · exact hdefine i type (List.mem_cons_of_mem _ hmem)

/-- What every event keeps of links and table in agreement, a run keeps. -/
theorem Coherent.keeps {P : Linking → Prop}
    (hmove : ∀ {s s' event}, Move c s event s' → P s → P s') (hs : s.Coherent b fun _ => True)
    (hP : P s) (events : List LinkEvent) : P (s.run c events) := by
  induction events generalizing s with
  | nil => exact hP
  | cons event events ih =>
    have hstep := move_step hs c event
    exact ih (hstep.coherent hs fun _ _ _ => trivial) (hmove hstep hP)

/-- A link is made for the number of a slot, with the type that the table has for it. -/
theorem step_link {token : String} {n : Int32} {v : BindVariable} (s : Linking) (span : Span)
    (hnumber : Link.slotNumber? token = some n) (hpos : ¬n < 1)
    (hentry : s.table.slot? (n.toInt.toNat - 1) = some v) :
    s.step c (.link span token) =
      { s with links := s.links ++ [⟨.slotLink (n.toInt.toNat - 1) v.type, false⟩] } := by
  have htype : (s.context c).table.slotType? (n.toInt.toNat - 1) = some v.type :=
    slotType?_of_slot? hentry
  have hlink : Link.numbered (s.context c) span token =
      .ok (.slotLink (n.toInt.toNat - 1) v.type) := by
    rw [Link.numbered, hnumber, Link.table_eq]
    dsimp only
    rw [if_neg hpos]
    change Except.ok (Evaluator.slotLink _ (((s.context c).table.slotType? _).getD .undefined)) = _
    rw [htype, Option.getD_some]
  rw [step, hlink]

/-- Slots are typed once. Along every run of events, in any order, a slot that has an entry keeps its
type and its value, and in the end every link that was ever given a type has the type that the table
has for its slot. Slots that were not defined, nor given a type through a link, and all named
variables are as they were. A link that is made when its slot has an entry has the type of the entry
from then on. -/
theorem typed_once (c : Context) (b : BindTable) (events : List LinkEvent) :
    let after := (start b).run c events
    (∀ before rest, events = before ++ rest → ∀ i v,
        ((start b).run c before).table.slot? i = some v → after.table.slot? i = some v) ∧
      (∀ l ∈ after.links, l.assigned = true →
        ∃ i, l.evaluator.slot? = some i ∧ after.table.slotType? i = some l.evaluator.type) ∧
      (∀ i, (∀ l ∈ after.links, l.assigned = true → l.evaluator.slot? ≠ some i) →
        (∀ type, .define i type ∉ events) → after.table.slot? i = b.slot? i) ∧
      (∀ name, after.table.named? name = b.named? name) ∧
      ∀ before span token rest n v, events = before ++ .link span token :: rest →
        let s := (start b).run c before
        Link.slotNumber? token = some n → ¬n < 1 → s.table.slot? (n.toInt.toNat - 1) = some v →
          ∃ assigned, after.links[s.links.length]? =
            some ⟨.slotLink (n.toInt.toNat - 1) v.type, assigned⟩ := by
  intro after
  have hcoherent : ∀ events, ((start b).run c events).Coherent b fun _ => True := fun events =>
    (coherent_start b _).run c fun _ _ _ => trivial
  refine ⟨?_, ?_, ?_, (hcoherent events).named, ?_⟩
  · rintro before rest hevents i v hv
    change ((start b).run c events).table.slot? i = some v
    rw [hevents, run_append]
    exact (hcoherent before).keeps (P := fun s => s.table.slot? i = some v)
      (fun hmove hv => hmove.slot? hv) hv rest
  · intro l hl hassigned
    obtain ⟨i, type, hlink, htype⟩ := (hcoherent events).slots l hl
    rw [hlink]
    exact ⟨i, rfl, htype hassigned⟩
  · intro i hfree hdefine
    have hrun : after.Coherent b fun j => ∃ type, .define j type ∈ events :=
      (coherent_start b _).run c fun j type hmem => ⟨type, hmem⟩
    exact hrun.untouched i (fun ⟨type, hmem⟩ => hdefine type hmem) hfree
  · rintro before span token rest n v hevents s hnumber hpos hentry
    change ∃ assigned, ((start b).run c events).links[s.links.length]? = _
    have hmade : (((start b).run c before).run c [.link span token]).Coherent b fun _ => True :=
      (hcoherent before).run c fun _ _ _ => trivial
    rw [run_cons, step_link s span hnumber hpos hentry] at hmade
    rw [hevents, run_append, run_cons, step_link s span hnumber hpos hentry]
    refine (hmade.keeps (P := fun s' => s'.table.slot? (n.toInt.toNat - 1) = some v ∧
      ∃ assigned, s'.links[s.links.length]? =
        some ⟨.slotLink (n.toInt.toNat - 1) v.type, assigned⟩) ?_ ⟨hentry, ?_⟩ rest).2
    · rintro s s' event hmove ⟨hslot, assigned, hlink⟩
      exact ⟨hmove.slot? hslot, hmove.typed hlink (slotType?_of_slot? hslot)⟩
    · exact ⟨false, List.getElem?_concat_length⟩

/-- The tokens `$1`, `$1` and `$2` are linked. The first two links are given different types, and the
third is of a slot that was defined. -/
def threeLinks : List LinkEvent :=
  [.link ⟨0, 2⟩ "$1", .assign 0 .int, .link ⟨3, 2⟩ "$1", .assign 1 .string, .define 1 .long,
    .link ⟨6, 2⟩ "$2"]

/-- The first slot keeps the type that it was given first, which its second link has too. The third
link has the type that its slot was defined with, and nothing else has changed. -/
theorem typed_once_threeLinks :
    let after := (start .empty).run (.fresh 0) threeLinks
    after.table.slot? 0 = some ⟨.int, .null⟩ ∧
      after.links[1]? = some ⟨.slotLink 0 .int, true⟩ ∧ after.table.slotType? 0 = some .int ∧
      after.table.slot? 2 = none ∧ after.table.named? "x" = none ∧
      ∃ assigned, after.links[2]? = some ⟨.slotLink 1 .long, assigned⟩ := by
  intro after
  obtain ⟨hkept, hassigned, huntouched, hnamed, hlinked⟩ := typed_once (.fresh 0) .empty threeLinks
  have hsecond : after.links[1]? = some ⟨.slotLink 0 .int, true⟩ := rfl
  refine ⟨hkept [_, _] _ rfl 0 _ rfl, hsecond, ?_, huntouched 2 ?_ ?_, hnamed "x",
    hlinked [_, _, _, _, _] ⟨6, 2⟩ "$2" [] 2 ⟨.long, .null⟩ rfl rfl (by decide) rfl⟩
  · obtain ⟨i, hslot, htype⟩ := hassigned _ (List.mem_of_getElem? hsecond) rfl
    cases hslot
    exact htype
  · have hslots : ∀ l ∈ after.links, l.evaluator.slot? ≠ some 2 := by
      have hlinks : after.links = [⟨.slotLink 0 .int, true⟩, ⟨.slotLink 0 .int, true⟩,
        ⟨.slotLink 1 .long, false⟩] := rfl
      simp [hlinks, Evaluator.slot?]
    exact fun l hl _ => hslots l hl
  · intro type hmem
    simp [threeLinks] at hmem

/-- A slot that is defined changes, though no link is given a type. -/
theorem not_untouched_of_define :
    ¬∀ (c : Context) (b : BindTable) (events : List LinkEvent),
      let after := (start b).run c events
      ∀ i, (∀ l ∈ after.links, l.assigned = true → l.evaluator.slot? ≠ some i) →
        after.table.slot? i = b.slot? i := by
  intro h
  have hslot := h (.fresh 0) .empty [.define 0 .int] 0 fun l hl => by cases hl
  cases hslot

end Linking
end SqlResolution
