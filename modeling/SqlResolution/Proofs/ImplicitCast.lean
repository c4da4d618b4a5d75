import SqlResolution.ImplicitCast
import SqlResolution.Proofs.Evaluator.Replacement
import SqlResolution.Proofs.Value.Adapter

/-!
# Eager and lazy implicit casts

The implicit cast of a constant is read at once, folded, or left to an adapter that converts the
value on each row. Each way it has the type and the value of the adapter around an evaluator of the
same value that is no constant. The exception is a constant text that is no geohash of the precision
asked for: reading it fails, where the adapter's value is null.
-/
namespace SqlResolution

namespace Evaluator

variable {b binds : BindTable} {v : Value} {e : Evaluator}

/-- On rows one after another, the evaluator always has the value. -/
def Always (b : BindTable) (v : Value) (e : Evaluator) : Prop :=
  ∀ rows, (e.evalRows b rows).1 = rows.map fun _ => v

theorem Always.value (h : e.Always b v) (row : Row) : e.value b row = v := by
  have hrow := h [row]
  rw [fst_evalRows_cons] at hrow
  exact (List.cons.inj hrow).1

theorem always_of_eval (h : ∀ row, e.eval b row = (v, e)) : e.Always b v := by
  intro rows
  induction rows with
  | nil => rfl
  | cons row rows ih => rw [fst_evalRows_cons, Evaluator.value, h, List.map_cons, ← ih]

theorem always_constant (b : BindTable) (type : ColumnType) (v : Value) :
    (constant type v).Always b v :=
  always_of_eval fun row => by simp only [Evaluator.eval]

theorem Maps.always {f : Value → Value} {r : Evaluator} (h : Maps b f e r) (he : e.Always b v) :
    r.Always b (f v) := by
  intro rows
  rw [h rows, he rows, List.map_map]
  rfl

/-- An adapter has its argument's values, converted. What is missing is missing afterwards. -/
theorem maps_apply (b : BindTable) (a : Adapter) (source target : ColumnType) (e : Evaluator) :
    Maps b (a.apply source target) e (.adapt a source target e) := by
  have happly : (fun v : Value => if v.isNull then .null else a.apply source target v) =
      a.apply source target := by
    funext v
    split
    · rename_i hnull
      exact (Adapter.apply_of_isNull hnull).symm
    · rfl
  have hmaps := maps_adapt b a source target e
  rwa [happly] at hmaps

/-- Folding keeps a value that an evaluator always has, where the value is of its type. -/
theorem Always.fold (h : e.Always b v) (hv : e.value binds .empty = v)
    (hconforms : v.conformsTo e.type = true) : (e.fold binds).Always b v := by
  have hfolds := foldsTo_fold binds e
  generalize e.fold binds = r at hfolds ⊢
  cases hfolds with
  | folded =>
    rw [hv]
    exact always_constant b _ v
  | evaluated _ hmisfits =>
    rw [hv, hconforms] at hmisfits
    cases hmisfits
  | unfoldable => exact h

theorem isConstant_adapt (a : Adapter) (source target : ColumnType) (e : Evaluator) :
    (adapt a source target e).isConstant = e.isConstant := by
  simp only [isConstant, traits, Traits.determinacy]

end Evaluator

open Evaluator

variable {b binds : BindTable} {span : Span} {f g : Evaluator} {source target : ColumnType}
  {a : Adapter} {v w : Value}

/-- The outcome is a cast to a type that always has a value. -/
structure CastOutcome.Gives (b : BindTable) (target : ColumnType) (w : Value)
    (outcome : CastOutcome) : Prop where
  isCast : outcome.isCast = true
  type : outcome.evaluator.type = target
  always : outcome.evaluator.Always b w

/-- A text is to become a geohash of some bits, and the adapter makes null of it. -/
structure MissesGeohash (source target : ColumnType) (v w : Value) (text : String) : Prop where
  source : source.tag.isString = true
  target : target.isSizedGeohash = true
  text : v = .str text
  null : w = .null

/-- A constant geohash is what the adapter makes of the text. Where that is null, the text is an
error. -/
theorem readConstantGeohash_spec (ha : a.fits source target = true) (hreads : a.readsGeohash = true)
    (span : Span) (v : Value) :
    (∃ text, MissesGeohash source target v (a.apply source target v) text ∧
      readConstantGeohash span target v = .error (.invalidGeohash text target.bits span)) ∨
    (∀ text, ¬MissesGeohash source target v (a.apply source target v) text) ∧
      readConstantGeohash span target v = .ok (.constant target (a.apply source target v)) := by
  obtain ⟨hsource, htarget⟩ := (Adapter.readsGeohash_iff ha).mp hreads
  cases v
  case str text =>
    have happly : a.apply source target (.str text) =
        ((Geohash.ofText? text.toList target.bits).map Value.geohash).getD .null := by
      cases a
      case strToGeohash | varcharToGeohash => rfl
      all_goals cases hreads
    cases hbits : Geohash.ofText? text.toList target.bits with
    | none =>
      rw [hbits] at happly
      refine .inl ⟨text, ⟨hsource, htarget, rfl, happly⟩, ?_⟩
      simp only [readConstantGeohash, Value.asStr?, hbits]
    | some bits =>
      rw [hbits] at happly
      refine .inr ⟨fun text hmisses => ?_, ?_⟩
      · have hnull := hmisses.null
        rw [happly] at hnull
        cases hnull
      · simp only [readConstantGeohash, Value.asStr?, hbits, happly]
        rfl
  all_goals
    refine .inr ⟨fun text hmisses => Value.noConfusion hmisses.text, ?_⟩
    cases a
    case strToGeohash | varcharToGeohash => rfl
    all_goals cases hreads

/-- Without an adapter between the types an evaluator is handed back. -/
theorem implicitCast_of_none (h : adapterFor? f.type target = none) :
    implicitCast binds span f target = .ok ⟨false, f⟩ ∧
      foldedImplicitCast binds span f target = .ok ⟨false, f⟩ := by
  have hcast : implicitCast binds span f target = .ok ⟨false, f⟩ := by
    unfold implicitCast
    rw [h]
  refine ⟨hcast, ?_⟩
  unfold foldedImplicitCast
  rw [hcast]
  rfl

/-- An adapter is put around the evaluator, but for a constant that is read as a geohash. -/
theorem implicitCast_of_some (ha : adapterFor? f.type target = some a)
    (hreads : (a.readsGeohash && f.isConstant) = false) :
    implicitCast binds span f target = .ok ⟨true, .adapt a f.type target f⟩ := by
  unfold implicitCast
  rw [ha]
  dsimp only
  rw [hreads, if_neg Bool.false_ne_true]

/-- What is no constant is left to the adapter. -/
theorem implicitCast_of_variable (ha : adapterFor? f.type target = some a)
    (hvariable : f.isConstant = false) :
    implicitCast binds span f target = .ok ⟨true, .adapt a f.type target f⟩ ∧
      foldedImplicitCast binds span f target = .ok ⟨true, .adapt a f.type target f⟩ := by
  have hcast : implicitCast binds span f target = .ok ⟨true, .adapt a f.type target f⟩ :=
    implicitCast_of_some ha (by rw [hvariable, Bool.and_false])
  refine ⟨hcast, ?_⟩
  unfold foldedImplicitCast
  rw [hcast]
  simp [Except.map, isConstant_adapt, hvariable]

theorem CastOutcome.gives_adapt (b : BindTable) (a : Adapter) (target : ColumnType)
    (h : f.Always b v) :
    CastOutcome.Gives b target (a.apply f.type target v) ⟨true, .adapt a f.type target f⟩ where
  isCast := rfl
  type := by simp only [Evaluator.type]
  always := (maps_apply b a f.type target f).always h

/-- The cast of a constant gives the value that its adapter makes, folded or not, but for a text
that misses the geohash it is to become. -/
theorem implicitCast_of_constant (ha : adapterFor? f.type target = some a)
    (hconstant : f.isConstant = true) (hbinds : f.Always binds v) (h : f.Always b v) :
    (∃ text, MissesGeohash f.type target v (a.apply f.type target v) text ∧
      implicitCast binds span f target = .error (.invalidGeohash text target.bits span) ∧
        foldedImplicitCast binds span f target =
          .error (.invalidGeohash text target.bits span)) ∨
    (∀ text, ¬MissesGeohash f.type target v (a.apply f.type target v) text) ∧
      ∃ unfolded folded, implicitCast binds span f target = .ok unfolded ∧
        foldedImplicitCast binds span f target = .ok folded ∧
          unfolded.Gives b target (a.apply f.type target v) ∧
            folded.Gives b target (a.apply f.type target v) := by
  have hfits := Adapter.fits_of_adapterFor? ha
  have hfolded : foldedImplicitCast binds span f target =
      (implicitCast binds span f target).map fun outcome =>
        if outcome.isCast && outcome.evaluator.isConstant then
          { outcome with evaluator := outcome.evaluator.fold binds }
        else outcome := rfl
  cases hreads : a.readsGeohash with
  | true =>
    have hcast : implicitCast binds span f target =
        (readConstantGeohash span target v).map (⟨true, ·⟩) := by
      have hvalue : (f.evalConstant binds).1 = v := hbinds.value .empty
      unfold implicitCast
      simp [ha, hreads, hconstant, hvalue]
    obtain ⟨text, hmisses, hread⟩ | ⟨hno, hread⟩ := readConstantGeohash_spec hfits hreads span v
    · rw [hread] at hcast
      refine .inl ⟨text, hmisses, hcast, ?_⟩
      rw [hfolded, hcast]
      rfl
    · rw [hread] at hcast
      have hgives : CastOutcome.Gives b target (a.apply f.type target v)
          ⟨true, .constant target (a.apply f.type target v)⟩ :=
        ⟨rfl, rfl, always_constant b target _⟩
      refine .inr ⟨hno, _, _, hcast, ?_, hgives, hgives⟩
      rw [hfolded, hcast]
      simp [Except.map, fold_constant]
  | false =>
    have hno : ∀ text, ¬MissesGeohash f.type target v (a.apply f.type target v) text := by
      intro text hmisses
      rw [(Adapter.readsGeohash_iff hfits).mpr ⟨hmisses.source, hmisses.target⟩] at hreads
      cases hreads
    have hcast : implicitCast binds span f target = .ok ⟨true, .adapt a f.type target f⟩ :=
      implicitCast_of_some ha (by rw [hreads, Bool.false_and])
    have hgives := CastOutcome.gives_adapt b a target h
    have hvalue := (CastOutcome.gives_adapt binds a target hbinds).always.value .empty
    refine .inr ⟨hno, _, ⟨true, (Evaluator.adapt a f.type target f).fold binds⟩, hcast, ?_, hgives,
      rfl, ?_, hgives.always.fold hvalue ?_⟩
    · rw [hfolded, hcast]
      simp [Except.map, isConstant_adapt, hconstant]
    · rw [type_fold]
      exact hgives.type
    · rw [hgives.type]
      exact Adapter.conformsTo_apply hfits v

/-- The implicit cast of a constant, folded or not, and the one of an evaluator of the same type and
value that is no constant, are either all unavailable or have the same type and always the same
value. The cast of a constant fails exactly for a text that is to become a geohash and of which the
other makes null. -/
theorem implicitCast_agrees (hconstant : f.isConstant = true) (hvariable : g.isConstant = false)
    (htype : g.type = f.type) (hbinds : f.Always binds v) (hf : f.Always b v)
    (hg : g.Always b v) (target : ColumnType) (span : Span) :
    (adapterFor? f.type target = none ∧
      implicitCast binds span f target = .ok ⟨false, f⟩ ∧
        foldedImplicitCast binds span f target = .ok ⟨false, f⟩ ∧
          implicitCast binds span g target = .ok ⟨false, g⟩ ∧
            foldedImplicitCast binds span g target = .ok ⟨false, g⟩) ∨
    ∃ w lazy, implicitCast binds span g target = .ok lazy ∧
      foldedImplicitCast binds span g target = .ok lazy ∧ lazy.Gives b target w ∧
        ((∃ text, MissesGeohash f.type target v w text ∧
            implicitCast binds span f target = .error (.invalidGeohash text target.bits span) ∧
              foldedImplicitCast binds span f target =
                .error (.invalidGeohash text target.bits span)) ∨
          (∀ text, ¬MissesGeohash f.type target v w text) ∧
            ∃ unfolded folded, implicitCast binds span f target = .ok unfolded ∧
              foldedImplicitCast binds span f target = .ok folded ∧
                unfolded.Gives b target w ∧ folded.Gives b target w) := by
  cases ha : adapterFor? f.type target with
  | none =>
    obtain ⟨hcast, hfolded⟩ := @implicitCast_of_none binds span f target ha
    obtain ⟨hcast', hfolded'⟩ := @implicitCast_of_none binds span g target (htype ▸ ha)
    exact .inl ⟨rfl, hcast, hfolded, hcast', hfolded'⟩
  | some a =>
    obtain ⟨hcast, hfolded⟩ :=
      @implicitCast_of_variable binds span g target a (htype ▸ ha) hvariable
    have hlazy := CastOutcome.gives_adapt b a target hg
    rw [htype] at hcast hfolded hlazy
    exact .inr ⟨_, _, hcast, hfolded, hlazy, implicitCast_of_constant ha hconstant hbinds hf⟩

/-- The constant text `u33d` and a variable that holds it become the same geohash of 20 bits. -/
theorem implicitCast_agrees_geohash :
    let b : BindTable := ⟨[(0, ⟨.string, .str "u33d"⟩)], []⟩
    let f : Evaluator := .constant .string (.str "u33d")
    let g : Evaluator := .slotLink 0 .string
    (f.isConstant = true ∧ g.isConstant = false ∧ g.type = f.type ∧
      f.Always b (.str "u33d") ∧ g.Always b (.str "u33d")) ∧
      ∃ lazy folded, implicitCast b ⟨2, 6⟩ g (.geohash 20) = .ok lazy ∧
        foldedImplicitCast b ⟨2, 6⟩ f (.geohash 20) = .ok folded ∧
          lazy.Gives b (.geohash 20) (.geohash 855148) ∧
            folded.Gives b (.geohash 20) (.geohash 855148) := by
  intro b f g
  have hf : f.Always b (.str "u33d") := always_constant b _ _
  have hg : g.Always b (.str "u33d") := always_of_eval fun row => by rw [Evaluator.eval]; rfl
  refine ⟨⟨rfl, rfl, rfl, hf, hg⟩, ?_⟩
  obtain ⟨hnone, -⟩ | ⟨w, lazy, hlazy, -, hgives, hcast⟩ :=
    implicitCast_agrees (f := f) (g := g) rfl rfl rfl hf hf hg (.geohash 20) ⟨2, 6⟩
  · cases hnone
  · have hw : w = .geohash 855148 := by
      have hbits : Geohash.ofText? "u33d".toList 20 = some 855148 := by decide +kernel
      have hadapt : lazy = ⟨true, .adapt .strToGeohash .string (.geohash 20) g⟩ :=
        (Except.ok.inj hlazy).symm
      have hvalue : lazy.evaluator.value b .empty =
          ((Geohash.ofText? "u33d".toList 20).map Value.geohash).getD .null := by
        rw [hadapt]
        exact (maps_apply b .strToGeohash .string (.geohash 20) g).value .empty
      rw [hgives.always.value .empty, hbits] at hvalue
      exact hvalue
    subst hw
    obtain ⟨text, hmisses, -⟩ | ⟨-, unfolded, folded, -, hfolded, -, hgives'⟩ := hcast
    · exact Value.noConfusion hmisses.null
    · exact ⟨lazy, folded, hlazy, hfolded, hgives, hgives'⟩

end SqlResolution
