import SqlResolution.Args
import SqlResolution.Evaluator.Eval
import SqlResolution.Overload.Catalog
import SqlResolution.Overload.Conversion

/-!
# Matching arguments with an overload

Each fixed parameter is compared with its argument, and the outcomes make a level and a score. Only
fixed parameters count, and a lower score is better. A constant string that meets a CHAR parameter
is evaluated, so matching answers the arguments as they are afterwards.
-/
namespace SqlResolution

/-- How well an overload fits, the worst first. -/
inductive MatchLevel where
  | noMatch
  /-- Some argument is coerced and none matches exactly. -/
  | fuzzy
  /-- Some arguments match exactly and some are coerced. -/
  | mixed
  /-- Every argument matches exactly. -/
  | exact
  deriving DecidableEq, Repr, Inhabited

namespace MatchLevel

def rank : MatchLevel → Nat
  | noMatch => 0
  | fuzzy => 1
  | mixed => 2
  | exact => 3

instance : LT MatchLevel := ⟨fun a b => a.rank < b.rank⟩

instance (a b : MatchLevel) : Decidable (a < b) := inferInstanceAs (Decidable (a.rank < b.rank))

/-- The level after an argument that matches exactly. -/
def mergeExact : MatchLevel → MatchLevel
  | noMatch => exact
  | fuzzy => mixed
  | level => level

/-- The level after an argument that is coerced. A NULL that comes first counts half. -/
def mergeCoerced (isNull : Bool) : MatchLevel → MatchLevel
  | noMatch => if isNull then mixed else fuzzy
  | exact => mixed
  | level => level

end MatchLevel

structure CandidateScore where
  level : MatchLevel
  /-- The sum of the distances, lower for a window function in a window clause. -/
  score : Int
  deriving DecidableEq, Repr

def CandidateScore.noMatch : CandidateScore := ⟨.noMatch, 0⟩

/-- How one argument meets its parameter. -/
inductive ArgumentMatch where
  | exact
  | coerced (distance : Nat) (isNull : Bool)
  | none
  deriving DecidableEq, Repr

/-- What a window function gains inside a window clause. -/
def windowBonus : Int := 20

namespace Parameter

/-- Whether a constant CHAR takes the place of a STRING. -/
def takesCharAsString (p : Parameter) (charFitsString : Bool) (e : Evaluator) : Bool :=
  e.type.tag == .char && p.tag == .string && charFitsString && e.isConstant &&
    !e.traits.typeConstant

/-- Whether the argument needs no coercion, for types that are not arrays. -/
def matchesExactly (p : Parameter) (charFitsString : Bool) (e : Evaluator) : Bool :=
  p.tag == e.type.tag || p.takesCharAsString charFitsString e ||
    (p.tag == .geoHash && e.type.isGeohash)

/-- The distance from the argument to the parameter. A string that is a CHAR must be short enough,
and costs twice as much where only its value would tell. -/
def coercionDistance (p : Parameter) (charFitsString : Bool) (binds : BindTable)
    (e : Evaluator) : Nat × Evaluator :=
  let distance := e.type.tag.distance p.tag
  if e.type.tag == .string && p.tag == .char then
    if e.isConstant then
      let (v, e) := e.evalConstant binds
      let isLong := (v.asStr?.map fun s => decide (1 < s.length)).getD false
      (if isLong then noCoercion else distance, e)
    else (distance * 2, e)
  else if e.type.tag == .char && p.tag == .string && !charFitsString then (noCoercion, e)
  else (distance, e)

/-- Matches an argument with its parameter. The target of a cast is taken as it is written. -/
def matchArgument (p : Parameter) (charFitsString isCastTarget : Bool) (binds : BindTable)
    (e : Evaluator) : ArgumentMatch × Evaluator :=
  let isArray := e.type.isArray
  let isStringArray := e.type.tag == .arrayString
  if p.constant && !e.isConstant then (.none, e)
  else if p.isArray != isArray || (p.tag == .arrayString) != isStringArray then (.none, e)
  else if isStringArray then (.exact, e)
  else if isArray then (if e.type.element == p.tag then .exact else .none, e)
  else if p.matchesExactly charFitsString e then (.exact, e)
  else if isCastTarget then (.none, e)
  else
    let (distance, e) := p.coercionDistance charFitsString binds e
    if distance != noCoercion || e.isUndefined then
      (.coerced distance (e.type.tag == .null), e)
    else (.none, e)

end Parameter

namespace Overload

/-- Matches parameters with arguments from left to right, until one does not match. Answers the
level and score, and the arguments afterwards. -/
def matchAll (charFitsString isCast : Bool) (binds : BindTable) :
    Nat → List Parameter → List Evaluator → CandidateScore →
      Option CandidateScore × List Evaluator
  | _, [], es, s => (some s, es)
  | _, _ :: _, [], _ => (none, [])
  | i, p :: ps, e :: es, s =>
    let (outcome, e) := p.matchArgument charFitsString (isCast && i == 1) binds e
    match outcome with
    | .none => (none, e :: es)
    | .exact =>
      let (result, es) :=
        matchAll charFitsString isCast binds (i + 1) ps es ⟨s.level.mergeExact, s.score⟩
      (result, e :: es)
    | .coerced distance isNull =>
      let (result, es) :=
        matchAll charFitsString isCast binds (i + 1) ps es
          ⟨s.level.mergeCoerced isNull, s.score + distance⟩
      (result, e :: es)

/-- A window function outside a window clause, or another inside one, fits only loosely. -/
def adjustForWindow (isWindow inWindow : Bool) (s : CandidateScore) : CandidateScore :=
  if inWindow != isWindow then { s with level := .fuzzy }
  else if isWindow then { s with score := s.score - windowBonus }
  else s

/-- Scores an overload whose arity fits. -/
def score (o : Overload) (binds : BindTable) (isCast inWindow : Bool) (args : Args) :
    CandidateScore × Args :=
  let start : MatchLevel := if o.signature.fixedCount == 0 then .exact else .noMatch
  let (result, evaluators) :=
    matchAll o.factory.charFitsString isCast binds 0 o.signature.parameters args.evaluators
      ⟨start, 0⟩
  ((result.map (adjustForWindow o.isWindow inWindow)).getD .noMatch, { args with evaluators })

end Overload
end SqlResolution
