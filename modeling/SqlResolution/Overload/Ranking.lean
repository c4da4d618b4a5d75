import SqlResolution.Overload.Match

/-!
# Choosing among overloads

Overloads are offered one after another. The tracker keeps the best level so far and, below exact,
the lowest score. Of equals the earlier stays, and a variadic overload does not displace one of
fixed arity. An exact offer takes the lead without noting its score.
-/
namespace SqlResolution

structure CandidateTracker where
  best : MatchLevel
  winner : Option Nat
  winnerIsVariadic : Bool
  score : Int
  deriving DecidableEq, Repr

namespace CandidateTracker

def start : CandidateTracker := ⟨.noMatch, none, true, -1⟩

/-- Considers an offer. Answers the tracker, and whether the search is over, which it is when an
exact offer takes the lead that also suits the window context. -/
def offer (t : CandidateTracker) (index : Nat) (s : CandidateScore)
    (isVariadic windowMatches : Bool) : CandidateTracker × Bool :=
  if s.level == .noMatch || s.level < t.best then (t, false)
  else if s.level == t.best && isVariadic && !t.winnerIsVariadic then (t, false)
  else if s.level == .exact then
    ({ t with best := s.level, winner := some index, winnerIsVariadic := isVariadic },
      windowMatches)
  else if s.score < t.score || t.best < s.level then
    (⟨s.level, some index, isVariadic, s.score⟩, false)
  else ({ t with best := s.level }, false)

end CandidateTracker

/-- Offers the overloads whose arity fits, in order, until the search is over. -/
def scan (binds : BindTable) (isCast inWindow : Bool) :
    Nat → List Overload → CandidateTracker → Args → CandidateTracker × Args
  | _, [], t, args => (t, args)
  | i, o :: os, t, args =>
    if o.signature.acceptsArity args.size then
      let (s, args) := o.score binds isCast inWindow args
      let (t, isOver) := t.offer i s o.signature.isVariadic (o.isWindow == inWindow)
      if isOver then (t, args) else scan binds isCast inWindow (i + 1) os t args
    else scan binds isCast inWindow (i + 1) os t args

end SqlResolution
