import RespStore.Number.Binary64.Basic

/-!
# Score ranges

An interval of scores, either bound of which may be left out of it.
-/

namespace RespStore

structure ScoreRange where
  min : Binary64
  max : Binary64
  minExclusive : Bool
  maxExclusive : Bool
  deriving DecidableEq, Repr

namespace ScoreRange

def aboveMin (r : ScoreRange) (score : Binary64) : Bool :=
  if r.minExclusive then r.min.lt score else r.min.le score

def belowMax (r : ScoreRange) (score : Binary64) : Bool :=
  if r.maxExclusive then score.lt r.max else score.le r.max

def contains (r : ScoreRange) (score : Binary64) : Bool := r.aboveMin score && r.belowMax score

/-- The bounds leave no room for any score. -/
def isEmpty (r : ScoreRange) : Bool :=
  r.max.lt r.min || (r.min.equal r.max && (r.minExclusive || r.maxExclusive))

end ScoreRange

end RespStore
