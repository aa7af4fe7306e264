import RespStore.Collection.Dict
import RespStore.Collection.SkipList
import RespStore.Number.Binary64.Round

/-!
# Sorted sets

Members with scores, found by member in a dictionary and by score and member in a skip list.
-/

namespace RespStore

structure SortedSet where
  scores : Dict String Binary64
  index : SkipList

namespace SortedSet

variable [Digest String]

def empty : SortedSet := ⟨.empty, .empty⟩

def size (s : SortedSet) : Nat := s.scores.size

def isEmpty (s : SortedSet) : Bool := s.scores.isEmpty

def score? (s : SortedSet) (member : String) : Option Binary64 := s.scores.get? member

/-- Adds a member or moves it to a score, and answers whether it is new. A member that already
has an equal score stays as it is. -/
def insert (s : SortedSet) (member : String) (score : Binary64) (height : Nat) :
    Bool × SortedSet :=
  match s.score? member with
  | some current =>
    if current.equal score then (false, s)
    else
      let (_, index) := s.index.delete member current
      let (_, index) := index.insert member score height
      (false, ⟨s.scores.overwrite member score, index⟩)
  | none =>
    let (_, index) := s.index.insert member score height
    (true, ⟨s.scores.push member score, index⟩)

/-- Adds `delta` to a score, zero if there is none; `none` if that gives no number. -/
def incr (s : SortedSet) (member : String) (delta : Binary64) (height : Nat) :
    Option Binary64 × SortedSet :=
  let score := (s.score? member).getD .zero + delta
  if score.isNaN then (none, s) else (some score, (s.insert member score height).2)

def remove (s : SortedSet) (member : String) : Bool × SortedSet :=
  match s.scores.remove member with
  | (some score, scores) =>
    let (found, index) := s.index.delete member score
    (found, ⟨scores, index⟩)
  | (none, _) => (false, s)

/-- The position of a member, counted from the highest score if `reverse`. -/
def rank? (s : SortedSet) (member : String) (reverse : Bool) : Option Nat :=
  (s.score? member).bind fun score =>
    (s.index.rank? member score).map fun rank => if reverse then s.size - rank else rank - 1

/-- The elements at the positions from `start` to `stop`. -/
def rangeByRank (s : SortedSet) (start stop : Nat) (reverse : Bool) :
    List (String × Binary64) :=
  if stop < start ∨ s.size ≤ stop then []
  else if reverse then
    (s.index.elementsBackFrom (s.index.byRank? (s.size - start))).take (stop - start + 1)
  else (s.index.elementsFrom (s.index.byRank? (start + 1))).take (stop - start + 1)

def rangeByScore (s : SortedSet) (r : ScoreRange) : List (String × Binary64) :=
  (s.index.elementsFrom (s.index.firstIn? r)).takeWhile fun e => r.belowMax e.2

/-- The rank of a node, counted from 1. -/
def rankOfNode? (s : SortedSet) (id : Nat) : Option Nat :=
  (s.index.element? id).bind fun e => s.index.rank? e.1 e.2

/-- How many scores are in a range, by the ranks of the first and the last of them. -/
def count (s : SortedSet) (r : ScoreRange) : Nat :=
  match (s.index.firstIn? r).bind s.rankOfNode?, (s.index.lastIn? r).bind s.rankOfNode? with
  | some first, some last => if first ≤ last then last - first + 1 else 0
  | _, _ => 0

/-- Forgets the scores of members that are no longer in the index. -/
def dropScores (scores : Dict String Binary64) (removed : List (String × Binary64)) :
    Dict String Binary64 :=
  removed.foldl (fun scores e => (scores.remove e.1).2) scores

def removeRangeByScore (s : SortedSet) (r : ScoreRange) : Nat × SortedSet :=
  let (removed, index) := s.index.deleteRangeByScore r
  (removed.length, ⟨dropScores s.scores removed, index⟩)

/-- Removes the positions from `start` to `stop`. -/
def removeRangeByRank (s : SortedSet) (start stop : Nat) : Nat × SortedSet :=
  let (removed, index) := s.index.deleteRangeByRank (start + 1) (stop + 1)
  (removed.length, ⟨dropScores s.scores removed, index⟩)

/-- The elements in ascending order. -/
def toList (s : SortedSet) : List (String × Binary64) := s.index.toList

end SortedSet

end RespStore
