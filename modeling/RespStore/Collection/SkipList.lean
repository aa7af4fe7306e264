import RespStore.Collection.ScoreRange

/-!
# Skip lists

Elements in the order of score and member, with their ranks. Nodes live in numbered slots, of
which slot 0 is the header. A node of height `h` has a link on each of the levels below `h`; a
link skips the lower nodes in between and records by its span how many steps of level 0 it takes,
so that one descent from the top finds a place and its rank. The heights come from outside.
-/

namespace RespStore

structure SkipLink where
  forward : Option Nat
  span : Nat
  deriving DecidableEq, Repr, Inhabited

structure SkipNode where
  member : String
  score : Binary64
  backward : Option Nat
  links : Array SkipLink
  deriving DecidableEq, Repr, Inhabited

namespace SkipNode

/-- Sorts strictly before `(score, member)`. -/
def precedes (n : SkipNode) (score : Binary64) (member : String) : Bool :=
  n.score.lt score || (n.score.equal score && decide (n.member < member))

def isAt (n : SkipNode) (score : Binary64) (member : String) : Bool :=
  n.score.equal score && n.member == member

def element (n : SkipNode) : String × Binary64 := (n.member, n.score)

end SkipNode

structure SkipList where
  slots : Array (Option SkipNode)
  free : List Nat
  tail : Option Nat
  size : Nat
  /-- How many levels are in use. -/
  level : Nat
  deriving DecidableEq, Repr

namespace SkipList

def maxLevel : Nat := 32

def header : Nat := 0

def empty : SkipList :=
  ⟨#[some ⟨"", .zero, none, Array.replicate maxLevel ⟨none, 0⟩⟩], [], none, 0, 1⟩

instance : Inhabited SkipList := ⟨empty⟩

def isEmpty (l : SkipList) : Bool := l.size == 0

def node? (l : SkipList) (id : Nat) : Option SkipNode := l.slots[id]?.join

def element? (l : SkipList) (id : Nat) : Option (String × Binary64) :=
  (l.node? id).map SkipNode.element

def link (l : SkipList) (id i : Nat) : SkipLink :=
  ((l.node? id).bind fun n => n.links[i]?).getD ⟨none, 0⟩

def forward? (l : SkipList) (id i : Nat) : Option Nat := (l.link id i).forward

def modifyNode (l : SkipList) (id : Nat) (f : SkipNode → SkipNode) : SkipList :=
  { l with slots := l.slots.modify id (Option.map f) }

def modifyLink (l : SkipList) (id i : Nat) (f : SkipLink → SkipLink) : SkipList :=
  l.modifyNode id fun n => { n with links := n.links.modify i f }

def first? (l : SkipList) : Option Nat := l.forward? header 0

def last? (l : SkipList) : Option Nat := l.tail

def next? (l : SkipList) (id : Nat) : Option Nat := l.forward? id 0

def prev? (l : SkipList) (id : Nat) : Option Nat := (l.node? id).bind (·.backward)

/-! ## Descending

A descent moves on each level past the nodes that `ahead` accepts, which is asked about a node
and its rank. -/

/-- Moves along level `i` from the node `x` of rank `rank`. -/
def slide (l : SkipList) (ahead : SkipNode → Nat → Bool) (i : Nat) :
    Nat → Nat → Nat → Nat × Nat
  | 0, x, rank => (x, rank)
  | fuel + 1, x, rank =>
    match l.forward? x i with
    | none => (x, rank)
    | some y =>
      match l.node? y with
      | none => (x, rank)
      | some n =>
        let reached := rank + (l.link x i).span
        if ahead n reached then slide l ahead i fuel y reached else (x, rank)

/-- The nodes where a descent leaves the lowest `i` levels, level 0 first, with their ranks. -/
def descend (l : SkipList) (ahead : SkipNode → Nat → Bool) : Nat → Nat → Nat → List (Nat × Nat)
  | 0, _, _ => []
  | i + 1, x, rank =>
    let (x, rank) := l.slide ahead i l.size x rank
    descend l ahead i x rank ++ [(x, rank)]

def path (l : SkipList) (ahead : SkipNode → Nat → Bool) : List (Nat × Nat) :=
  l.descend ahead l.level header 0

/-- The node where a descent leaves level `i`, with its rank; the header above the levels in
use. -/
def leftAt (path : List (Nat × Nat)) (i : Nat) : Nat × Nat := path.getD i (header, 0)

/-! ## Inserting and deleting -/

/-- Takes levels into use. Above all nodes a link of the header spans the whole list. -/
def raise (l : SkipList) (level : Nat) : SkipList :=
  (List.range' l.level (level - l.level)).foldl
    (fun l i => l.modifyLink header i fun k => { k with span := l.size })
    { l with level := max l.level level }

def alloc (l : SkipList) (n : SkipNode) : Nat × SkipList :=
  match l.free with
  | id :: free => (id, { l with slots := l.slots.setIfInBounds id (some n), free := free })
  | [] => (l.slots.size, { l with slots := l.slots.push (some n) })

/-- Threads node `id` into level `i` after node `x`, which is `distance` steps before it. -/
def thread (l : SkipList) (id x i distance : Nat) : SkipList :=
  let k := l.link x i
  (l.modifyLink id i fun _ => ⟨k.forward, k.span - distance⟩).modifyLink x i
    fun _ => ⟨some id, distance + 1⟩

/-- Makes `prev` precede whatever `next` stands for: a node, or the end of the list. -/
def linkBackward (l : SkipList) (next prev : Option Nat) : SkipList :=
  match next with
  | some n => l.modifyNode n fun m => { m with backward := prev }
  | none => { l with tail := prev }

/-- Inserts a member that is not there. The height is taken to be at least 1 and at most 32. -/
def insert (l : SkipList) (member : String) (score : Binary64) (height : Nat) :
    Nat × SkipList :=
  let height := max 1 (min height maxLevel)
  let path := l.path fun n _ => n.precedes score member
  let l := l.raise height
  let (id, l) := l.alloc ⟨member, score, none, Array.replicate height ⟨none, 0⟩⟩
  let (prev, rank) := leftAt path 0
  let l := (List.range l.level).foldl
    (fun l i =>
      let (x, r) := leftAt path i
      if i < height then l.thread id x i (rank - r)
      else l.modifyLink x i fun k => { k with span := k.span + 1 })
    l
  let l := l.modifyNode id fun n => { n with backward := if prev = header then none else some prev }
  let l := l.linkBackward (l.next? id) (some id)
  (id, { l with size := l.size + 1 })

/-- Drops the top levels on which the header has no link, all but the lowest. -/
def lowerWith (l : SkipList) : Nat → Nat
  | 0 => 1
  | i + 1 => if i = 0 then 1 else if (l.forward? header i).isNone then l.lowerWith i else i + 1

/-- Unthreads node `id` from level `i`, where node `x` comes before it. -/
def unthread (l : SkipList) (id x i : Nat) : SkipList :=
  if l.forward? x i = some id then
    let removed := l.link id i
    l.modifyLink x i fun k => ⟨removed.forward, k.span + removed.span - 1⟩
  else l.modifyLink x i fun k => { k with span := k.span - 1 }

def deleteNode (l : SkipList) (id : Nat) (path : List (Nat × Nat)) : SkipList :=
  let l := (List.range l.level).foldl (fun l i => l.unthread id (leftAt path i).1 i) l
  let l := l.linkBackward (l.next? id) (l.prev? id)
  { l with
    slots := l.slots.setIfInBounds id none
    free := id :: l.free
    size := l.size - 1
    level := l.lowerWith l.level }

/-- Deletes the element with this member and score; answers whether it was there. -/
def delete (l : SkipList) (member : String) (score : Binary64) : Bool × SkipList :=
  let path := l.path fun n _ => n.precedes score member
  match l.next? (leftAt path 0).1 with
  | none => (false, l)
  | some id =>
    if (l.node? id).any (·.isAt score member) then (true, l.deleteNode id path) else (false, l)

/-! ## Looking up -/

/-- The rank of an element, counted from 1. The descent ends on the first level that it leaves at the
element. -/
def rank? (l : SkipList) (member : String) (score : Binary64) : Option Nat :=
  (l.path fun n _ => n.precedes score member || n.isAt score member).reverse.findSome?
    fun (x, rank) =>
      if x ≠ header ∧ (l.node? x).any (·.isAt score member) then some rank else none

/-- The node at a rank, counted from 1. The descent ends on the first level that it leaves there. -/
def byRank? (l : SkipList) (rank : Nat) : Option Nat :=
  (l.path fun _ r => decide (r ≤ rank)).reverse.findSome?
    fun (x, reached) => if x ≠ header ∧ reached = rank then some x else none

/-- Whether the range is possible and meets the span from the first to the last score. -/
def meets (l : SkipList) (r : ScoreRange) : Bool :=
  !r.isEmpty &&
    match l.tail.bind l.node?, l.first?.bind l.node? with
    | some last, some first => r.aboveMin last.score && r.belowMax first.score
    | _, _ => false

/-- The first node in a range. -/
def firstIn? (l : SkipList) (r : ScoreRange) : Option Nat :=
  if l.meets r then
    let x := (leftAt (l.path fun n _ => !r.aboveMin n.score) 0).1
    (l.next? x).filter fun id => (l.node? id).any fun n => r.belowMax n.score
  else none

/-- The last node in a range. -/
def lastIn? (l : SkipList) (r : ScoreRange) : Option Nat :=
  if l.meets r then
    let x := (leftAt (l.path fun n _ => r.belowMax n.score) 0).1
    if x ≠ header ∧ (l.node? x).any fun n => r.aboveMin n.score then some x else none
  else none

/-- The elements met in at most `fuel` steps from `id` on. -/
def walk (l : SkipList) (step : Nat → Option Nat) :
    Nat → Option Nat → List (String × Binary64)
  | 0, _ => []
  | _, none => []
  | fuel + 1, some id => (l.element? id).toList ++ walk l step fuel (step id)

/-- The elements from a node on, in ascending order. -/
def elementsFrom (l : SkipList) (start : Option Nat) : List (String × Binary64) :=
  l.walk l.next? l.size start

/-- The elements from a node on, in descending order. -/
def elementsBackFrom (l : SkipList) (start : Option Nat) : List (String × Binary64) :=
  l.walk l.prev? l.size start

def toList (l : SkipList) : List (String × Binary64) := l.elementsFrom l.first?

/-! ## Deleting ranges -/

/-- Deletes the node that `choose` finds, again and again, at most `fuel` times. -/
def deleteAll (choose : SkipList → Option Nat) :
    Nat → SkipList → List (String × Binary64) × SkipList
  | 0, l => ([], l)
  | fuel + 1, l =>
    match (choose l).bind l.element? with
    | none => ([], l)
    | some (member, score) =>
      let (removed, l) := deleteAll choose fuel (l.delete member score).2
      ((member, score) :: removed, l)

def deleteRangeByScore (l : SkipList) (r : ScoreRange) : List (String × Binary64) × SkipList :=
  deleteAll (·.firstIn? r) l.size l

/-- Deletes the ranks from `start` to `stop`, counted from 1. -/
def deleteRangeByRank (l : SkipList) (start stop : Nat) : List (String × Binary64) × SkipList :=
  if start = 0 ∨ stop < start then ([], l)
  else deleteAll (·.byRank? start) (min (stop - start + 1) l.size) l

end SkipList

end RespStore
