import RespStore.Bytes

/-!
# Linked lists

A doubly linked list of payloads whose nodes live in numbered slots. A freed slot goes on a stack
and is the first to be handed out again, so a slot number names a node until that is removed.
-/

namespace RespStore

structure ListNode where
  value : Bytes
  prev : Option Nat
  next : Option Nat
  deriving DecidableEq, Repr, Inhabited

structure LinkedList where
  slots : Array (Option ListNode)
  free : List Nat
  head : Option Nat
  tail : Option Nat
  size : Nat
  deriving DecidableEq, Repr

namespace LinkedList

def empty : LinkedList := ⟨#[], [], none, none, 0⟩

instance : Inhabited LinkedList := ⟨empty⟩

def isEmpty (l : LinkedList) : Bool := l.size == 0

def node? (l : LinkedList) (id : Nat) : Option ListNode := l.slots[id]?.join

def get? (l : LinkedList) (id : Nat) : Option Bytes := (l.node? id).map (·.value)

def next? (l : LinkedList) (id : Nat) : Option Nat := (l.node? id).bind (·.next)

def prev? (l : LinkedList) (id : Nat) : Option Nat := (l.node? id).bind (·.prev)

/-- Changes the node in a slot that is in use. -/
def modifyNode (l : LinkedList) (id : Nat) (f : ListNode → ListNode) : LinkedList :=
  { l with slots := l.slots.modify id (Option.map f) }

/-- Makes `next` follow whatever `prev` stands for: a node, or the front of the list. -/
def linkNext (l : LinkedList) (prev next : Option Nat) : LinkedList :=
  match prev with
  | some p => l.modifyNode p fun n => { n with next := next }
  | none => { l with head := next }

/-- Makes `prev` precede whatever `next` stands for: a node, or the back of the list. -/
def linkPrev (l : LinkedList) (next prev : Option Nat) : LinkedList :=
  match next with
  | some n => l.modifyNode n fun m => { m with prev := prev }
  | none => { l with tail := prev }

/-- Puts a node into the slot freed last, or into a new one. -/
def alloc (l : LinkedList) (n : ListNode) : Nat × LinkedList :=
  match l.free with
  | id :: free => (id, { l with slots := l.slots.setIfInBounds id (some n), free := free })
  | [] => (l.slots.size, { l with slots := l.slots.push (some n) })

/-- Inserts between two neighbours, where `none` stands for an end of the list. -/
def insertBetween (l : LinkedList) (prev next : Option Nat) (value : Bytes) : Nat × LinkedList :=
  let (id, l) := l.alloc ⟨value, prev, next⟩
  let l := (l.linkNext prev (some id)).linkPrev next (some id)
  (id, { l with size := l.size + 1 })

def pushFront (l : LinkedList) (value : Bytes) : Nat × LinkedList :=
  l.insertBetween none l.head value

def pushBack (l : LinkedList) (value : Bytes) : Nat × LinkedList :=
  l.insertBetween l.tail none value

def insertBefore? (l : LinkedList) (pivot : Nat) (value : Bytes) : Option (Nat × LinkedList) :=
  (l.node? pivot).map fun n => l.insertBetween n.prev (some pivot) value

def insertAfter? (l : LinkedList) (pivot : Nat) (value : Bytes) : Option (Nat × LinkedList) :=
  (l.node? pivot).map fun n => l.insertBetween (some pivot) n.next value

/-- Replaces a value and hands back the one before. -/
def set (l : LinkedList) (id : Nat) (value : Bytes) : Option Bytes × LinkedList :=
  (l.get? id, l.modifyNode id fun n => { n with value := value })

def remove (l : LinkedList) (id : Nat) : Option Bytes × LinkedList :=
  match l.node? id with
  | none => (none, l)
  | some n =>
    let l := { l with slots := l.slots.setIfInBounds id none }
    let l := (l.linkNext n.prev n.next).linkPrev n.next n.prev
    (some n.value, { l with free := id :: l.free, size := l.size - 1 })

def popFront (l : LinkedList) : Option Bytes × LinkedList :=
  match l.head with
  | some id => l.remove id
  | none => (none, l)

def popBack (l : LinkedList) : Option Bytes × LinkedList :=
  match l.tail with
  | some id => l.remove id
  | none => (none, l)

/-- Moves the last value to the front. -/
def rotate (l : LinkedList) : LinkedList :=
  if l.size < 2 then l
  else match l.popBack with
    | (some value, l) => (l.pushFront value).2
    | (none, l) => l

/-- The slots met in at most `fuel` steps from `id` on. -/
def walk (step : Nat → Option Nat) : Nat → Option Nat → List Nat
  | 0, _ => []
  | _, none => []
  | fuel + 1, some id => id :: walk step fuel (step id)

/-- The slots in use, front to back. -/
def ids (l : LinkedList) : List Nat := walk l.next? l.size l.head

/-- The slots in use, back to front. -/
def idsRev (l : LinkedList) : List Nat := walk l.prev? l.size l.tail

def toList (l : LinkedList) : List Bytes := l.ids.filterMap l.get?

def toListRev (l : LinkedList) : List Bytes := l.idsRev.filterMap l.get?

def ofList (values : List Bytes) : LinkedList := values.foldl (fun l v => (l.pushBack v).2) empty

/-- The first node that holds `value`. -/
def find? (l : LinkedList) (value : Bytes) : Option Nat :=
  l.ids.find? fun id => l.get? id == some value

/-- Goes `steps` nodes on from `id`, to the back or to the front, and removes those that hold
`value`, at most `limit` of them. -/
def removeFrom (value : Bytes) (backward : Bool) : Nat → Nat → Option Nat → LinkedList →
    Nat × LinkedList
  | 0, _, _, l => (0, l)
  | _, 0, _, l => (0, l)
  | _, _, none, l => (0, l)
  | steps + 1, limit + 1, some id, l =>
    let following := if backward then l.prev? id else l.next? id
    if l.get? id = some value then
      let (n, l) := removeFrom value backward steps limit following (l.remove id).2
      (n + 1, l)
    else removeFrom value backward steps (limit + 1) following l

/-- Removes the first occurrences of a value, or with a negative count the last ones, or with a
count of zero all of them; answers how many there were. -/
def removeValues (l : LinkedList) (value : Bytes) (count : Int) : Nat × LinkedList :=
  let limit := if count = 0 then l.size else count.natAbs
  removeFrom value (count < 0) l.size limit (if count < 0 then l.tail else l.head) l

/-- Goes `n` steps on from `id`. -/
def advance (step : Nat → Option Nat) : Nat → Option Nat → Option Nat
  | 0, id => id
  | n + 1, id => id.bind fun id => advance step n (step id)

/-- The node at a position; negative positions count from the back, the last being -1. The walk
starts from the nearer end. -/
def index? (l : LinkedList) (i : Int) : Option Nat :=
  let i := if i < 0 then l.size + i else i
  if i < 0 ∨ l.size ≤ i then none
  else if i ≤ l.size / 2 then advance l.next? i.toNat l.head
  else advance l.prev? (l.size - 1 - i).toNat l.tail

/-- What is left of a traversal that takes values from both ends. -/
structure Cursor where
  front : Option Nat
  back : Option Nat
  remaining : Nat
  deriving DecidableEq, Repr

def cursor (l : LinkedList) : Cursor := ⟨l.head, l.tail, l.size⟩

def Cursor.next (c : Cursor) (l : LinkedList) : Option Bytes × Cursor :=
  match c.remaining, c.front.bind l.node? with
  | n + 1, some node => (some node.value, { c with front := node.next, remaining := n })
  | _, _ => (none, c)

def Cursor.nextBack (c : Cursor) (l : LinkedList) : Option Bytes × Cursor :=
  match c.remaining, c.back.bind l.node? with
  | n + 1, some node => (some node.value, { c with back := node.prev, remaining := n })
  | _, _ => (none, c)

end LinkedList

end RespStore
