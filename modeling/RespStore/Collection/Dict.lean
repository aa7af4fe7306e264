import RespStore.Draws

/-!
# Dictionaries

A hash table in segments. The low bits of a key's digest choose the segment and the rest choose a
bucket in it. A segment's table doubles on its own when it is more than three quarters full.
-/

namespace RespStore

/-- A hash function. Nothing is asked of it, so collisions may be arbitrary. -/
class Digest (κ : Type) where
  digest : κ → UInt64

export Digest (digest)

/-- The entries that share a segment, chained per bucket, and their number. -/
structure Segment (κ ν : Type) where
  buckets : Array (List (κ × ν))
  count : Nat

structure Dict (κ ν : Type) where
  segments : Array (Segment κ ν)
  /-- How many bits of a digest choose the segment. -/
  shift : Nat

namespace Segment

variable {κ ν : Type} [Digest κ] [DecidableEq κ]

def initialBuckets : Nat := 4

/-- Random buckets tried before all of them are searched. -/
def randomProbes : Nat := 8

def empty : Segment κ ν := ⟨#[], 0⟩

/-- The bucket of a key in a table of `size` buckets. -/
def bucketIndex (shift size : Nat) (key : κ) : Nat := ((digest key).toNat >>> shift) % size

def bucket (s : Segment κ ν) (shift : Nat) (key : κ) : List (κ × ν) :=
  (s.buckets[bucketIndex shift s.buckets.size key]?).getD []

def get? (s : Segment κ ν) (shift : Nat) (key : κ) : Option ν :=
  ((s.bucket shift key).find? fun e => e.1 = key).map (·.2)

def entries (s : Segment κ ν) : List (κ × ν) := s.buckets.toList.flatten

/-- Puts an entry at the front of its chain. -/
def chain (shift : Nat) (buckets : Array (List (κ × ν))) (e : κ × ν) : Array (List (κ × ν)) :=
  buckets.modify (bucketIndex shift buckets.size e.1) (e :: ·)

/-- The same entries in a table of twice the size. -/
def grow (s : Segment κ ν) (shift : Nat) : Segment κ ν :=
  { s with
    buckets := s.entries.foldl (chain shift) (Array.replicate (2 * s.buckets.size) []) }

/-- Adds an entry for a key that has none. -/
def push (s : Segment κ ν) (shift : Nat) (key : κ) (value : ν) : Segment κ ν :=
  let buckets := if s.buckets.isEmpty then Array.replicate initialBuckets [] else s.buckets
  let s : Segment κ ν := ⟨chain shift buckets (key, value), s.count + 1⟩
  if 3 * s.buckets.size < 4 * s.count then s.grow shift else s

/-- Overwrites the value of a key that has an entry. -/
def overwrite (s : Segment κ ν) (shift : Nat) (key : κ) (value : ν) : Segment κ ν :=
  { s with
    buckets := s.buckets.modify (bucketIndex shift s.buckets.size key) fun chain =>
      chain.map fun e => if e.1 = key then (key, value) else e }

/-- Removes the entry of a key that has one. -/
def unlink (s : Segment κ ν) (shift : Nat) (key : κ) : Segment κ ν :=
  { buckets := s.buckets.modify (bucketIndex shift s.buckets.size key) fun chain =>
      chain.eraseP fun e => e.1 = key
    count := s.count - 1 }

/-- A random key of a chain. -/
def randomInChain (chain : List (κ × ν)) (g : Draws) : Option κ × Draws :=
  if chain.isEmpty then (none, g)
  else
    let (i, g) := g.below chain.length
    ((chain[i]?).map (·.1), g)

def randomInBucket (s : Segment κ ν) (i : Nat) (g : Draws) : Option κ × Draws :=
  randomInChain ((s.buckets[i]?).getD []) g

/-- A random key: a few random buckets are tried, then all of them from a random one on. -/
def randomKey (s : Segment κ ν) (g : Draws) : Option κ × Draws :=
  if s.count = 0 then (none, g)
  else
    let size := s.buckets.size
    let probe := fun (_ : Unit) (g : Draws) =>
      let (i, g) := g.below size
      s.randomInBucket i g
    match Draws.first probe (List.replicate randomProbes ()) g with
    | (some key, g) => (some key, g)
    | (none, g) =>
      let (offset, g) := g.below size
      Draws.first (fun j g => s.randomInBucket ((offset + j) % size) g) (List.range size) g

end Segment

namespace Dict

variable {κ ν α : Type} [Digest κ] [DecidableEq κ]

def defaultSegments : Nat := 16

/-- The exponent of the least power of two that is at least `n`. -/
def segmentBits (n : Nat) : Nat := if n ≤ 1 then 0 else (n - 1).log2 + 1

/-- An empty dictionary whose number of segments is rounded up to a power of two. -/
def withSegments (n : Nat) : Dict κ ν :=
  ⟨Array.replicate (1 <<< segmentBits n) Segment.empty, segmentBits n⟩

def empty : Dict κ ν := withSegments defaultSegments

instance : Inhabited (Dict κ ν) := ⟨empty⟩

def segmentIndex (d : Dict κ ν) (key : κ) : Nat := (digest key).toNat % d.segments.size

def segment (d : Dict κ ν) (key : κ) : Segment κ ν :=
  (d.segments[d.segmentIndex key]?).getD Segment.empty

/-- Changes the segment of a key by `f`, which is told the shift. -/
def modifySegment (d : Dict κ ν) (key : κ) (f : Nat → Segment κ ν → Segment κ ν) : Dict κ ν :=
  ⟨d.segments.modify (d.segmentIndex key) (f d.shift), d.shift⟩

def get? (d : Dict κ ν) (key : κ) : Option ν := (d.segment key).get? d.shift key

def contains (d : Dict κ ν) (key : κ) : Bool := (d.get? key).isSome

/-- Adds an entry for a key that has none. -/
def push (d : Dict κ ν) (key : κ) (value : ν) : Dict κ ν :=
  d.modifySegment key fun shift s => s.push shift key value

def overwrite (d : Dict κ ν) (key : κ) (value : ν) : Dict κ ν :=
  d.modifySegment key fun shift s => s.overwrite shift key value

/-- Inserts or overwrites, and hands back the value before. -/
def put (d : Dict κ ν) (key : κ) (value : ν) : Option ν × Dict κ ν :=
  match d.get? key with
  | some old => (some old, d.overwrite key value)
  | none => (none, d.push key value)

/-- Inserts unless the key has a value; answers whether it did. -/
def putIfAbsent (d : Dict κ ν) (key : κ) (value : ν) : Bool × Dict κ ν :=
  if d.contains key then (false, d) else (true, d.push key value)

/-- Overwrites a value that is there, and hands it back. -/
def replace (d : Dict κ ν) (key : κ) (value : ν) : Option ν × Dict κ ν :=
  match d.get? key with
  | some old => (some old, d.overwrite key value)
  | none => (none, d)

/-- Removes a value that `p` accepts, and hands it back. -/
def removeIf (d : Dict κ ν) (key : κ) (p : ν → Bool) : Option ν × Dict κ ν :=
  match d.get? key with
  | some old =>
    if p old then (some old, d.modifySegment key fun shift s => s.unlink shift key) else (none, d)
  | none => (none, d)

def remove (d : Dict κ ν) (key : κ) : Option ν × Dict κ ν := d.removeIf key fun _ => true

/-- Stores a slot back for a key that has no entry. -/
def restore (d : Dict κ ν) (key : κ) (slot : Option ν) : Dict κ ν :=
  match slot with
  | some value => d.push key value
  | none => d

/-- Reads and replaces the slot of a key; an empty slot removes the key. -/
def compute (d : Dict κ ν) (key : κ) (f : Option ν → α × Option ν) : α × Dict κ ν :=
  let (slot, d) := d.remove key
  let (result, slot) := f slot
  (result, d.restore key slot)

/-- Reads and replaces the slots of two distinct keys at once. -/
def computePair (d : Dict κ ν) (a b : κ) (f : Option ν → Option ν → α × Option ν × Option ν) :
    α × Dict κ ν :=
  let (x, d) := d.remove a
  let (y, d) := d.remove b
  let (result, x, y) := f x y
  (result, (d.restore a x).restore b y)

/-- Inserts or overwrites one entry after the other and counts the new keys. -/
def putAll (d : Dict κ ν) : List (κ × ν) → Nat × Dict κ ν
  | [] => (0, d)
  | (key, value) :: entries =>
    let (old, d) := d.put key value
    let (n, d) := d.putAll entries
    ((if old.isNone then 1 else 0) + n, d)

/-- Inserts one entry after the other unless its key has a value, and counts the new keys. -/
def addAll (d : Dict κ ν) : List (κ × ν) → Nat × Dict κ ν
  | [] => (0, d)
  | (key, value) :: entries =>
    let (added, d) := d.putIfAbsent key value
    let (n, d) := d.addAll entries
    ((if added then 1 else 0) + n, d)

/-- Removes one key after the other and counts those that were there. -/
def removeAll (d : Dict κ ν) : List κ → Nat × Dict κ ν
  | [] => (0, d)
  | key :: keys =>
    let (old, d) := d.remove key
    let (n, d) := d.removeAll keys
    ((if old.isSome then 1 else 0) + n, d)

def size (d : Dict κ ν) : Nat := d.segments.foldl (fun n s => n + s.count) 0

def isEmpty (d : Dict κ ν) : Bool := d.segments.all fun s => s.count == 0

def clear (d : Dict κ ν) : Dict κ ν := { d with segments := d.segments.map fun _ => Segment.empty }

/-- Every entry once, in no particular order. -/
def toList (d : Dict κ ν) : List (κ × ν) := d.segments.toList.flatMap Segment.entries

def keys (d : Dict κ ν) : List κ := d.toList.map (·.1)

/-- Hands every entry to `f`, one segment after the other. -/
def fold {σ : Type} (f : σ → κ → ν → σ) (init : σ) (d : Dict κ ν) : σ :=
  d.segments.foldl (fun acc s => s.entries.foldl (fun acc e => f acc e.1 e.2) acc) init

/-- A random key, sought in one segment after the other from a random one on. -/
def randomKey (d : Dict κ ν) (g : Draws) : Option κ × Draws :=
  let size := d.segments.size
  let (start, g) := g.below size
  Draws.first (fun i g => ((d.segments[(start + i) % size]?).getD Segment.empty).randomKey g)
    (List.range size) g

/-- The entries between braces, as `write` shows each key and value. -/
def display (writeKey : κ → String) (writeValue : ν → String) (d : Dict κ ν) : String :=
  let shown := d.toList.map fun e => writeKey e.1 ++ ": " ++ writeValue e.2
  "\x7b" ++ ", ".intercalate shown ++ "\x7d"

end Dict

end RespStore
