import RespStore.Command.Error
import RespStore.Number.Binary64.Read
import RespStore.Collection.ScoreRange
import RespStore.Text.LetterCase

/-!
# Reading arguments

Each reader takes one argument off the front of those that are left. Simple and bulk strings
count as text; an integer frame counts as an integer.
-/

namespace RespStore

abbrev ArgReader := StateT (List Frame) (Except CommandError)

namespace ArgReader

def fail {α : Type} (e : CommandError) : ArgReader α := throw e

/-- How many arguments are left. -/
def remaining : ArgReader Nat := return (← get).length

def hasNext : ArgReader Bool := return !(← get).isEmpty

def next : ArgReader Frame := do
  match ← get with
  | [] => fail .endOfArguments
  | f :: rest =>
    set rest
    return f

def text : ArgReader String := do
  match ← next with
  | .simple s => return s
  | .bulk bs =>
    match Utf8.decode? bs with
    | some s => return s
    | none => fail .invalidUtf8
  | f => fail (.unexpectedFrame "simple or bulk string" f)

def bytes : ArgReader Bytes := do
  match ← next with
  | .simple s => return Utf8.encode s
  | .bulk bs => return bs
  | f => fail (.unexpectedFrame "simple or bulk string" f)

/-- The name of an option, in lower case. -/
def keyword : ArgReader String := return LetterCase.lower (← text)

def integer : ArgReader Int64 := do
  match ← next with
  | .integer n => return n
  | .simple s =>
    match readInt64? (Utf8.encode s) with
    | some n => return n
    | none => fail .notInteger
  | .bulk bs =>
    match readInt64? bs with
    | some n => return n
    | none => fail .notInteger
  | f => fail (.unexpectedFrame "integer" f)

/-- A number that is not negative. -/
def natural : ArgReader Nat := do
  let n ← integer
  if 0 ≤ n then return n.toInt.toNat else fail .notPositive

/-- A double; whatever is wrong with the argument, it is no float. -/
def float : ArgReader Binary64 := do
  match ← get with
  | .simple s :: rest =>
    set rest
    match Binary64.readNumber? (Utf8.encode s) with
    | some x => return x
    | none => fail .notFloat
  | .bulk bs :: rest =>
    set rest
    match Binary64.readNumber? bs with
    | some x => return x
    | none => fail .notFloat
  | _ => fail .notFloat

/-- Runs a reader once for each of `n` arguments or groups of arguments. -/
def times {α : Type} (reader : ArgReader α) : Nat → ArgReader (List α)
  | 0 => return []
  | n + 1 => return (← reader) :: (← times reader n)

/-- Every argument that is left. -/
def texts : ArgReader (List String) := do times text (← remaining)

/-- Every argument that is left, two by two; `name` is the command that has an odd one out. -/
def pairs {α β : Type} (name : String) (first : ArgReader α) (second : ArgReader β) :
    ArgReader (List (α × β)) := do
  let n ← remaining
  if n % 2 = 1 then fail (.wrongArity name)
  else times (return (← first, ← second)) (n / 2)

/-- Fails if arguments are left over. -/
def finish : ArgReader Unit := do if ← hasNext then fail .badOptions

/-- An argument that may be missing, as the last one. -/
def optional {α : Type} (reader : ArgReader α) : ArgReader (Option α) := do
  let found ← if ← hasNext then some <$> reader else pure none
  finish
  return found

/-- A bound of a score range, exclusive after an opening parenthesis. -/
def bound? (s : String) : Option (Binary64 × Bool) :=
  match Utf8.encode s with
  | 40 :: rest => (Binary64.readNumber? rest).map (·, true)
  | bs => (Binary64.readNumber? bs).map (·, false)

def scoreRange : ArgReader ScoreRange := do
  let min ← text
  let max ← text
  match bound? min, bound? max with
  | some (min, minExclusive), some (max, maxExclusive) =>
    return ⟨min, max, minExclusive, maxExclusive⟩
  | _, _ => fail .badScoreRange

/-- Whether two texts differ at most in the case of ASCII letters. -/
def sameLetters (s t : String) : Bool :=
  Bytes.lower (Utf8.encode s) == Bytes.lower (Utf8.encode t)

end ArgReader

end RespStore
