import RespStore.Number.IntFormat

/-!
# Deadlines

Amounts of time in four units, and the deadlines that they stand for, in milliseconds since the
epoch.
-/

namespace RespStore

inductive TimeUnit where
  | seconds
  | milliseconds
  | unixSeconds
  | unixMilliseconds
  deriving DecidableEq, Repr

/-- The deadline, unless a number on the way to it does not fit the format. -/
def TimeUnit.deadline? (unit : TimeUnit) (format : IntFormat) (amount now : Int) : Option Int :=
  match unit with
  | seconds => (format.check? (amount * 1000)).bind (format.add? · now)
  | milliseconds => format.add? amount now
  | unixSeconds => format.check? (amount * 1000)
  | unixMilliseconds => some amount

end RespStore
