import RespStore.Bytes

/-!
# Inline requests

A line of arguments between blanks. An argument is a bare word, a single-quoted string without
escapes, or a double-quoted string in which a backslash escapes the next byte. A closing quote is
followed by a blank or by the end of the line.
-/

namespace RespStore.Inline

/-- Where a scan stands; arguments and the current argument are kept in reverse. -/
inductive State where
  | between (args : List Bytes)
  | bare (args : List Bytes) (arg : Bytes)
  | quoted (args : List Bytes) (quote : UInt8) (arg : Bytes)
  | escaped (args : List Bytes) (arg : Bytes)
  | closed (args : List Bytes)
  deriving DecidableEq, Repr

/-- What a backslash and a byte stand for in double quotes. -/
def unescape (b : UInt8) : UInt8 :=
  if b = 110 then Ascii.lf else if b = 114 then Ascii.cr else if b = 116 then Ascii.tab else b

def step : State → UInt8 → Option State
  | .between args, b =>
    if Ascii.isBlank b then some (.between args)
    else if b = Ascii.doubleQuote ∨ b = Ascii.singleQuote then some (.quoted args b [])
    else some (.bare args [b])
  | .bare args arg, b =>
    if Ascii.isBlank b then some (.between (arg.reverse :: args)) else some (.bare args (b :: arg))
  | .quoted args quote arg, b =>
    if b = Ascii.backslash ∧ quote = Ascii.doubleQuote then some (.escaped args arg)
    else if b = quote then some (.closed (arg.reverse :: args))
    else some (.quoted args quote (b :: arg))
  | .escaped args arg, b => some (.quoted args Ascii.doubleQuote (unescape b :: arg))
  | .closed args, b => if Ascii.isBlank b then some (.between args) else none

def finish : State → Option (List Bytes)
  | .between args => some args.reverse
  | .bare args arg => some (arg.reverse :: args).reverse
  | .closed args => some args.reverse
  | .quoted _ _ _ => none
  | .escaped _ _ => none

def run (s : State) : Bytes → Option State
  | [] => some s
  | b :: rest => (step s b).bind (run · rest)

/-- The arguments of a line, or `none` where quotes do not balance. -/
def split? (line : Bytes) : Option (List Bytes) := (run (.between []) line).bind finish

end RespStore.Inline
