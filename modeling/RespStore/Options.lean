import RespStore.Server
import RespStore.Text.Quoted

/-!
# Options

The settings of a server and how they are read from a command line.
-/

namespace RespStore

structure Options where
  address : String
  port : UInt16
  logFile : String
  /-- Connections silent for this long are closed; zero keeps them for ever. -/
  idleSeconds : Nat
  server : ServerConfig

inductive OptionError where
  | unknown (name : String)
  | missingValue (name : String)
  | badValue (name value : String)
  deriving DecidableEq, Repr

def OptionError.message : OptionError → String
  | unknown name => "unknown option " ++ name
  | missingValue name => "option " ++ name ++ " needs a value"
  | badValue name value => "option " ++ name ++ " does not take the value " ++ Quoted.encode value

namespace Options

def default : Options := ⟨"127.0.0.1", 6379, "appendonly.aof", 0, .default⟩

/-- The options that take a value, each with how it sets it. -/
def setters : List (String × (Options → String → Option Options)) := [
  ("--bind", fun o s => some { o with address := s }),
  ("--port", fun o s => (number? s).bind fun n =>
    if n < UInt16.size then some { o with port := UInt16.ofNat n } else none),
  ("--databases", fun o s => (number? s).map fun n =>
    { o with server.databases := max n 1 }),
  ("--appendfilename", fun o s => some { o with logFile := s }),
  ("--appendfsync", fun o s => (policy? s).map fun p => { o with server.policy := p }),
  ("--idle-timeout", fun o s => (number? s).map fun n => { o with idleSeconds := n }),
  ("--empty-collection", fun o s => (emptyArrays? s).map fun e =>
    { o with server.emptyArrays := e }),
  ("--max-frame-size", fun o s => (number? s).map fun n => { o with server.maxFrame := n })]
where
  number? (s : String) : Option Nat := Decimal.nat? (Utf8.encode s)
  policy? : String → Option Log.SyncPolicy
    | "always" => some .always
    | "everysec" => some .everySecond
    | "no" => some .never
    | _ => none
  emptyArrays? : String → Option EmptyArrays
    | "array" => some .array
    | "error" => some .error
    | _ => none

/-- Reads the arguments of a command line onto settings. -/
def read (o : Options) : List String → Except OptionError Options
  | [] => .ok o
  | "--appendonly" :: rest => read { o with server.logging := true } rest
  | name :: rest =>
    match setters.lookup name, rest with
    | none, _ => .error (.unknown name)
    | some _, [] => .error (.missingValue name)
    | some set, value :: rest =>
      match set o value with
      | none => .error (.badValue name value)
      | some o => read o rest

end Options

end RespStore
