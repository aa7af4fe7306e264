import RespStore.Frame.Display

/-!
# Request errors

Why a request is not a command.
-/

namespace RespStore

inductive CommandError where
  | unexpectedFrame (expected : String) (found : Frame)
  | unknownCommand (name : String)
  | unknownSubcommand (command subcommand : String)
  | wrongArity (name : String)
  | badOptions
  | notInteger
  | notFloat
  | notPositive
  | badScoreRange
  | badExpireTime (name : String)
  | incompatibleOptions (text : String)
  | invalidUtf8
  | endOfArguments
  deriving Repr

def CommandError.message : CommandError → String
  | unexpectedFrame expected found =>
    "ERR Protocol error: expected " ++ expected ++ ", got " ++ found.display
  | unknownCommand name => "ERR unknown command '" ++ name ++ "'"
  | unknownSubcommand command subcommand =>
    "ERR unknown subcommand '" ++ subcommand ++ "'. Try " ++ command ++ " HELP."
  | wrongArity name => "ERR wrong number of arguments for '" ++ name ++ "' command"
  | badOptions => "ERR syntax error"
  | notInteger => "ERR value is not an integer or out of range"
  | notFloat => "ERR value is not a valid float"
  | notPositive => "ERR value is out of range, must be positive"
  | badScoreRange => "ERR min or max is not a float"
  | badExpireTime name => "ERR invalid expire time in '" ++ name ++ "' command"
  | incompatibleOptions text => "ERR " ++ text
  | invalidUtf8 => "ERR invalid UTF-8 string"
  | endOfArguments => "ERR unexpected end of arguments"

end RespStore
