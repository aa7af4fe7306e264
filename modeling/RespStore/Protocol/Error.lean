/-!
# Protocol errors

Why a byte stream is refused. The limits are those of the decoder.
-/

namespace RespStore

namespace Limits

/-- The longest inline request, and the longest stretch without a line terminator. -/
def inline : Nat := 64 * 1024

/-- The longest argument. -/
def bulk : Nat := 512 * 1024 * 1024

/-- The most arguments of one request. -/
def arguments : Nat := 1024 * 1024

end Limits

inductive ProtocolError where
  | invalidMultibulkLength
  | invalidBulkLength
  | expectedBulk (found : Char)
  | missingCrlf
  | tooBigInline
  | tooBigMultibulkCount
  | tooBigBulkCount
  | unbalancedQuotes
  | frameTooLarge (limit : Nat)
  deriving DecidableEq, Repr

def ProtocolError.message : ProtocolError → String
  | invalidMultibulkLength => "ERR Protocol error: invalid multibulk length"
  | invalidBulkLength => "ERR Protocol error: invalid bulk length"
  | expectedBulk c => "ERR Protocol error: expected '$', got '" ++ c.toString ++ "'"
  | missingCrlf => "ERR Protocol error: bulk string is not terminated by CRLF"
  | tooBigInline => "ERR Protocol error: too big inline request"
  | tooBigMultibulkCount => "ERR Protocol error: too big mbulk count string"
  | tooBigBulkCount => "ERR Protocol error: too big bulk count string"
  | unbalancedQuotes => "ERR Protocol error: unbalanced quotes in request"
  | frameTooLarge limit => s!"ERR Protocol error: request exceeds {limit} bytes"

end RespStore
