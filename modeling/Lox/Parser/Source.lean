import Lox.Parser.Basic
import Lox.Token.Stream

set_option autoImplicit false

namespace Lox

/-- Reads a source text as one expression. Text that is no token is skipped, so that all faults are
found: the diagnostics are those of the scan, and after them that of the syntax. -/
def parseSource (source : String) : Except Diagnostics Expr :=
  let stream := TokenStream.ofSource source
  let scanFaults := stream.errors.map ScanError.diagnostic
  match (Parser.ofTokens stream.tokens).parse.1 with
  | .ok e => if scanFaults.isEmpty then .ok e else .error scanFaults
  | .error e => .error (scanFaults ++ [e.diagnostic])

end Lox
