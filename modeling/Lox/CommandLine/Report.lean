import Lox.CommandLine.Directory
import Lox.Interpreter

set_option autoImplicit false

namespace Lox.CommandLine

inductive ExitStatus where
  | success
  /-- The arguments make no request. -/
  | usage
  /-- The source is no expression. -/
  | dataError
  /-- The expression has no value. -/
  | software
  /-- Something could not be read or written. -/
  | ioError
deriving DecidableEq

/-- The codes of `sysexits.h`. -/
def ExitStatus.code : ExitStatus → Nat
  | success => 0
  | usage => 64
  | dataError => 65
  | software => 70
  | ioError => 74

structure Report where
  status : ExitStatus
  output : Bytes
  errors : String
deriving DecidableEq

/-- The exit status of a failed run. -/
def statusOf : RunError → ExitStatus
  | .compile _ => .dataError
  | .runtime _ => .software
  | .output _ => .ioError

def decoded (contents : Except ReadError Bytes) : Except ReadError String :=
  match contents with
  | .error error => .error error
  | .ok bytes =>
    match bytes.toText? with
    | some text => .ok text
    | none => .error .notText

def runFile (name : String) (contents : Except ReadError Bytes) (sink : Sink) : Report :=
  match decoded contents with
  | .error error =>
    ⟨.ioError, sink.written,
      "Could not read " ++ name ++ "\n\nCaused by:\n    " ++ error.message ++ "\n"⟩
  | .ok source =>
    let (outcome, sink) := run source sink
    match outcome with
    | .ok _ => ⟨.success, sink.written, ""⟩
    | .error error => ⟨statusOf error, sink.written, error.text ++ "\n"⟩

end Lox.CommandLine
