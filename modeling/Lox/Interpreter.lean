import Lox.Expr.Evaluation
import Lox.Parser.Source
import Lox.Sink

set_option autoImplicit false

namespace Lox

inductive RunError where
  | compile (diagnostics : Diagnostics)
  | runtime (error : RuntimeError)
  | output (error : WriteError)
deriving DecidableEq

def RunError.text : RunError → String
  | compile diagnostics => diagnostics.text
  | runtime error => error.text
  | output error => error.message

/-- The bytes that are written for a value. -/
def Value.output (v : Value) : Bytes :=
  Bytes.ofText (v.text ++ "\n")

def interpret (e : Expr) (sink : Sink) : Except RunError Unit × Sink :=
  match e.evaluate with
  | .error error => (.error (.runtime error), sink)
  | .ok value =>
    match sink.write value.output with
    | (.ok _, sink) => (.ok (), sink)
    | (.error error, sink) => (.error (.output error), sink)

/-- Reads, evaluates and writes. -/
def run (source : String) (sink : Sink) : Except RunError Unit × Sink :=
  match parseSource source with
  | .error diagnostics => (.error (.compile diagnostics), sink)
  | .ok e => interpret e sink

/-- Runs programs one after the other: the outcome of each, and the sink after it. -/
def session : List String → Sink → List (Except RunError Unit × Sink)
  | [], _ => []
  | source :: sources, sink =>
    let step := run source sink
    step :: session sources step.2

end Lox
