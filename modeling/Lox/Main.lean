import Lox.CommandLine.Command

set_option autoImplicit false

namespace Lox.CommandLine

/-- The reason for a failed read, as far as it is one of those that the command knows. The code of
a system error can come with its sign turned over. -/
def ReadError.ofSystem? : IO.Error → Option ReadError
  | .noFileOrDirectory _ _ _ => some .notFound
  | .inappropriateType _ code _ =>
    match min code (0 - code) with
    | 20 => some .notDirectory
    | 21 => some .isDirectory
    | _ => none
  | _ => none

def readFile (name : String) : IO (Except ReadError Bytes) := do
  try
    return .ok (← IO.FS.readBinFile name).data.toList
  catch error =>
    match ReadError.ofSystem? error with
    | some reason => return .error reason
    | none => throw error

def emit (bytes : Bytes) : IO Unit := do
  let output ← IO.getStdout
  output.write ⟨bytes.toArray⟩
  output.flush

def explain : IO.Error → String
  | .resourceExhausted _ 28 _ => WriteError.deviceFull.message
  | error => toString error

def present (report : Report) : IO UInt32 := do
  emit report.output
  IO.eprint report.errors
  return UInt32.ofNat report.status.code

/-- Reads up to the next line feed or the end of the input. -/
partial def readLine (input : IO.FS.Stream) (passed : Bytes) : IO Bytes := do
  let chunk ← input.read 1
  match chunk.data.toList with
  | [] => return passed.reverse
  | byte :: _ =>
    if byte = 10 then return (byte :: passed).reverse
    else readLine input (byte :: passed)

/-- The prompt, one line at a time. -/
partial def converse (input : IO.FS.Stream) : IO UInt32 := do
  emit (Bytes.ofText promptMark)
  let line ← readLine input []
  if line.isEmpty then return 0
  match Turn.ofLine line with
  | .program source =>
    let (outcome, sink) := run source Sink.unlimited
    try emit sink.written catch error => IO.eprintln (explain error)
    if let .error error := outcome then IO.eprintln error.text
    converse input
  | _ =>
    let report := runLines [line] Sink.unlimited
    IO.eprint report.errors
    return UInt32.ofNat report.status.code

/-- Does what the arguments ask for. That help could not be shown is no failure. -/
def perform (arguments : List String) : IO UInt32 := do
  match Request.ofArguments arguments with
  | .ok .prompt => converse (← IO.getStdin)
  | .ok (.file name) => present (runFile name (← readFile name) Sink.unlimited)
  | .ok .help =>
    try emit (Bytes.ofText helpText) catch _ => return 0
    return 0
  | .error _ => present (command arguments ⟨[], []⟩ [] Sink.unlimited)

end Lox.CommandLine

def main (arguments : List String) : IO UInt32 := do
  try
    Lox.CommandLine.perform arguments
  catch error =>
    IO.eprintln (Lox.CommandLine.explain error)
    return UInt32.ofNat Lox.CommandLine.ExitStatus.ioError.code
