import Lox.CommandLine.Report
import Lox.Text.WhiteSpace

set_option autoImplicit false

namespace Lox.CommandLine

def promptMark : String :=
  ">> "

/-- The lines of an input, each with the line feed that ends it; only the last can lack one. -/
def rawLines : Bytes → List Bytes
  | [] => []
  | byte :: rest =>
    if byte = 10 then [byte] :: rawLines rest
    else
      match rawLines rest with
      | [] => [[byte]]
      | line :: lines => (byte :: line) :: lines

/-- A line without its line feed, and without a carriage return in front of that. -/
def withoutEnding (line : Bytes) : Bytes :=
  match line.reverse with
  | 10 :: 13 :: rest => rest.reverse
  | 10 :: rest => rest.reverse
  | _ => line

inductive Turn where
  | exit
  | undecodable
  | program (source : String)
deriving DecidableEq

/-- The meaning of a line that may still have its ending. White space around `exit` does not
matter. -/
def Turn.ofLine (line : Bytes) : Turn :=
  match (withoutEnding line).toText? with
  | none => .undecodable
  | some text =>
    if trimmed text.toList = "exit".toList then .exit
    else .program text

/-- Runs the lines one after the other, up to one that ends the prompt. The mark is shown before
each of them, and once more if they are used up. -/
def runLines (lines : List Bytes) (sink : Sink) : Report :=
  match sink.write (Bytes.ofText promptMark), lines with
  | (.error error, sink), _ => ⟨.ioError, sink.written, error.message ++ "\n"⟩
  | (.ok _, sink), [] => ⟨.success, sink.written, ""⟩
  | (.ok _, sink), line :: rest =>
    match Turn.ofLine line with
    | .exit => ⟨.success, sink.written, ""⟩
    | .undecodable => ⟨.ioError, sink.written, ReadError.notText.message ++ "\n"⟩
    | .program source =>
      let (outcome, sink) := run source sink
      let report := runLines rest sink
      match outcome with
      | .ok _ => report
      | .error error => { report with errors := error.text ++ "\n" ++ report.errors }

def runPrompt (input : Bytes) (sink : Sink) : Report :=
  runLines (rawLines input) sink

end Lox.CommandLine
