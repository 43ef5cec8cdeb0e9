import Lox.CommandLine.Arguments
import Lox.CommandLine.Prompt

set_option autoImplicit false

namespace Lox.CommandLine

/-- Runs the command in a directory, with all of standard input and with standard output going to a
sink. -/
def command (arguments : List String) (directory : Directory) (input : Bytes) (sink : Sink) :
    Report :=
  match Request.ofArguments arguments with
  | .error error => ⟨.usage, sink.written, error.text⟩
  | .ok .help => ⟨.success, (sink.write (Bytes.ofText helpText)).2.written, ""⟩
  | .ok .prompt => runPrompt input sink
  | .ok (.file name) => runFile name (directory.read name) sink

end Lox.CommandLine
