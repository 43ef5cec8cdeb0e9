import Lox.Text.ControlSequence
import Lox.Text.Similarity

set_option autoImplicit false

namespace Lox.CommandLine

inductive Request where
  | help
  | prompt
  | file (name : String)
deriving DecidableEq

inductive UsageError where
  | unknownLetter (letter : Char)
  /-- There is no long option of this name; whether a file name came before it. -/
  | unknownOption (name : String) (fileGiven : Bool)
  | unexpectedValue (value : String)
  | extraArgument (argument : String)
  | missingName
deriving DecidableEq

/-- How to call the command, given whether help was meant and whether a file name is present. -/
def usageLine (helpMeant fileGiven : Bool) : String :=
  "Usage: lox" ++ (if helpMeant then " --help" else "") ++
    (if fileGiven then " <FILE>" else " [FILE]") ++ "\n"

def helpHint : String :=
  "\nFor more information, try '--help'.\n"

def helpText : String :=
  "Evaluates a single expression from a file, or runs an interactive prompt\n\n" ++
    usageLine false false ++ "\nArguments:\n  [FILE]  \n\nOptions:\n  -h, --help  Print help\n"

/-- The first line about an argument that has no place, and the empty line behind it. -/
def unexpectedArgument (argument : String) : String :=
  "error: unexpected argument '" ++ argument ++ "' found\n\n"

def separatorTip (option : String) : String :=
  "  tip: to pass '" ++ option ++ "' as a value, use '-- " ++ option ++ "'\n\n"

def helpTip : String :=
  "  tip: a similar argument exists: '--help'\n\n"

/-- What is printed about an error. Of the arguments it holds what a terminal shows of them. -/
def UsageError.text : UsageError → String
  | unknownLetter letter =>
    let option := visible (String.ofList ['-', letter])
    unexpectedArgument option ++ separatorTip option ++ usageLine false false ++ helpHint
  | unknownOption name fileGiven =>
    let option := visible ("--" ++ name)
    let helpMeant := similar name.toList "help".toList
    unexpectedArgument option ++ (if helpMeant then helpTip else separatorTip option) ++
      usageLine helpMeant fileGiven ++ helpHint
  | unexpectedValue value =>
    "error: unexpected value '" ++ visible value ++
      "' for '--help' found; no more were expected\n\n" ++ usageLine true false ++ helpHint
  | extraArgument argument =>
    unexpectedArgument (visible argument) ++ usageLine false false ++ helpHint
  | missingName => "error: a value is required for '[FILE]' but none was supplied\n" ++ helpHint

/-- What a single argument is, as long as no `--` has been met. -/
inductive Argument where
  | separator
  | helpOption
  | helpValue (value : String)
  | unknownLetter (letter : Char)
  | unknownOption (name : String)
  | name (text : String)
deriving DecidableEq

/-- A long option, without its hyphens: a name, and a value behind the first equals sign. -/
def Argument.ofLongOption (option : List Char) : Argument :=
  let name := String.ofList (option.takeWhile (· ≠ '='))
  if name = "help" then
    match option.dropWhile (· ≠ '=') with
    | [] => .helpOption
    | _ :: value => .helpValue (String.ofList value)
  else .unknownOption name

/-- The meaning of an argument. A lone hyphen is a name; after one hyphen each letter is an option
of its own, and the first one decides. -/
def Argument.ofText (text : String) : Argument :=
  match text.toList with
  | ['-', '-'] => .separator
  | '-' :: '-' :: option => .ofLongOption option
  | '-' :: 'h' :: _ => .helpOption
  | '-' :: letter :: _ => .unknownLetter letter
  | _ => .name text

/-- A file name must not be empty. It is looked at when all arguments are known, or when help is
asked for behind it. -/
def checked (file : Option String) (request : Request) : Except UsageError Request :=
  if file = some "" then .error .missingName else .ok request

def conclusion (file : Option String) : Except UsageError Request :=
  match file with
  | none => .ok .prompt
  | some name => checked file (.file name)

def readNames : Option String → List String → Except UsageError Request
  | file, [] => conclusion file
  | none, name :: rest => readNames (some name) rest
  | some _, extra :: _ => .error (.extraArgument extra)

/-- Reads arguments from left to right; the first fault counts, and help is given when its option is
met. -/
def readArguments : Option String → List String → Except UsageError Request
  | file, [] => conclusion file
  | file, text :: rest =>
    match Argument.ofText text, file with
    | .separator, _ => readNames file rest
    | .helpOption, _ => checked file .help
    | .helpValue value, _ => .error (.unexpectedValue value)
    | .unknownLetter letter, _ => .error (.unknownLetter letter)
    | .unknownOption name, _ => .error (.unknownOption name file.isSome)
    | .name name, none => readArguments (some name) rest
    | .name name, some _ => .error (.extraArgument name)

def Request.ofArguments (arguments : List String) : Except UsageError Request :=
  readArguments none arguments

end Lox.CommandLine
