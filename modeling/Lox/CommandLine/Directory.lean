import Lox.Text.Utf8

set_option autoImplicit false

namespace Lox.CommandLine

inductive ReadError where
  | notFound
  | isDirectory
  /-- A part of the name in front of a slash is a file. -/
  | notDirectory
  | notText
deriving DecidableEq

def ReadError.message : ReadError → String
  | notFound => "No such file or directory (os error 2)"
  | isDirectory => "Is a directory (os error 21)"
  | notDirectory => "Not a directory (os error 20)"
  | notText => "stream did not contain valid UTF-8"

/-- A directory with everything below it: files and directories under the parts of their paths.
What lies on the way to one of them is a directory too. -/
structure Directory where
  files : List (List String × Bytes)
  directories : List (List String)

inductive Place where
  /-- The directory with the given path from the current one. -/
  | directory (path : List String)
  | file (contents : Bytes)
  /-- A directory that the current one lies in. -/
  | above
deriving DecidableEq

def nameParts (name : String) : List String :=
  (name.toList.splitOn '/').map String.ofList

namespace Directory

def ofEntries (files : List (String × Bytes)) (directories : List String) : Directory where
  files := files.map fun (name, contents) => (nameParts name, contents)
  directories := directories.map nameParts

/-- What has the given path. -/
def entry? (d : Directory) (path : List String) : Option Place :=
  match d.files.lookup path with
  | some contents => some (.file contents)
  | none =>
    if (d.directories ++ d.files.map Prod.fst).any path.isPrefixOf then some (.directory path)
    else none

/-- Follows one part of a name. Of what lies above the current directory nothing is known but that
it is a directory. -/
def follow (d : Directory) (place : Place) (part : String) : Except ReadError Place :=
  match place with
  | .file _ => .error .notDirectory
  | .above => if part = "" ∨ part = "." ∨ part = ".." then .ok .above else .error .notFound
  | .directory path =>
    if part = "" ∨ part = "." then .ok place
    else if part = ".." then .ok (if path = [] then .above else .directory path.dropLast)
    else
      match d.entry? (path ++ [part]) with
      | some place => .ok place
      | none => .error .notFound

/-- The bytes of the file with the given name. A name that starts with a slash leads out of the
current directory. -/
def read (d : Directory) (name : String) : Except ReadError Bytes :=
  let start := if name.startsWith "/" then Place.above else .directory []
  match (nameParts name).foldlM d.follow start with
  | .error error => .error error
  | .ok (.file contents) => .ok contents
  | .ok _ => .error .isDirectory

end Directory

end Lox.CommandLine
