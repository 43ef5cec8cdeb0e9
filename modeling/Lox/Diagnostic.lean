set_option autoImplicit false

namespace Lox

inductive Location where
  | unnamed
  | atEnd
  | atLexeme (lexeme : String)
deriving DecidableEq

instance : Inhabited Location where
  default := .unnamed

namespace Location

def text : Location → String
  | unnamed => ""
  | atEnd => " at end"
  | atLexeme lexeme => " at '" ++ lexeme ++ "'"

end Location

structure Diagnostic where
  line : Nat
  location : Location
  message : String
deriving DecidableEq

def Diagnostic.text (d : Diagnostic) : String :=
  "[line " ++ toString d.line ++ "] Error" ++ d.location.text ++ ": " ++ d.message

/-- The faults of a source text in the order in which they were found. -/
abbrev Diagnostics := List Diagnostic

/-- One report per line, without a line feed after the last. -/
def Diagnostics.text (ds : Diagnostics) : String :=
  "\n".intercalate (ds.map Diagnostic.text)

end Lox
