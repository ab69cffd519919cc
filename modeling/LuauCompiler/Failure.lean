/-! Everything that can end a compilation, a command or a look-up early. A cause says what was wrong
with the input; only three of them carry a wording of their own. -/

namespace LuauCompiler

inductive Failure where
  /-- A part was asked for that the node or value does not have, or that is vacant. -/
  | missingPart
  /-- A position beyond the end of a list or a text. -/
  | outOfRange
  /-- A key that a table does not hold. -/
  | unknownKey
  /-- A name with no meaning, such as an import of a library that is always there. -/
  | unknownName
  /-- A value of a kind that the operation does not take. -/
  | wrongKind
  /-- A value of the right kind that the operation refuses. -/
  | badValue
  | invalidUtf8
  | malformedJson
  | missingFile
  /-- A folder where a file has to be. -/
  | isFolder
  /-- A file where a folder has to be. -/
  | notFolder
  /-- The outermost frame of a context cannot be left. -/
  | lastFrame
  /-- The source text could not be parsed. -/
  | syntaxError (text : String)
  /-- The program ends at once, with an exit code if one was given. -/
  | exit (code : Option Nat)
  deriving DecidableEq, Repr

/-- The wording of the causes that have one. -/
def Failure.message? : Failure → Option String
  | .lastFrame => some "Pop context failed. This is a last context in the stack."
  | .syntaxError text => some text
  | .exit none => some ""
  | .exit (some code) => some (toString code)
  | _ => none

end LuauCompiler
