import LuauCompiler.Diagnostic
import LuauCompiler.Failure

/-! What has gone to the two streams of a terminal, and ends of a command that print something first. -/

namespace LuauCompiler

structure Console where
  out : String
  err : String
  deriving DecidableEq, Repr

namespace Console

def empty : Console := ⟨"", ""⟩

def print (c : Console) (text : String) : Console := { c with out := c.out ++ text ++ "\n" }

def printError (c : Console) (text : String) : Console := { c with err := c.err ++ text }

def warn (c : Console) (message : String) : Console := c.printError (Diagnostic.warning message)

def note (c : Console) (message : String) : Console := c.printError (Diagnostic.note message)

end Console

structure Stop where
  cause : Failure
  printed : Console
  deriving DecidableEq, Repr

namespace Stop

def silent (cause : Failure) : Stop := ⟨cause, .empty⟩

def saying (cause : Failure) (text : String) : Stop := ⟨cause, Console.empty.print text⟩

def reject (message : String) : Stop := saying (.exit (some 1)) (Diagnostic.error message)

end Stop

end LuauCompiler
