import LuauCompiler.Code.Basic
import LuauCompiler.Console
import LuauCompiler.Scope.Frames
import LuauCompiler.Scope.Symbols
import LuauCompiler.Tree.Constant

/-! What is known about the program so far, what has been emitted, and what outlives the compilation. -/

namespace LuauCompiler

/-- What compilations leave behind for the whole session. Nothing in it has an influence on the
emitted code. -/
structure Ledger where
  /-- The snippets that emitted code relies on, in order of need, with repetitions. -/
  helpers : List String
  exports : List String
  loops : Nat
  deriving DecidableEq, Repr

namespace Ledger

def empty : Ledger := ⟨[], [], 0⟩

def need (l : Ledger) (helper : String) : Ledger := { l with helpers := l.helpers ++ [helper] }

def addLoop (l : Ledger) : Ledger := { l with loops := l.loops + 1 }

def loopLabel (l : Ledger) : String := "loop_label_" ++ toString l.loops

end Ledger

/-- What the surrounding constructs pass down. -/
structure Frame where
  /-- The class whose body is being compiled, empty outside of classes. -/
  className : String
  loopLabel : String
  /-- The statement is an expression that is a constant, so a text becomes a comment. -/
  docstring : Bool
  deriving DecidableEq, Repr

def Frame.outermost : Frame := ⟨"", "", false⟩

structure FunctionRecord where
  name : Option String
  params : List (Option String)
  /-- The text of the last value returned so far. -/
  returns : Option String
  /-- The constants that stand as statements after the definition started. -/
  constants : List Constant
  deriving DecidableEq, Repr

structure State where
  ledger : Ledger
  console : Console
  frames : Frames Frame
  /-- A class may be declared without a name. -/
  locals : SymbolStack (Option String)
  globals : SymbolStack String
  /-- The names declared nonlocal, if such declarations are allowed. -/
  nonlocals : Option (SymbolStack String)
  tags : List (String × String)
  functions : List FunctionRecord
  /-- The functions in which a value was yielded; `none` stands for code outside of functions. -/
  generators : List (Option String)
  /-- The code emitted so far: a block, unless a module inside the program has left its first entry
  in place of the block. -/
  output : Code
  current : Option String

namespace State

def initial (ledger : Ledger) : State where
  ledger := ledger
  console := .empty
  frames := .single .outermost
  locals := .new
  globals := .new
  nonlocals := none
  tags := []
  functions := []
  generators := []
  output := .block []
  current := none

def openBlock (s : State) : State := { s with locals := s.locals.push }

end State

end LuauCompiler
