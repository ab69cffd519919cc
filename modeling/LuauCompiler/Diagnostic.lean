/-! The wording of errors, warnings and notes, with their colours on a terminal. -/

namespace LuauCompiler.Diagnostic

def escapeCode (code : String) : String := "\x1b[" ++ code ++ "m"

def reset : String := escapeCode "0"

def source : String := escapeCode "90" ++ "PY roblox-py:" ++ reset ++ " "

/-- Goes to standard output and gets a line feed from the printer. -/
def error (message : String) : String :=
  escapeCode "91;1" ++ "error" ++ reset ++ " " ++ source ++ message

def warning (message : String) : String :=
  escapeCode "1;33" ++ "warning: " ++ reset ++ source ++ message ++ "\n"

def note (message : String) : String :=
  escapeCode "1;32" ++ "info: " ++ reset ++ source ++ message ++ "\n"

/-- What is printed when the source text cannot be parsed. -/
def syntaxError (text : String) : String :=
  escapeCode "1;31" ++ "syntax error: " ++ reset ++ text ++ "\n"

end LuauCompiler.Diagnostic
