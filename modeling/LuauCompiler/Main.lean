import LuauCompiler.Command

/-! Reads the files that a command names, runs it, and carries out what it asks for. The tree of the
input file comes as one line of JSON on standard input. -/

namespace LuauCompiler.Command

/-- The file of that name, if it can be read. -/
def readAt (name : String) : IO (List (String × String)) := do
  try
    return [(name, ← IO.FS.readFile name)]
  catch _ =>
    return []

def isFolder (name : String) : IO Bool := do
  try
    (← IO.FS.realPath name).isDir
  catch _ =>
    return false

/-- The files and folders that the arguments name or lead through, as far as they are there. -/
def workspace (args : Arguments) : IO Workspace := do
  let names := [configName, args.input, args.output].flatMap fun name =>
    Workspace.foldersOn (Workspace.base name) (Workspace.steps name)
  let files ← names.mapM readAt
  return ⟨files.flatten, ← names.filterM isFolder⟩

/-- The tree on standard input. Text that is no tree counts as a syntax error. -/
def readTree : IO Parsed := do
  match Json.parse (← (← IO.getStdin).getLine) with
  | .ok tree => return .ofJson tree
  | .error _ => return .syntaxError "invalid syntax"

def exitCode : Except Failure Unit → UInt32
  | .ok () => 0
  | .error (.exit code) => UInt32.ofNat (code.getD 0)
  | .error _ => 1

def perform (argv : List String) : IO UInt32 := do
  let args := (arguments argv).toOption.getD {}
  let w ← workspace args
  let needsTree := args.input != noName && !args.helperFile && !args.backwards
  let parsed ← if needsTree then readTree else pure (.tree .absent)
  let outcome := run .sorted w (fun _ => parsed) argv
  IO.print outcome.console.out
  IO.eprint outcome.console.err
  for (name, text) in outcome.changed do
    IO.FS.writeFile name text
  return exitCode outcome.result

end LuauCompiler.Command

def main (argv : List String) : IO UInt32 := LuauCompiler.Command.perform argv
