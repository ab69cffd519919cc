import LuauCompiler.Notebook
import LuauCompiler.Program

/-! A command reads its arguments, compiles one file, and prints the program or writes it to a file. The
files and the parser are given, so that a command is a function. -/

namespace LuauCompiler.Command

/-- Moves the cursor so that options line up on a terminal. -/
def tab : String := "\t\x08\x08\x08\x08"

def bold (text : String) : String := "\x1b[1m" ++ text ++ "\x1b[0m"

def optionLine (name gap text : String) : String := tab ++ bold name ++ gap ++ text ++ "\n"

def usage : String :=
  "\nusage: \x1b[1;33mrbxpy\x1b[0m [file] [options] -o [gen]\n" ++
    bold "Options:" ++ "\n" ++
    optionLine "-v" "        " "show version information" ++
    optionLine "-vd" "       " "show version number only" ++
    optionLine "-ast" "      " "show python ast tree before code" ++
    optionLine "-f" "        " "include standard python functions in generated code" ++
    optionLine "-fn" "       " "do not include standard python functions in generated code" ++
    optionLine "-ne" "       " "do not export functions" ++
    optionLine "-s" "        " "generate a require file" ++
    optionLine "-r" "        " "use require instead of rbxpy" ++
    optionLine "-clrtxt" "   " "modify system shell for a better experience" ++
    optionLine "-o" "        " "output file" ++
    optionLine "-u" "        " "open this" ++
    "\n" ++ bold "Inputs:" ++ "\n" ++
    optionLine "-j" "        " "input is a jupyter notebook" ++
    optionLine "-py" "       " "input is python file (default)"

def versionText : String :=
  "\x1b[1;34mcopyright:\x1b[0m roblox-py " ++ bold Program.version ++
    " licensed under the GNU Affero General Public License by " ++ bold "@AsynchronousAI"

/-! ## Arguments -/

/-- The name that stands for no file. -/
def noName : String := "NONE"

structure Arguments where
  input : String := noName
  output : String := noName
  /-- The other direction of compilation was asked for. -/
  backwards : Bool := false
  showTree : Bool := false
  functions : Bool := false
  exportNames : Bool := true
  helperFile : Bool := false
  useRequire : Bool := false
  notebook : Bool := false
  deriving DecidableEq, Repr

def outputName? (all : List String) : Option String :=
  all[all.idxOf "-o" + 1]?

/-- Reads the arguments one by one. `skip` is set when the next one belongs to the output option. -/
def scan (all : List String) : (skip : Bool) → Arguments → List String → Except Stop Arguments
  | _, found, [] => .ok found
  | true, found, _ :: rest => scan all false found rest
  | false, found, arg :: rest =>
    match arg with
    | "-v" => .error (.saying (.exit (some 0)) versionText)
    | "p" => .error (.reject "Plugin is discontinued")
    | "-vd" => .error (.saying (.exit none) Program.version)
    | "-j" => scan all false { found with notebook := true } rest
    | "-b" => scan all false found rest
    | "-c" => scan all false found rest
    | "-u" => .error (.saying (.exit none) usage)
    | "-f" => scan all false { found with functions := true } rest
    | "-s" => scan all false { found with helperFile := true } rest
    | "-r" => scan all false { found with useRequire := true } rest
    | "-fn" => scan all false { found with functions := false } rest
    | "-ne" => scan all false { found with exportNames := false } rest
    | "-ast" => scan all false { found with showTree := true } rest
    | "-py" => scan all false { found with backwards := false } rest
    | "-o" =>
      match outputName? all with
      | some name => scan all true { found with output := name } rest
      | none => .error (.silent .outOfRange)
    | "-lua" => scan all false { found with backwards := true } rest
    | "-clrtxt" => .error (.reject "Not required on this platform")
    | name =>
      if found.input != noName then .error (.reject ("Unexpected argument: '" ++ name ++ "'"))
      else scan all false { found with input := name } rest

def arguments (argv : List String) : Except Stop Arguments := scan argv false {} argv

/-! ## Files -/

/-- The part of the file system that a command sees. -/
structure Workspace where
  files : List (String × String)
  /-- The folders other than the working directory. -/
  folders : List String
  deriving DecidableEq, Repr

namespace Workspace

def isIdleStep (step : String) : Bool := step = "." || step.isEmpty

/-- The folder that a step leads to from a folder. A folder is the steps to it, the last one first:
no steps stand for the working directory, and an empty first step for the root. -/
def enter (folder : List String) (step : String) : List String :=
  if isIdleStep step then folder
  else if step = ".." then
    match folder with
    | [] => [step]
    | [""] => [""]
    | last :: above => if last = ".." then step :: folder else above
  else step :: folder

def trail (folder : List String) : List String → List (List String)
  | [] => []
  | step :: rest => enter folder step :: trail (enter folder step) rest

def pathName (steps : List String) : String := String.intercalate "/" steps.reverse

/-- The folder where a name starts: the root or the working directory. -/
def base (name : String) : List String := if name.toList.head? = some '/' then [""] else []

/-- The steps of a name, without the slashes that end it. -/
def steps (name : String) : List String :=
  ((Text.pieces '/' name).reverse.dropWhile String.isEmpty).reverse

/-- The folders other than the working directory and the root that steps lead through. -/
def foldersOn (folder steps : List String) : List String :=
  ((trail folder steps).filter fun folder => folder != [] && folder != [""]).map pathName

def ofFiles (files : List (String × String)) : Workspace :=
  ⟨files, files.flatMap fun file => foldersOn (base file.1) (steps file.1).dropLast⟩

/-- A folder has to be there to be entered. -/
def check (w : Workspace) (folder : String) : Except Failure Unit :=
  if w.folders.contains folder then .ok ()
  else .error (if (w.files.lookup folder).isSome then .notFolder else .missingFile)

/-- The plain name of the file that the steps lead to: one without steps that stay in place or turn
back. Its folders have to be there, and it must not be a folder itself. -/
def locate (w : Workspace) (folder steps : List String) : Except Failure String := do
  (foldersOn folder steps.dropLast).forM w.check
  match steps.getLast? with
  | none => .error .isFolder
  | some file =>
    let plain := pathName (file :: ((trail folder steps.dropLast).getLast?.getD folder))
    if isIdleStep file || file = ".." || w.folders.contains plain then .error .isFolder
    else .ok plain

def endsInSlash (name : String) : Bool := name.toList.getLast? = some '/'

/-- The plain name of the file that a name leads to, if the file can be written. -/
def target (w : Workspace) (name : String) : Except Failure String :=
  if name.isEmpty then .error .missingFile
  else if Text.hasChar name '\x00' then .error .badValue
  else do
    let plain ← w.locate (base name) (steps name)
    if endsInSlash name then .error .isFolder else .ok plain

/-- The text of the file that a name leads to. Steps that stay in place do not count in it. -/
def file? (w : Workspace) (name : String) : Option String :=
  match w.locate (base name) ((steps name).filter (!isIdleStep ·)) with
  | .error _ => none
  | .ok plain => (w.files.lookup plain).map fun text => String.ofList (Text.unifyLineEnds text.toList)

/-- The text of a file, or `none` if the name leads to no file. A name that goes on behind the file
does lead to it, but the file cannot be opened by it. -/
def read? (w : Workspace) (name : String) : Option (Except Failure String) :=
  (w.file? name).map fun text =>
    if (Text.pieces '/' name).getLast?.any isIdleStep then .error .notFolder else .ok text

/-- The change that writing a file makes: none if the file is there with the same text. -/
def write (w : Workspace) (name text : String) : Except Failure (List (String × String)) :=
  (w.target name).map fun plain =>
    if w.files.lookup plain = some text then [] else [(plain, text)]

end Workspace

def configName : String := ".robloxpy.json"

def configuration (w : Workspace) : Except Stop Config :=
  if w.folders.contains configName then .error (.silent .isFolder)
  else Config.load (w.files.lookup configName)

/-! ## The command -/

/-- The end of a command: how it ended, what it printed, the texts it had parsed, and what it
wrote. -/
structure Outcome where
  result : Except Failure Unit
  console : Console
  parsed : List String
  /-- The files that are new or have a new text. -/
  changed : List (String × String)

def Outcome.ofStop (s : Stop) : Outcome := ⟨.error s.cause, s.printed, [], []⟩

/-- Prints a text or writes it to the output file, and ends the command. -/
def deliver (w : Workspace) (output text : String) (console : Console) (parsed : List String)
    (ending : Except Failure Unit) : Outcome :=
  if output = noName then ⟨ending, console.print text, parsed, []⟩
  else match w.write output text with
    | .ok changed => ⟨ending, console, parsed, changed⟩
    | .error cause => ⟨.error cause, console, parsed, []⟩

/-- Compiles a source text. With a listing of the tree the program itself is not delivered. -/
def compileText (order : Order) (w : Workspace) (args : Arguments) (config : Config)
    (parse : String → Parsed) (text : String) : Outcome :=
  let options : Options :=
    { functions := args.functions, exportNames := args.exportNames, useRequire := args.useRequire,
      showTree := args.showTree }
  let report := Program.ofParsed config options (.start order) (parse text)
  match report.result with
  | .error cause => ⟨.error cause, report.console, [text], []⟩
  | .ok program =>
    if args.showTree then ⟨.ok (), report.console, [text], []⟩
    else deliver w args.output program report.console [text] (.ok ())

def runHelperFile (w : Workspace) (args : Arguments) : Outcome :=
  match configuration w with
  | .error s => .ofStop s
  | .ok _ =>
    match (Program.helperFile false .fresh).result with
    | .error cause => ⟨.error cause, .empty, [], []⟩
    | .ok text => deliver w args.output text .empty [] (.error (.exit (some 0)))

def runFile (order : Order) (w : Workspace) (args : Arguments) (parse : String → Parsed) : Outcome :=
  match w.read? args.input with
  | none =>
    .ofStop (.reject ("The given filename ('" ++ args.input ++ "') is not a file."))
  | some (.error cause) => .ofStop (.silent cause)
  | some (.ok content) =>
    if content.isEmpty then .ofStop (.reject "The input file is empty.")
    else match configuration w with
      | .error s => .ofStop s
      | .ok config =>
        if args.notebook then
          match Notebook.sourceText content with
          | .error cause => ⟨.error cause, .empty, [], []⟩
          | .ok text => compileText order w args config parse text
        else compileText order w args config parse content

def run (order : Order) (w : Workspace) (parse : String → Parsed) (argv : List String) : Outcome :=
  match arguments argv with
  | .error s => .ofStop s
  | .ok args =>
    if args.backwards then
      .ofStop (.reject "please use luau2py instead of rbxpy for lua to python conversion.")
    else if args.helperFile then runHelperFile w args
    else if args.input = noName then .ofStop (.saying (.exit none) usage)
    else runFile order w args parse

end LuauCompiler.Command
