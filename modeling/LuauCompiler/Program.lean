import LuauCompiler.Code.Names
import LuauCompiler.Compile.Visit
import LuauCompiler.Order
import LuauCompiler.Snippet.Class
import LuauCompiler.Snippet.Complex
import LuauCompiler.Snippet.Dict
import LuauCompiler.Snippet.Functions
import LuauCompiler.Snippet.Generator
import LuauCompiler.Snippet.Imports
import LuauCompiler.Tree.Listing
import LuauCompiler.Tree.Reader

/-! A program is a header, the error functions it uses, a preamble with the helpers it relies on, its
code, and a table of exports. The preamble and the ledger outlive a program: they belong to the session,
and what one program leaves behind is found by the next. -/

namespace LuauCompiler

structure Session where
  ledger : Ledger
  /-- The text between the error functions and the code, as the programs so far have left it. -/
  preamble : String
  order : Order

namespace Session

def start (order : Order) : Session := ⟨.empty, Snippet.imports, order⟩

def fresh : Session := start .sorted

/-- Starts the preamble anew. The ledger stays. -/
def resetPreamble (s : Session) : Session := { s with preamble := Snippet.imports }

def need (s : Session) (helper : String) : Session :=
  if helper.isEmpty then s
  else { s with ledger := s.ledger.need helper }

end Session

inductive Parsed where
  | tree (root : Node)
  | syntaxError (text : String)

/-- Reads what a parser hands over: a tree, or an object with the text of a syntax error. -/
def Parsed.ofJson (j : Json) : Parsed :=
  match j.get? "syntax_error" with
  | some (.str text) => .syntaxError text
  | _ => .tree (Node.ofJson j)

structure Options where
  functions : Bool := false
  /-- A syntax error is handed to the caller instead of being printed. -/
  raiseSyntaxErrors : Bool := false
  exportNames : Bool := true
  /-- Leaves the helpers out, for programs that require them from a file. -/
  useRequire : Bool := false
  showTree : Bool := false
  deriving DecidableEq, Repr

structure Report where
  result : Except Failure String
  console : Console
  session : Session

namespace Program

def version : String := "3.27.111"

def header : String := "--> generated by roblox-py v" ++ version ++ "\n"

def snippet? : String → Option String
  | "complex" => some Snippet.complex
  | "dict" => some Snippet.dict
  | "class" => some Snippet.classes
  | "fn" => some Snippet.functions
  | "generator" => some Snippet.generator
  | _ => none

def unhandledMessage (helper : String) : String :=
  "Auto-generated dependency unhandled '" ++ helper ++
    "', please report this issue on Discord or Github"

/-- Adds the snippets of the helpers to the preamble. An unknown helper stops in the middle, with
the preamble as far as it came. -/
def addSnippets (preamble : String) : List String → Except (String × String) String
  | [] => .ok preamble
  | helper :: rest =>
    match snippet? helper with
    | some text => addSnippets (preamble ++ text) rest
    | none => .error (helper, preamble)

def errorFunction (name : String) : String :=
  "function " ++ name ++ "(errorMessage)\n    return (\"[roblox-py] " ++ name ++
    ": \" .. errorMessage)\nend\n"

def errorFunctions (code : String) : String :=
  "\n\n--> error handling\n" ++
    String.join ((errorNames.filter fun name => Text.holds code ("error(" ++ name ++ "(")).map
      errorFunction)

/-- The lines that make the library names known which occur in the code. -/
def libraryLines (code : String) : String :=
  String.join ((libraryNames.filter fun name => Text.holds code name).map fun name =>
    "\n" ++ name ++ " = py." ++ name)

def exportTable (names : List String) : String :=
  if names.isEmpty then ""
  else
    "\n\n--> exports\nif not script:IsA(\"BaseScript\") then\n\treturn \x7b\n" ++
      String.join (names.map fun name => "\t\t[\"" ++ name ++ "\"] = " ++ name ++ ",\n") ++
      "\t\x7d\nend"

/-- The helpers of a program in the order of their snippets. -/
def helpersOf (options : Options) (session : Session) : List String :=
  session.order.list session.ledger.helpers ++ (if options.functions then ["fn"] else [])

/-- Puts the parts of a program together, once its code is known. Code that stands for nothing is
refused when the preamble has its snippets. -/
def assemble (options : Options) (output : Code) (console : Console) (session : Session) :
    Report :=
  let helpers := if options.useRequire then [] else helpersOf options session
  match addSnippets session.preamble helpers with
  | .error (helper, preamble) =>
    ⟨.error (.exit (some 1)), console.print (Diagnostic.error (unhandledMessage helper)),
      { session with preamble }⟩
  | .ok preamble =>
    match output.entries? with
    | none => ⟨.error .wrongKind, console, { session with preamble }⟩
    | some entries =>
      let code := Code.layOut 0 entries
      let preamble := preamble ++ libraryLines code ++ "\n\n--> code start\n"
      let footer :=
        if options.exportNames then exportTable (session.order.list session.ledger.exports) else ""
      ⟨.ok (header ++ errorFunctions code ++ preamble ++ code ++ footer), console,
        { session with preamble }⟩

def listing (options : Options) (root : Node) : Except Failure Console :=
  if options.showTree then (Listing.ofNode root).map Console.empty.print else .ok .empty

def ofTree (config : Config) (options : Options) (session : Session) (root : Node) : Report :=
  match listing options root with
  | .error e => ⟨.error e, .empty, session⟩
  | .ok console =>
    let start := { State.initial session.ledger with console }
    match (Compile.visit (some config) root).run start with
    | (.error e, s) => ⟨.error e, s.console, { session with ledger := s.ledger }⟩
    | (.ok (), s) =>
      assemble options s.output s.console { session with ledger := s.ledger }

/-- The program of a source text, given what the parser made of it. -/
def ofParsed (config : Config) (options : Options) (session : Session) : Parsed → Report
  | .tree root => ofTree config options session root
  | .syntaxError text =>
    if options.raiseSyntaxErrors then ⟨.error (.syntaxError text), .empty, session⟩
    else
      ⟨.error (.exit (some 1)), Console.empty.printError (Diagnostic.syntaxError text), session⟩

def sharedHelpers : List String := ["class", "dict", "fn", "complex"]

/-- The file from which programs can require the helpers. It replaces the preamble. -/
def helperFile (useRequire : Bool) (session : Session) : Report :=
  let helpers := if useRequire then [] else sharedHelpers
  let snippets := String.join (helpers.filterMap snippet?)
  let table := String.join (libraryNames.map fun name => "[\"" ++ name ++ "\"] = " ++ name ++ ",")
  let text := snippets ++ "\n\nreturn \x7b" ++ table ++ "\x7d\n"
  ⟨.ok text, .empty, { session with preamble := text }⟩

/-- The text that starts a runtime: none is needed. -/
def runtimeInit : String := ""

end Program

end LuauCompiler
