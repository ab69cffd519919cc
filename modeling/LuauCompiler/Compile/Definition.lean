import LuauCompiler.Compile.Assignment
import LuauCompiler.Config

/-! Functions, classes and type aliases. -/

namespace LuauCompiler.Compile

/-! ## Parameters -/

/-- The name of a parameter; a keyword has one too. -/
def paramName : Node → Except Failure (Option String)
  | .param name _ _ | .keyword name _ => .ok name
  | _ => .error .missingPart

/-- The positional parameters that are not positional only. Any list of arguments gives names, but
a definition has a whole parameter list in the place of names. -/
def paramNames : Node → Except Failure (List (Option String))
  | .params _ regular _ _ _ _ _ => regular.mapM paramName
  | .call _ args _ => args.mapM paramName
  | .functionDef .. | .lambda .. => .error .wrongKind
  | _ => .error .missingPart

def restParam : Node → Except Failure (Option Node)
  | .params _ _ rest _ _ _ _ => .ok (if rest.isAbsent then none else some rest)
  | _ => .error .missingPart

def givenName : Option String → Except Failure String
  | some name => .ok name
  | none => .error .wrongKind

def givenNames (names : List (Option String)) : Except Failure (List String) :=
  names.mapM givenName

def lambda (params : Node) (body : Compile Unit) : Compile Unit := do
  let names ← ofExcept (paramNames params >>= givenNames)
  emit ("function(" ++ Text.commaSeparated names ++ ") return " ++ (← inline body) ++ " end")

/-! ## Function definitions -/

/-- A decorator that only says how a method is called. -/
def isMethodKind (decorator : String) : Bool :=
  decorator = "classmethod" || decorator = "staticmethod"

/-- The method takes the class as a further first parameter: the outermost of the decorators that
say how a method is called decides. The decorators come innermost first. -/
def takesSelf (decorators : List String) : Bool :=
  decorators.foldl
    (fun before d =>
      if d = "classmethod" then true else if d = "staticmethod" then false else before)
    false

def defaultLine (name value : String) : String := name ++ " = " ++ name ++ " or " ++ value

/-- Puts the default lines in front of the body. Defaults and names come last parameter first; a
default without a parameter is refused. -/
def prependDefaults : List (Compile Unit) → List String → Compile Unit
  | [], _ => return ()
  | _ :: _, [] => fail .outOfRange
  | value :: rest, name :: names => do
    let text ← inline value
    prepend (defaultLine name text)
    prependDefaults rest names

def connectDecorators (name : String) : List (Compile Unit) → Compile Unit
  | [] => return ()
  | decorator :: rest => do
    let text ← inline decorator
    if !isMethodKind text then emit (name ++ " = " ++ text ++ ":Connect(" ++ name ++ ")")
    connectDecorators name rest

def generatorEnd (name : String) : String := "\tyieldGenerator('" ++ name ++ "', '__END')"

/-- The body of a function, followed by the end of the generator if it is one. -/
def functionBody (name : String) (body : List (Compile Unit)) : Compile Unit :=
  within (fun f => { f with className := "" }) do
    block body
    if (← get).generators.contains (some name) then
      needs "generator"
      emit (generatorEnd name)

def setCurrent (name : Option String) : Compile Unit :=
  update fun s => { s with current := name }

/-- The name under the class that is being compiled. Without a class it may be missing. -/
def qualifiedName (className : String) (name : Option String) : Except Failure (Option String) :=
  if className.isEmpty then .ok name
  else (givenName name).map fun name => some (qualified className name)

def restLine : Option Node → Except Failure (Option String)
  | none => .ok none
  | some rest => do
    return some ("local " ++ shownName (← paramName rest) ++ " = \x7b...\x7d")

def functionDefinition (name : Option String) (params : Node)
    (decorators body defaults : List (Compile Unit)) : Compile Unit := do
  let names ← ofExcept (paramNames params)
  update fun s => { s with functions := s.functions ++ [⟨name, names, none, []⟩] }
  setCurrent name
  let className := (← frame).className
  let innermostFirst := decorators.reverse
  let self := if takesSelf (← inlineEach innermostFirst) then ["self"] else []
  let _ ← ofExcept (qualifiedName className name)
  let rest ← ofExcept (restParam params)
  let name ← ofExcept (givenName name)
  let fullName := qualified className name
  let keyword ← if Text.hasChar fullName '.' then pure "" else introduce (some fullName)
  let dots := if rest.isSome then ["..."] else []
  let given ← ofExcept (givenNames names)
  emit (keyword ++ " function " ++ fullName ++
    "(" ++ Text.commaSeparated (self ++ given ++ dots) ++ ")")
  functionBody name body
  match ← ofExcept (restLine rest) with
  | some line => prepend line
  | none => pure ()
  prependDefaults defaults.reverse given.reverse
  emit "end"
  connectDecorators fullName innermostFirst
  setCurrent none

def recordReturn (text : String) : Compile Unit := do
  match (← get).functions.reverse with
  | [] => fail .outOfRange
  | last :: earlier =>
    update fun s =>
      { s with functions := earlier.reverse ++ [{ last with returns := some text }] }

/-- A return statement. The value is compiled once for the record and once for the line. -/
def returnStatement (value : Node) (run : Compile Unit) : Compile Unit := do
  if !value.isAbsent then
    let text ← inline run
    recordReturn (Text.strip ')' (Text.strip '(' text))
  emit ("return " ++ (← inline run))

/-- A yielded value marks the function at hand as a generator. -/
def yieldValue (value : Compile Unit) : Compile Unit := do
  let current := (← get).current
  update fun s => { s with generators := s.generators ++ [current] }
  let text ← inline value
  emit ("yieldGenerator('" ++ current.getD "None" ++ "', " ++ text ++ ")")

def yieldFromValue (value : Compile Unit) : Compile Unit := do
  emit ("for _, v in " ++ (← inline value) ++ " do coroutine.yield(v) end")

/-! ## Classes and types -/

/-- A class. A class without a name counts as none for its body. -/
def classDefinition (config : Option Config) (name : Option String)
    (bases body : List (Compile Unit)) : Compile Unit := do
  let bases ← inlineEach bases
  let className := (← frame).className
  let keyword ← if className.isEmpty then introduce name else pure ""
  let fullName := shownName (← ofExcept (qualifiedName className name))
  emit (keyword ++ fullName ++ " = class(function(" ++ shownName name ++ ")")
  needs "class"
  within (fun f => { f with className := name.getD "" }) (block body)
  editLast (· ++ [.line ("return " ++ shownName name)])
  emit ("end, \x7b" ++ Text.commaSeparated bases ++ "\x7d)")
  if (← ofExcept (Config.returnsClass config)) && className.isEmpty then
    emit ("return " ++ fullName)

def aliasWarning : String :=
  "in your \x1b[1m.robloxpy.json\x1b[0m file, specify weather or not to export Luau types like " ++
    "\x1b[1m\"luau\": true\x1b[0m`. Ignoring type alias."

/-- A type alias is emitted if the configuration says so, and reported if it says nothing. -/
def typeAlias (config : Option Config) (name : Node) (value : Compile Unit) : Compile Unit := do
  match ← ofExcept (Config.lookup config "luau") with
  | .null => warn aliasWarning
  | setting =>
    if setting.isTrue then
      if !name.isName then fail .missingPart
      emit ("type " ++ shownName name.id? ++ " = " ++ (← inline value))

end LuauCompiler.Compile
