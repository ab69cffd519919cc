import LuauCompiler.Code.Names
import LuauCompiler.Compile.Operator
import LuauCompiler.Json.Basic
import LuauCompiler.Text.Alphanumeric
import LuauCompiler.Text.Basic

/-! A first assignment to a plain name declares it. Inside a class the target is an attribute of the
class. -/

namespace LuauCompiler.Compile

def tagTargets (value : Node) : List Node → Compile Unit
  | [] => return ()
  | target :: rest => do
    match target.id? with
    | some name =>
      if !name.isEmpty then
        update fun s => { s with tags := insertField name value.tag s.tags }
    | none => pure ()
    tagTargets value rest

def reservedMessage (name : String) : String := "'" ++ name ++ "' is a reserved Luau keyword."

/-- No element of a target with commas may be a reserved word. -/
def checkElements (target : String) : Compile Unit := do
  if Text.hasChar target ',' then
    let elements := Text.pieces ',' (String.ofList (target.toList.filter (· != ' ')))
    match elements.find? reservedWords.contains with
    | some word => reject (reservedMessage word)
    | none => pure ()

def qualified (className name : String) : String :=
  if className.isEmpty then name else className ++ "." ++ name

def assign (targets : List Node) (value : Node) (targetRuns : List (Compile Unit))
    (valueRun : Compile Unit) : Compile Unit := do
  tagTargets value targets
  match targetRuns with
  | [] => fail .outOfRange
  | first :: _ =>
    let target ← inline first
    let text ← inline valueRun
    checkElements target
    let target := qualified (← frame).className target
    let keyword ← if Text.isWord target then introduce (some target) else pure ""
    if reservedWords.contains target || libraryNames.contains target then
      reject (reservedMessage target)
    emit (keyword ++ target ++ " = " ++ text)

/-- The class name under which declarations are fields of a type. -/
def typeClass : String := "TYPE"

/-- An annotated assignment. Without a value the target is set to nothing, or the hint is
called as a method of the target. -/
def annotatedAssign (target value hint : Compile Unit)
    (hintCall : Option (String → Compile Unit)) : Compile Unit := do
  let target ← inline target
  let text ← inline value
  let className := (← frame).className
  let isType := className = typeClass
  let target := if isType then target else qualified className target
  let keyword ← if Text.hasChar target '.' then pure "" else introduce (some target)
  let _ ← inline hint
  if !text.isEmpty then emit (keyword ++ target ++ " = " ++ text)
  else if isType then emit (target ++ ",")
  else match hintCall with
    | some call => call target
    | none => emit (keyword ++ target ++ " = nil")

def augmentedAssign (target : Compile Unit) (op : Node) (value : Compile Unit) :
    Compile Unit := do
  let op ← binaryOperator op
  let target ← inline target
  let value ← inline value
  emit (target ++ " = " ++ (← plainBinary op target value))

def delete (targets : List (Compile Unit)) : Compile Unit := do
  let targets ← inlineEach targets
  emit (Text.commaSeparated targets ++ " = " ++ Text.commaSeparated (targets.map fun _ => "nil"))

def declareGlobals : List String → Compile Unit
  | [] => return ()
  | name :: rest => do
    match (← get).globals.add? name with
    | none => fail .outOfRange
    | some globals =>
      update fun s =>
        { s with globals, ledger := { s.ledger with exports := s.ledger.exports ++ [name] } }
      declareGlobals rest

def declareNonlocals : List String → Compile Unit
  | [] => return ()
  | name :: rest => do
    match (← get).nonlocals with
    | none => fail .unknownKey
    | some stack =>
      match stack.add? name with
      | none => fail .outOfRange
      | some stack =>
        update fun s => { s with nonlocals := some stack }
        declareNonlocals rest

end LuauCompiler.Compile
