import LuauCompiler.Code.Names
import LuauCompiler.Compile.Monad
import LuauCompiler.Text.Basic
import LuauCompiler.Tree.Basic

/-! A module under `game.` is a service of the game; any other module is looked up at run time. -/

namespace LuauCompiler.Compile

def servicePrefix : String := "game."

def service? (name : String) : Option String :=
  if servicePrefix.toList.isPrefixOf name.toList then
    some (String.ofList (name.toList.drop servicePrefix.length))
  else none

def serviceLine (binding service : String) : String :=
  "local " ++ binding ++ " = game:GetService(\"" ++ service ++ "\")"

def moduleLine (binding module : String) : String :=
  "local " ++ binding ++ " = rcc.import(\"" ++ module ++ "\", script) or require(\"" ++ module ++
    "\")"

def memberLine (binding module member : String) : String :=
  "local " ++ binding ++ " = (rcc.import(\"" ++ module ++ "\") or require(\"" ++ module ++
    "\"))." ++ member

def lastPart (name : String) : String :=
  ((Text.pieces '.' name).getLast?).getD ""

/-- Imports a whole module. The names of the runtime library are no modules. -/
def importModule : Node → Compile Unit
  | .alias (some name) asName => do
    if libraryNames.contains name then fail .unknownName
    match service? name with
    | some service => emit (serviceLine (asName.getD (lastPart service)) service)
    | none => emit (moduleLine (asName.getD (lastPart name)) name)
  | _ => fail .missingPart

/-- The modules whose members are services of the game. -/
def isServiceModule (module : String) : Bool :=
  module = "services" || module = "rbx.services" || module = "rbx"

/-- Imports a member of a module. Everything at once is refused, except from the base module, where
it means nothing. -/
def importMember (module : String) : Node → Compile Unit
  | .alias name asName =>
    if name = some "*" then
      if module = "rbx" then pure () else reject "import * is unsupproted"
    else
      let name := shownName name
      let binding := asName.getD name
      emit (if isServiceModule module then serviceLine binding name
        else memberLine binding module name)
  | _ => fail .missingPart

end LuauCompiler.Compile
