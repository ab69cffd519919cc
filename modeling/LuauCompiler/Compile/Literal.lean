import LuauCompiler.Compile.Monad
import LuauCompiler.Text.Basic
import LuauCompiler.Tree.Basic

/-! Constants, containers and interpolated texts. -/

namespace LuauCompiler.Compile

/-- Bytes are emitted as the text they encode, between long brackets. -/
def bytesText (bytes : List UInt8) : Except Failure String :=
  match String.fromUTF8? ⟨bytes.toArray⟩ with
  | some text => .ok ("[[" ++ text ++ "]]")
  | none => .error .invalidUtf8

/-- A text is a quoted literal, or a comment where it documents. -/
def textConstant (text : String) : Compile Unit := do
  if (← frame).docstring then emit ("--[[ " ++ text ++ " ]]") else emit (Text.quote text)

def constant (c : Constant) : Compile Unit :=
  match c with
  | .none => emit "nil"
  | .bool b => emit (if b then "true" else "false")
  | .str text => textConstant text
  | .bytes bytes => do emit (← ofExcept (bytesText bytes))
  | .ellipsis => emit "..."
  | .int _ | .float _ | .complex .. => do emit (← ofExcept c.display)

/-- An interpolated text: constants as they are, everything else in place. A constant that is no
text is refused once all parts are known. -/
def interpolated (parts : List (Node × Compile Unit)) : Compile Unit := do
  let texts ← all (parts.map fun (n, c) =>
    match n.constant? with
    | some (.str text) => return some text
    | some _ => return none
    | none => return some (← inline c))
  if texts.all (·.isSome) then
    emit (Text.quotedInner ("`" ++ String.join (texts.filterMap id) ++ "`"))
  else fail .wrongKind

def interpolation (value : Compile Unit) : Compile Unit := do
  emit ("\x7b" ++ (← inline value) ++ "\x7d")

def bracedList (texts : List String) : String := "\x7b" ++ Text.commaSeparated texts ++ "\x7d"

def listDisplay (elts : List (Compile Unit)) : Compile Unit := do
  emit (bracedList (← inlineEach elts))

def tupleDisplay (elts : List (Compile Unit)) : Compile Unit := do
  emit ("table.freeze(" ++ bracedList (← inlineEach elts) ++ ")")

def dictDisplay (keys values : List (Compile Unit)) : Compile Unit := do
  let keys ← inlineEach keys
  let values ← inlineEach values
  if values.length < keys.length then fail .outOfRange
  let entries := List.zipWith (fun k v => "[" ++ k ++ "] = " ++ v) keys values
  needs "dict"
  emit ("dict " ++ bracedList entries)
  needs "dict"

end LuauCompiler.Compile
