import LuauCompiler.Failure
import LuauCompiler.Json.Reader

/-! A notebook becomes one source text: each cell under a heading, code as it is, other text inside a
literal. -/

namespace LuauCompiler.Notebook

def field (j : Json) (key : String) : Except Failure Json :=
  match j with
  | .obj fields =>
    match fields.lookup key with
    | some value => .ok value
    | none => .error .unknownKey
  | _ => .error .wrongKind

/-- The items of a value: of a list, the characters of a text, the keys of an object. -/
def items : Json → Except Failure (List Json)
  | .arr items => .ok items
  | .str s => .ok (s.toList.map fun c => .str (String.singleton c))
  | .obj fields => .ok (fields.map fun (key, _) => .str key)
  | _ => .error .wrongKind

def texts (j : Json) : Except Failure (List String) := do
  (← items j).mapM fun
    | .str s => .ok s
    | _ => .error .wrongKind

def heading (number : Nat) : String :=
  "\n\n\"\"\" Cell: " ++ toString number ++ ": \"\"\" \n\n"

def codeText (source : List String) : String := "\n" ++ String.join source

def markdownText (source : List String) : String :=
  "\n\"\"\" MD:\n\t" ++ String.intercalate "\t" source ++ "\n\"\"\"\n"

/-- The text of a cell below its heading. Cells of other types have none. -/
def cellText (cell : Json) : Except Failure String := do
  match ← field cell "cell_type" with
  | .str "code" => return codeText (← texts (← field cell "source"))
  | .str "markdown" => return markdownText (← texts (← field cell "source"))
  | _ => return ""

def cellsText : (number : Nat) → List Json → Except Failure String
  | _, [] => .ok ""
  | number, cell :: rest => do
    let text ← cellText cell
    return heading number ++ text ++ (← cellsText (number + 1) rest)

def sourceText (content : String) : Except Failure String := do
  let notebook ← Json.parse content
  cellsText 1 (← items (← field notebook "cells"))

end LuauCompiler.Notebook
