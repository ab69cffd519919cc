import LuauCompiler.Failure
import LuauCompiler.Json.Basic

/-! Emitted code is a list of lines and nested blocks; some entries stand for nothing. Laid out, each
entry starts a new line and a block is indented by four more spaces than the lines around it. -/

namespace LuauCompiler

inductive Code where
  | line (text : String)
  | block (body : List Code)
  /-- An entry that adds no line. -/
  | void
  deriving Repr

namespace Code

mutual

def decEq : (a b : Code) → Decidable (a = b)
  | .line s, .line t =>
    if h : s = t then isTrue (h ▸ rfl) else isFalse fun e => h (Code.line.inj e)
  | .block xs, .block ys =>
    match decEqs xs ys with
    | isTrue h => isTrue (h ▸ rfl)
    | isFalse h => isFalse fun e => h (Code.block.inj e)
  | .void, .void => isTrue rfl
  | .line _, .block _ | .line _, .void | .block _, .line _ | .block _, .void | .void, .line _
  | .void, .block _ => isFalse nofun

def decEqs : (xs ys : List Code) → Decidable (xs = ys)
  | [], [] => isTrue rfl
  | x :: xs, y :: ys =>
    match decEq x y, decEqs xs ys with
    | isTrue h, isTrue t => isTrue (h ▸ t ▸ rfl)
    | isFalse h, _ => isFalse fun e => h (List.cons.inj e).1
    | _, isFalse t => isFalse fun e => t (List.cons.inj e).2
  | [], _ :: _ | _ :: _, [] => isFalse nofun

end

instance : DecidableEq Code := decEq

/-- Adds entries at the end of a block; nothing else takes any. -/
def append? : Code → List Code → Option Code
  | .block body, entries => some (.block (body ++ entries))
  | _, _ => none

def characters (text : String) : List Code := text.toList.map fun c => .line (String.singleton c)

/-- The entries of a block, or the characters of a line. -/
def entries? : Code → Option (List Code)
  | .block body => some body
  | .line text => some (characters text)
  | .void => none

/-- Four spaces for each level; a negative level counts as none. -/
def indentation (level : Int) : String :=
  String.ofList (List.replicate (4 * level.toNat) ' ')

mutual

/-- The text of an entry. A block without text still takes a line. -/
def text? (level : Int) : Code → Option String
  | .line text => some (indentation level ++ text)
  | .block body => some (String.intercalate "\n" (texts (level + 1) body))
  | .void => none

def texts (level : Int) : List Code → List String
  | [] => []
  | entry :: rest =>
    match text? level entry with
    | some text => text :: texts level rest
    | none => texts level rest

end

def layOut (level : Int) (code : List Code) : String :=
  String.intercalate "\n" (texts level code)

mutual

/-- Texts are lines, lists are blocks, and everything else adds nothing. -/
def ofJson : Json → Code
  | .str s => .line s
  | .arr items => .block (listOfJson items)
  | _ => .void

def listOfJson : List Json → List Code
  | [] => []
  | item :: rest => ofJson item :: listOfJson rest

end

/-- The entries of a value: the items of a list, the characters of a text or the keys of an
object. -/
def entriesOfJson : Json → Except Failure (List Code)
  | .arr items => .ok (listOfJson items)
  | .str s => .ok (characters s)
  | .obj fields => .ok (fields.map fun (key, _) => .line key)
  | _ => .error .wrongKind

end Code

end LuauCompiler
