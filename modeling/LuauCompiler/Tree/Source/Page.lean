import LuauCompiler.Failure
import LuauCompiler.Tree.Source.Level

/-! Source text is written piece by piece onto a page. A piece may be missing, such as a name that is
not given; that is found out only when the pieces are put together. -/

namespace LuauCompiler.Source

abbrev Pieces := List (Option String)

def Pieces.text (ps : Pieces) : Except Failure String :=
  if ps.all (·.isSome) then .ok (String.join (ps.filterMap id)) else .error .wrongKind

structure Page where
  pieces : Pieces
  /-- The pieces that were on the page when it was first started anew. -/
  lost : Option Pieces
  indent : Nat
  /-- The handlers belong to a try statement for groups of errors. -/
  grouped : Bool

def Page.blank : Page := ⟨[], none, 0, false⟩

abbrev Writer := Page → Except Failure Page

namespace Writer

def nothing : Writer := .ok

def fail (e : Failure) : Writer := fun _ => .error e

def pieces (ps : Pieces) : Writer := fun page => .ok { page with pieces := page.pieces ++ ps }

def piece (p : Option String) : Writer := pieces [p]

def write (text : String) : Writer := piece (some text)

instance : Coe String Writer := ⟨write⟩

def inOrder : List Writer → Writer
  | [] => nothing
  | w :: rest => fun page => do inOrder rest (← w page)

def separated (separator : String) : List Writer → Writer
  | [] => nothing
  | w :: rest => inOrder (w :: rest.flatMap fun w => [write separator, w])

def commaSeparated : List Writer → Writer := separated ", "

def between (start stop : String) (w : Writer) : Writer := inOrder [write start, w, write stop]

/-- In parentheses if the place binds tighter than the form. -/
def enclosed (own place : Level) (w : Writer) : Writer :=
  if own < place then between "(" ")" w else w

/-- Ends the line, unless the page is still blank. -/
def endLine : Writer := fun page =>
  if page.pieces.isEmpty then .ok page else write "\n" page

def line (text : String) : Writer := fun page =>
  inOrder [endLine, write (String.ofList (List.replicate (4 * page.indent) ' ') ++ text)] page

def block (body : List Writer) : Writer := fun page => do
  let page ← write ":" page
  let page ← inOrder body { page with indent := page.indent + 1 }
  return { page with indent := page.indent - 1 }

/-- An indented body under a heading of its own, if there is a body. -/
def blockUnder (heading : String) (body : List Writer) : Writer :=
  if body.isEmpty then nothing else inOrder [line heading, block body]

/-- Throws away what is on the page before writing. What is written must be complete. -/
def anew (w : Writer) : Writer := fun page => do
  let page ← w { page with pieces := [], lost := page.lost <|> some page.pieces }
  let _ ← page.pieces.text
  return page

/-- Writes onto a slip. What was thrown away on the slip is what remains of it. -/
def onSlip (w : Writer) (page : Page) : Except Failure (Pieces × Page) := do
  let slip ← w { page with pieces := [], lost := none }
  return (slip.lost.getD slip.pieces, { slip with pieces := page.pieces, lost := page.lost })

def withGrouped (grouped : Bool) (w : Writer) : Writer := fun page => do
  let after ← w { page with grouped }
  return { after with grouped := page.grouped }

def text (w : Writer) : Except Failure String := do
  let page ← w .blank
  page.pieces.text

end Writer

end LuauCompiler.Source
