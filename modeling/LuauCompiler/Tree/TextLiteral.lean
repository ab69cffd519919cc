import LuauCompiler.Text.Basic
import LuauCompiler.Text.Quoted

/-! A literal may stand between single or triple marks of either kind. The writer looks for marks that
need no backslash; only a text that leaves no choice is written as a quoted literal. -/

namespace LuauCompiler.TextLiteral

open Text

/-- A quotation mark: one or three times the same character. -/
abbrev Marks := List Char

def tripleMarks : List Marks := [List.replicate 3 doubleQuote, List.replicate 3 apostrophe]

def allMarks : List Marks := [[apostrophe], [doubleQuote]] ++ tripleMarks

/-- Backslashes and characters that are not printable are escaped; line feeds and tabs only on
demand. -/
def escaped (escapeBlanks : Bool) (cs : List Char) : List Char :=
  cs.flatMap fun c =>
    if !escapeBlanks && (c = '\n' || c = '\t') then [c]
    else if c = '\\' || !isPrintable c then escape c
    else [c]

def usable (marks : List Marks) (cs : List Char) : List Marks :=
  let marks := if cs.contains '\n' then marks.filter (·.length == 3) else marks
  marks.filter fun m => !occursIn m cs

/-- The text to write between marks, and the marks it may stand between, best first. -/
def content (marks : List Marks) (escapeBlanks : Bool) (cs : List Char) :
    List Char × List Marks :=
  let text := escaped escapeBlanks cs
  match usable marks text, text.getLast? with
  | [], _ =>
    let mark := quotationMark cs
    (cs.flatMap (quoteChar mark), [(marks.find? (·.contains mark)).getD [mark]])
  | found, none => (text, found)
  | found, some last =>
    -- marks that the text's last character does not run into come first
    let (clashing, clear) := found.partition fun m => m.head? == some last
    match clear with
    | [] => (text.dropLast ++ ['\\', last], clashing)
    | clear => (text, clear ++ clashing)

def enclose (marks : List Marks) (text : List Char) : List Char :=
  let m := marks.headD []
  m ++ text ++ m

def writeBetween (marks : List Marks) (text : String) : String :=
  let (inner, marks) := content marks false text.toList
  String.ofList (enclose marks inner)

def write (text : String) : String := writeBetween allMarks text

/-- Contents and remaining marks of a literal made of parts; `none` if the parts share no marks. A
part that is literal text, and not an expression, has its blanks escaped. -/
def joinParts : List Marks → List (List Char × Bool) → Option (List Char × List Marks)
  | marks, [] => some ([], marks)
  | marks, (part, isText) :: rest =>
    let (inner, left) := content marks isText part
    if left.any (marks.contains ·) then
      (joinParts left rest).map fun (more, marks) => (inner ++ more, marks)
    else none

def writeParts (parts : List (List Char × Bool)) : List Char :=
  match joinParts allMarks parts with
  | some (inner, marks) => enclose marks inner
  | none =>
    enclose [List.replicate 3 apostrophe]
      (parts.flatMap fun p => p.1.flatMap (quoteChar apostrophe))

end LuauCompiler.TextLiteral
