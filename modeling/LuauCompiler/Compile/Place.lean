import LuauCompiler.Code.Names
import LuauCompiler.Compile.Monad
import LuauCompiler.Text.Basic
import LuauCompiler.Tree.Basic

/-! Names, attributes, subscripts and slices. -/

namespace LuauCompiler.Compile

/-- A name stands for itself; one that is not given leaves an empty entry. -/
def nameReference : Option String → Compile Unit
  | some name => emit name
  | none => emitEntry .void

/-- A literal needs parentheses before a dot. It is recognised by its first and last character. -/
def isLiteralText (text : String) : Bool :=
  Text.enclosedBy '"' '"' text || Text.enclosedBy '\x27' '\x27' text ||
    Text.enclosedBy '\x7b' '\x7d' text || Text.enclosedBy '[' ']' text ||
    Text.enclosedBy '\x60' '\x60' text

def memberAccess (value : Compile Unit) (name : Option String) : Compile Unit := do
  let object ← inline value
  let object := if isLiteralText object then "(" ++ object ++ ")" else object
  emit (object ++ "." ++ shownName name)

/-- The pieces that the index splitter has cut off, and what is left of the index. -/
structure Cut where
  depth : Int
  pieces : List (List Char)
  rest : List Char

/-- One character of the index. A comma outside of parentheses cuts what is left at its first
comma. -/
def Cut.step (s : Cut) (c : Char) : Cut :=
  if c = '(' then { s with depth := s.depth + 1 }
  else if c = ')' then { s with depth := s.depth - 1 }
  else if c = ',' && s.depth = 0 then
    { s with
      pieces := s.pieces ++ [s.rest.takeWhile (· != ',')]
      rest := (s.rest.dropWhile (· != ',')).drop 1 }
  else s

/-- The indexes of a subscript: `a[i, j]` is indexed twice. -/
def splitIndex (index : List Char) : List (List Char) :=
  let s := index.foldl Cut.step ⟨0, [], index⟩
  s.pieces ++ [s.rest]

def indexText (index : String) : String :=
  String.join ((splitIndex index.toList).map fun piece => "[" ++ String.ofList piece ++ "]")

def subscript (value slice : Compile Unit) : Compile Unit := do
  let index ← inline slice
  let name ← inline value
  if reservedWords.contains name then reject ("'" ++ name ++ "'is a reserved Luau keyword.")
  emit (name ++ indexText index)

def bound : Option (Compile Unit) → Compile String
  | none => return "0"
  | some c => inline c

def slice (lower upper step : Option (Compile Unit)) : Compile Unit := do
  let lower ← bound lower
  let upper ← bound upper
  let step ← bound step
  emit ("slice(" ++ lower ++ ", " ++ upper ++ ", " ++ step ++ ")")

def starred (value : Compile Unit) : Compile Unit := do
  emit ("unpack(" ++ (← inline value) ++ ")")

end LuauCompiler.Compile
