import LuauCompiler.Compile.Monad

/-! A comprehension is a function that is called at once: it opens a loop for each clause and a branch
for each filter, stores the element, and closes all of them on one line. -/

namespace LuauCompiler.Compile

/-- A clause with its parts. A node of another kind has a target, or a target and something to
iterate over, or none of the parts. -/
structure Clause where
  target : Option (Compile Unit)
  iter : Option (Compile Unit)
  filters : Option (List (Compile Unit))

def Clause.empty : Clause := ⟨none, none, none⟩

def openFilter (filter : Compile Unit) : Compile Unit := do
  emit ("if " ++ (← inline filter) ++ " then")

def requirePart {α : Type} : Option α → Compile α
  | some part => return part
  | none => fail .missingPart

def openClause (clause : Clause) : Compile Unit := do
  let target ← inline (← requirePart clause.target)
  let iter ← inline (← requirePart clause.iter)
  emit ("for " ++ target ++ " in " ++ iter ++ " do")
  each ((← requirePart clause.filters).map openFilter)

def clauseDepth (clause : Clause) : Nat := (clause.filters.getD []).length + 1

def clausesDepth : List Clause → Nat
  | [] => 0
  | clause :: rest => clauseDepth clause + clausesDepth rest

def ends (n : Nat) : String := String.intercalate " " (List.replicate n "end")

/-- A comprehension; `start` makes the result and `store` writes the line that adds to it. -/
def comprehension (start : Compile Unit) (clauses : List Clause)
    (store : Compile String) : Compile Unit := do
  emit "(function()"
  start
  each (clauses.map openClause)
  emit (← store)
  emit (ends (clausesDepth clauses))
  emit "return result"
  emit "end)()"

def startTable : Compile Unit := emit "local result = \x7b\x7d"

def startDict : Compile Unit := do
  needs "dict"
  emit "local result = dict \x7b\x7d"
  needs "dict"

def listComprehension (elt : Compile Unit) (clauses : List Clause) : Compile Unit :=
  comprehension startTable clauses do
    return "table.insert(result._data,\x7b" ++ (← inline elt) ++ "\x7d"

def setComprehension (elt : Compile Unit) (clauses : List Clause) : Compile Unit :=
  comprehension startTable clauses do
    return "table.insert(result, " ++ (← inline elt) ++ ")"

def generatorExpression (elt : Compile Unit) (clauses : List Clause) : Compile Unit :=
  comprehension startTable clauses do
    return "result.append(" ++ (← inline elt) ++ ")"

def dictComprehension (key value : Compile Unit) (clauses : List Clause) : Compile Unit :=
  comprehension startDict clauses do
    let key ← inline key
    let value ← inline value
    return "result[" ++ key ++ "] = " ++ value

end LuauCompiler.Compile
