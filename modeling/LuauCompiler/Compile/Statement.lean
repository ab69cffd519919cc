import LuauCompiler.Compile.Monad
import LuauCompiler.Text.Group
import LuauCompiler.Text.Template
import LuauCompiler.Tree.Basic

/-! Statements with blocks. -/

namespace LuauCompiler.Compile

/-! ## Expression statements and modules -/

def recordConstant (c : Constant) : Compile Unit := do
  match (← get).functions.reverse with
  | [] => pure ()
  | last :: earlier =>
    update fun s =>
      { s with functions := earlier.reverse ++ [{ last with constants := last.constants ++ [c] }] }

def expressionStatement (value : Node) (run : Compile Unit) : Compile Unit := do
  match value.constant? with
  | some c => recordConstant c
  | none => pure ()
  within (fun f => { f with docstring := value.constant?.isSome }) (spread run)
  emitEntry .void

/-- A module is emitted as the entries of its body. Only the first entry of the output stays, which
is the body when nothing was emitted before it. -/
def moduleBody (body : List (Compile Unit)) : Compile Unit := do
  block body
  match (← get).output with
  | .block (first :: _) => update fun s => { s with output := first }
  | _ => fail .missingPart

/-! ## Branches -/

inductive Otherwise where
  | nothing
  /-- Another test, with the whole statement that it belongs to. -/
  | elseIf (test statement : Compile Unit)
  | orElse (body : List (Compile Unit))

/-- Removes the first line that the statement emits and its last one. -/
def withoutEnds (statement : Compile Unit) : Compile Unit := do
  let before := ((← get).output.entries?.getD []).length
  statement
  match (← get).output with
  | .block entries =>
    update fun s => { s with output := .block (entries.eraseIdx before).dropLast }
  | _ => fail .missingPart

def branch (test : Compile Unit) (body : List (Compile Unit)) (otherwise : Otherwise) :
    Compile Unit := do
  emit ("if " ++ (← inline test) ++ " then")
  block body
  match otherwise with
  | .nothing => pure ()
  | .elseIf test statement =>
    emit ("elseif " ++ (← inline test) ++ " then")
    withoutEnds statement
  | .orElse body =>
    emit "else"
    block body
  emit "end"

/-- A case of a match statement. A node of another kind may have a pattern without a body. -/
structure Case where
  pattern : Node
  body : Option (List (Compile Unit))

def caseLiteral (c : Constant) : Except Failure String :=
  match c with
  | .str text => .ok ("\"" ++ text ++ "\"")
  | c => c.display

def matchCase (subject : Compile Unit) (isFirst : Bool) : Option Case → Compile Unit
  | none => fail .missingPart
  | some case =>
    match case.pattern.value? with
    | none => reject "Match statement requires a compile-time constant, not a variable."
    | some (.node (.constant c _)) => do
      let subject ← inline subject
      let literal ← ofExcept (caseLiteral c)
      emit ((if isFirst then "" else "else") ++ "if " ++ subject ++ " == " ++ literal ++ " then")
      match case.body with
      | some body => block body
      | none => fail .missingPart
    | some _ => fail .missingPart

def matchCases (subject : Compile Unit) : (isFirst : Bool) → List (Option Case) → Compile Unit
  | _, [] => return ()
  | isFirst, case :: rest => do
    matchCase subject isFirst case
    matchCases subject false rest

def matchStatement (subject : Compile Unit) (cases : List (Option Case)) : Compile Unit := do
  matchCases subject true cases
  emit "end"

/-! ## Loops -/

def nextLoop : Compile String := do
  update fun s => { s with ledger := s.ledger.addLoop }
  return (← get).ledger.loopLabel

def loopBody (body : List (Compile Unit)) : Compile Unit := do
  let label ← nextLoop
  within (fun f => { f with loopLabel := label }) (block body)

def whileLoop (test : Compile Unit) (body : List (Compile Unit)) : Compile Unit := do
  emit ("while " ++ (← inline test) ++ " do")
  loopBody body
  emit "end"

def loopHeader (overText : Bool) (target iter : String) : String :=
  if overText then "for " ++ target ++ " in string.gmatch(" ++ iter ++ ",\".\") do"
  else "for " ++ target ++ " in " ++ iter ++ " do"

/-- What is iterated over is a text: the tag of its name decides, and without one a constant
counts as a text. -/
def iteratesText (iterNode : Node) (iter : String) : Compile Bool := do
  match ← tagOf iter with
  | some tag => return tag == "str"
  | none => return iterNode.constant?.isSome

/-- The header of a loop over a generator. The call is filled in like a template, so braces in its
arguments are read as fields. -/
def generatorHeader (function target iter : String) : Except Failure String :=
  match Text.firstGroup? iter with
  | none => .error .missingPart
  | some args =>
    let args := if args.isEmpty then "nil" else args
    Text.Template.fill [("target", target), ("iter", iter)]
      ("generatorLoop('" ++ function ++ "', " ++ function ++ ", " ++ args ++
        ")(function(\x7btarget\x7d)")

def forLoop (iterNode : Node) (target iter : Compile Unit) (body : List (Compile Unit)) :
    Compile Unit := do
  let target ← inline target
  let iter ← inline iter
  let function := Text.dropGroups iter
  if (← get).generators.contains (some function) then
    emit (← ofExcept (generatorHeader function target iter))
    loopBody body
    emit "end)"
  else
    emit (loopHeader (← iteratesText iterNode iter) target iter)
    loopBody body
    emit "end"

/-! ## Blocks with set-up and clean-up -/

structure WithItem where
  context : Compile Unit
  vars : Option (Compile Unit)

def withItemLine : Option WithItem → Compile String
  | none => fail .missingPart
  | some item => do
    let binding ← match item.vars with
      | none => pure ""
      | some vars => do pure ("local " ++ (← inline vars) ++ " = ")
    return binding ++ (← inline item.context)

/-- The body with the lines of the items in front, the last item first. -/
def withStatement (first last : String) (items : List (Option WithItem))
    (body : List (Compile Unit)) : Compile Unit := do
  emit first
  block body
  let lines ← all (items.map withItemLine)
  each (lines.map prepend)
  emit last

structure Handler where
  type : Node
  name : Option String
  body : List (Compile Unit)

def isNamed : Option Handler → Bool
  | some h => h.type.isName
  | none => false

def handlerBranch (isFirst : Bool) (errorName : String) (name : Option String) :
    Compile Unit := do
  emit ((if isFirst then "if" else "elseif") ++ " err:find('" ++ errorName ++ "') then")
  match name with
  | some name => emit ("\tlocal " ++ name ++ " = err")
  | none => pure ()

def handlerBody (isFirst : Bool) : Option Handler → Compile Unit
  | none => fail .missingPart
  | some handler => do
    if handler.type.isName then
      handlerBranch isFirst (shownName handler.type.id?) handler.name
    block handler.body

/-- The handlers from a position on. A chain of branches that the first handler opened is closed
after the last one. -/
def handlers (chained : Bool) : (position : Nat) → List (Option Handler) → Compile Unit
  | _, [] => return ()
  | position, handler :: rest => do
    emit ("--> try: " ++ toString position)
    handlerBody (position = 0) handler
    if rest.isEmpty && chained then emit "end"
    handlers chained (position + 1) rest

def tryStatement (body : List (Compile Unit)) (hs : List (Option Handler))
    (finalBody : List (Compile Unit)) : Compile Unit := do
  emit "--> try statement start:"
  emit "xpcall(function()"
  block body
  emit "end, function(err)"
  handlers (hs.head?.any isNamed) 0 hs
  emit "end)"
  block finalBody
  emit "--> try statement end"

/-! ## Statements around one expression -/

def assertion (test : Compile Unit) : Compile Unit := do
  emit ("assert(" ++ (← inline test) ++ ")")

def raiseError (exc : Compile Unit) : Compile Unit := do
  emit ("error(" ++ (← inline exc) ++ ")")

end LuauCompiler.Compile
