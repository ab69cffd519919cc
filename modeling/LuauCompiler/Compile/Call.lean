import LuauCompiler.Compile.Monad
import LuauCompiler.Number.Integer
import LuauCompiler.Text.Basic
import LuauCompiler.Tree.Source

/-! A call is emitted as a call, except for the methods that a list has: those become operations of the
table library. The operands of such an operation keep their source text. -/

namespace LuauCompiler.Compile

/-- The text of an operand of a list method: names and attributes as they are, a list in braces,
everything else as in the source. -/
def operandText : Node → Except Failure String
  | .name id _ => .ok (shownName id)
  | .attribute value attr _ => (operandText value).map (· ++ "." ++ shownName attr)
  | .list elts _ =>
    (elts.mapM Source.ofNode).map fun texts => "\x7b" ++ Text.commaSeparated texts ++ "\x7d"
  | n => Source.ofNode n

inductive ListMethod where
  | append | reverse | clear | pop | copy | insert | remove | sort | count | index | extend
  deriving DecidableEq, Repr

def ListMethod.ofName? : String → Option ListMethod
  | "append" => some .append
  | "reverse" => some .reverse
  | "clear" => some .clear
  | "pop" => some .pop
  | "copy" => some .copy
  | "insert" => some .insert
  | "remove" => some .remove
  | "sort" => some .sort
  | "count" => some .count
  | "index" => some .index
  | "extend" => some .extend
  | _ => none

def argument (args : List Node) (i : Nat) : Except Failure Node :=
  match args[i]? with
  | some n => .ok n
  | none => .error .outOfRange

/-- The position that a constant number denotes, counted from one. -/
def successorText (n : Node) : Except Failure String :=
  match n.value? with
  | none => .error .missingPart
  | some (.node _) => .error .wrongKind
  | some (.constant c) =>
    match c.succ? with
    | some next => next.display
    | none => .error .wrongKind

/-- The position that a numeral denotes, counted from one. -/
def position (numeral : String) : Except Failure Int :=
  match Integer.numeral? numeral with
  | none => .error .badValue
  | some (negative, digits) =>
    if Json.digitLimit < digits.length then .error .badValue
    else .ok (Integer.value negative digits + 1)

def descending : String := "(function(a,b) return a > b end)"

def countText (object value : String) : String :=
  "\n(function(tbl, val)\n\tlocal result = 0\n\tfor _,v in tbl do\n\t\tif v == val then\n" ++
    "\t\t\tresult += 1\n\t\tend\n\tend\n\treturn result\nend)(" ++ object ++ ", " ++ value ++ ")\n"

def findBetweenText (object value start stop : String) : String :=
  "\n(function(tbl, val, start, stop)\n\tfor index = start, stop do\n" ++
    "\t\tif tbl[index] == val then\n\t\t\treturn index\n\t\tend\n\tend\n\treturn nil\nend)(" ++
    object ++ ", " ++ value ++ ", " ++ start ++ ", " ++ stop ++ ")"

def extendText (source object : String) : String :=
  "\nfor _,i in " ++ source ++ " do\n    table.insert(" ++ object ++ ",i)\n\n"

/-- The search for a value, from a position and up to a position if they are given. -/
def indexCallText (object : Node) (args : List Node) : Except Failure String := do
  let object ← operandText object
  let value ← operandText (← argument args 0)
  match args with
  | [_] => return "table.find(" ++ object ++ "," ++ value ++ ")"
  | [_, start] =>
    return "table.find(" ++ object ++ "," ++ value ++ "," ++ (← operandText start) ++ ")"
  | _ =>
    let start ← operandText (← argument args 1)
    let stop ← operandText (← argument args 2)
    return findBetweenText object value start stop

def listMethodText (m : ListMethod) (object : Node) (args : List Node) : Except Failure String := do
  match m with
  | .append =>
    let value ← argument args 0
    let object ← operandText object
    return "table.insert(" ++ object ++ "," ++ (← operandText value) ++ ")"
  | .reverse | .sort => return "table.sort(" ++ (← operandText object) ++ "," ++ descending ++ ")"
  | .clear => return "table.clear(" ++ (← operandText object) ++ ")"
  | .pop =>
    let position ← argument args 0
    let object ← operandText object
    return "table.remove(" ++ object ++ "," ++ (← successorText position) ++ ")"
  | .copy => return "table.copy(" ++ (← operandText object) ++ ")"
  | .insert =>
    let first ← argument args 0
    let object ← operandText object
    let position ← position (← operandText first)
    let value ← operandText (← argument args 1)
    return "table.insert(" ++ object ++ "," ++ (← Constant.intText position) ++ "," ++ value ++ ")"
  | .remove =>
    let value ← argument args 0
    let object ← operandText object
    return "table.remove(" ++ object ++ "," ++ (← operandText value) ++ ")"
  | .count =>
    let value ← argument args 0
    let object ← operandText object
    return countText object (← operandText value)
  | .index => indexCallText object args
  | .extend =>
    let source ← argument args 0
    let source ← operandText source
    return extendText source (← operandText object)

/-- The label of a keyword argument. Only a keyword has one, though it may lack a name. -/
inductive Label where
  | name (name : Option String)
  | missing

structure NamedArgument where
  label : Label
  value : Option (Compile Unit)

/-- The texts of named arguments by name; a repeated name keeps its last text. The value comes
before the label. -/
def namedTexts : List NamedArgument → Compile (List (Option String × String))
  | [] => return []
  | ⟨_, none⟩ :: _ => fail .missingPart
  | ⟨label, some value⟩ :: rest => do
    let text ← inline value
    match label with
    | .missing => fail .missingPart
    | .name name =>
      let others ← namedTexts rest
      return if others.any (·.1 == name) then others else (name, text) :: others

/-- Sorting is supported in descending order only. -/
def sortCall (object : Node) (keywords : List NamedArgument) : Compile Unit := do
  match ← namedTexts keywords with
  | [(some "reverse", text)] =>
    if text.isEmpty then reject "The key kwarg is not supported."
    emit (← ofExcept (listMethodText .sort object []))
  | _ => reject "The key kwarg is not supported."

def listMethod? : Node → Option (ListMethod × Node)
  | .attribute value (some attr) _ => (ListMethod.ofName? attr).map (·, value)
  | _ => none

def call (receiver : Option String) (funcNode : Node) (args : List Node) (func : Compile Unit)
    (argRuns : List (Compile Unit)) (keywords : List NamedArgument) : Compile Unit := do
  let name ← inline func
  if name = "complex" then needs "complex"
  let name := match receiver with
    | some r => if r.isEmpty then name else r ++ ":" ++ name
    | none => name
  let texts ← inlineEach argRuns
  match listMethod? funcNode with
  | some (.sort, object) => sortCall object keywords
  | some (m, object) => emit (← ofExcept (listMethodText m object args))
  | none => emit (name ++ "(" ++ Text.commaSeparated texts ++ ")")

end LuauCompiler.Compile
