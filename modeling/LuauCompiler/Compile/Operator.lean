import LuauCompiler.Compile.Monad
import LuauCompiler.Tree.Basic

/-! Arithmetic, bit, Boolean and comparison operators as expressions of the emitted language. Whether
`+` and `*` act on texts is decided by the operands: a text constant, or a name tagged as a text. -/

namespace LuauCompiler.Compile

def infixText (sign left right : String) : String := left ++ " " ++ sign ++ " " ++ right

def callText (function left right : String) : String :=
  function ++ "(" ++ left ++ ", " ++ right ++ ")"

/-- The text of a binary operation; matrix multiplication has none. -/
def binaryText? (op : BinaryOp) (left right : String) : Option String :=
  match op with
  | .add => some (infixText "+" left right)
  | .sub => some (infixText "-" left right)
  | .mult => some (infixText "*" left right)
  | .div => some (infixText "/" left right)
  | .mod => some (infixText "%" left right)
  | .pow => some (infixText "^" left right)
  | .floorDiv => some ("math.floor(" ++ infixText "/" left right ++ ")")
  | .lShift => some (callText "bit32.lshift" left right)
  | .rShift => some (callText "bit32.rshift" left right)
  | .bitOr => some (callText "bit32.bor" left right)
  | .bitAnd => some (callText "bit32.band" left right)
  | .bitXor => some (callText "bit32.bxor" left right)
  | .matMult => none

def isSupported (op : BinaryOp) : Bool := op != .matMult

def binaryOperator (op : Node) : Compile BinaryOp :=
  match op.binaryOp? with
  | some op => if isSupported op then return op else fail .unknownKey
  | none => fail .unknownKey

def parenthesised (text : String) : String := "(" ++ text ++ ")"

def plainBinary (op : BinaryOp) (left right : String) : Compile String :=
  match binaryText? op left right with
  | some text => return parenthesised text
  | none => fail .unknownKey

/-- The operand is a text: a text constant or a name tagged as one. -/
def isText (n : Node) (text : String) : Compile Bool := do
  return n.isStrConstant || (← tagOf text) == some "str"

/-- The operand is a list: a list display or a name tagged as one. -/
def isListLike (n : Node) (text : String) : Compile Bool := do
  return (← tagOf text) == some "list" || n.isList

/-- A product; a text is repeated. -/
def product (leftNode rightNode : Node) (left right : String) : Compile String := do
  if ← isText leftNode left then return "string.rep(" ++ left ++ "," ++ right ++ ")"
  if ← isText rightNode right then return "string.rep(" ++ right ++ "," ++ left ++ ")"
  plainBinary .mult left right

/-- A sum; texts are concatenated, and a list takes a list only. -/
def sum (leftNode rightNode : Node) (left right : String) : Compile String := do
  if ← isListLike leftNode left then
    if !(← isListLike rightNode right) then reject "Not supported."
  match ← isText leftNode left, ← isText rightNode right with
  | true, true => return left ++ " .. " ++ right
  | true, false => return left ++ " .. tostring(" ++ right ++ ")"
  | false, true => return "tostring(" ++ left ++ ") .. " ++ right
  | false, false => plainBinary .add left right

def binaryOperation (leftNode op rightNode : Node) (left right : Compile Unit) :
    Compile Unit := do
  let op ← binaryOperator op
  let left ← inline left
  let right ← inline right
  match op with
  | .mult => emit (← product leftNode rightNode left right)
  | .add => emit (← sum leftNode rightNode left right)
  | op => emit (← plainBinary op left right)

def unaryText (op : UnaryOp) (operand : String) : String :=
  match op with
  | .uSub => "-" ++ operand
  | .uAdd => operand
  | .not => "not " ++ operand
  | .invert => "bit32.bnot(" ++ operand ++ ")"

def unaryOperation (op : Node) (operand : Compile Unit) : Compile Unit := do
  match op.unaryOp? with
  | some op => emit (unaryText op (← inline operand))
  | none => fail .unknownKey

def boolSign : BoolOp → String
  | .and => " and "
  | .or => " or "

/-- A Boolean chain. The operator is looked up once the values are known. -/
def boolOperation (op : Node) (values : List (Compile Unit)) : Compile Unit := do
  let texts ← inlineEach values
  match op.boolOp? with
  | some op => emit (parenthesised (String.intercalate (boolSign op) texts))
  | none => fail .unknownKey

/-! ## Comparisons -/

def compareSign? : CompareOp → Option String
  | .eq | .is => some "=="
  | .notEq | .isNot => some "~="
  | .lt => some "<"
  | .ltE => some "<="
  | .gt => some ">"
  | .gtE => some ">="
  | .isIn | .notIn => none

inductive Membership where
  | inList
  | inText
  | asKey
  deriving DecidableEq, Repr

def Membership.ofTag : Option String → Membership
  | some "List" => .inList
  | some "Str" => .inText
  | _ => .asKey

def Membership.text (m : Membership) (element container : String) : String :=
  match m with
  | .inList => "(table.find(" ++ container ++ ", " ++ element ++ ") ~= nil)"
  | .inText => "(string.find(" ++ container ++ ", " ++ element ++ ", 1, true) ~= nil)"
  | .asKey => "(" ++ container ++ "[" ++ element ++ "] ~= nil)"

/-- The test that fits a container. A name goes by its tag, which must not claim that the name is a
constant. -/
def membership (container : Node) : Compile Membership := do
  match container with
  | .name id _ =>
    let tag ← tagOf (shownName id)
    if tag == some "Constant" then fail .missingPart
    return .ofTag tag
  | .constant (.str _) _ => return .inText
  | .list .. => return .inList
  | _ => return .asKey

def membershipLink (negated : Bool) (rightNode : Node) (left right : String) :
    Compile String := do
  let m ← membership rightNode
  return (if negated then "not" else "") ++ m.text left right

/-- One link of a comparison chain. What is no comparison is written `None`. -/
def link (op rightNode : Node) (left right : String) : Compile String :=
  match op.compareOp? with
  | some .isIn => membershipLink false rightNode left right
  | some .notIn => membershipLink true rightNode left right
  | other => return infixText (shownName (other.bind compareSign?)) left right

/-- The links of a chain, joined by `and`; each takes its left side from the one before. -/
def chain : (left : String) → List Node → List (Node × Compile Unit) → Compile String
  | _, [], _ => return ""
  | _, _ :: _, [] => fail .outOfRange
  | left, op :: ops, (node, c) :: rest => do
    let right ← inline c
    let first ← link op node left right
    if ops.isEmpty then return first
    return first ++ " and " ++ (← chain right ops rest)

def comparison (left : Compile Unit) (ops : List Node)
    (comparators : List (Node × Compile Unit)) : Compile Unit := do
  let left ← inline left
  emit (← chain left ops comparators)

def conditional (test body orElse : Compile Unit) : Compile Unit := do
  let test ← inline test
  let body ← inline body
  let orElse ← inline orElse
  emit (test ++ " and " ++ body ++ " or " ++ orElse)

end LuauCompiler.Compile
