import LuauCompiler.Tree.Constant
import LuauCompiler.Tree.Operator

/-! One type holds every kind of node, since a tree may put any node in any place. A place that holds no
node holds `absent`, and a name that is not given is `none`. Operators and ways of access are nodes too. -/

namespace LuauCompiler

inductive Node where
  | absent
  -- whole programs
  | module (body typeIgnores : List Node)
  | interactive (body : List Node)
  | expression (body : Node)
  -- definitions
  | functionDef (isAsync : Bool) (name : Option String) (params : Node)
      (body decorators : List Node) (returns : Node) (typeComment : Option String)
  | classDef (name : Option String) (bases keywords body decorators : List Node)
  -- statements
  | returnStmt (value : Node)
  | delete (targets : List Node)
  | assign (targets : List Node) (value : Node) (typeComment : Option String)
  | augAssign (target op value : Node)
  | annAssign (target hint value : Node) (simple : Option Int)
  | forStmt (isAsync : Bool) (target iter : Node) (body orElse : List Node)
      (typeComment : Option String)
  | whileStmt (test : Node) (body orElse : List Node)
  | ifStmt (test : Node) (body orElse : List Node)
  | withStmt (isAsync : Bool) (items body : List Node) (typeComment : Option String)
  | matchStmt (subject : Node) (cases : List Node)
  | raise (exc cause : Node)
  | tryStmt (isStar : Bool) (body handlers orElse finalBody : List Node)
  | assert (test msg : Node)
  | importStmt (names : List Node)
  | importFrom (module : Option String) (names : List Node) (level : Option Int)
  | global (names : List String)
  | nonlocal (names : List String)
  | exprStmt (value : Node)
  | pass
  | breakStmt
  | continueStmt
  -- expressions
  | boolOp (op : Node) (values : List Node)
  | namedExpr (target value : Node)
  | binOp (left op right : Node)
  | unaryOp (op operand : Node)
  | lambda (params body : Node)
  | ifExp (test body orElse : Node)
  | dict (keys values : List Node)
  | set (elts : List Node)
  | listComp (elt : Node) (clauses : List Node)
  | setComp (elt : Node) (clauses : List Node)
  | generatorExp (elt : Node) (clauses : List Node)
  | dictComp (key value : Node) (clauses : List Node)
  | await (value : Node)
  | yield (value : Node)
  | yieldFrom (value : Node)
  | compare (left : Node) (ops comparators : List Node)
  | call (func : Node) (args keywords : List Node)
  | formattedValue (value : Node) (conversion : Option Int) (formatSpec : Node)
  | joinedStr (values : List Node)
  | constant (value : Constant) (kind : Option String)
  | attribute (value : Node) (attr : Option String) (access : Node)
  | subscript (value slice access : Node)
  | starred (value access : Node)
  | name (id : Option String) (access : Node)
  | list (elts : List Node) (access : Node)
  | tuple (elts : List Node) (access : Node)
  | slice (lower upper step : Node)
  -- parts of other nodes
  | clause (target iter : Node) (filters : List Node) (isAsync : Option Int)
  | handler (type : Node) (name : Option String) (body : List Node)
  | params (posOnly regular : List Node) (rest : Node) (kwOnly kwDefaults : List Node)
      (kwRest : Node) (defaults : List Node)
  | param (name : Option String) (hint : Node) (typeComment : Option String)
  | keyword (name : Option String) (value : Node)
  | alias (name : Option String) (asName : Option String)
  | withItem (context vars : Node)
  | matchCase (pattern guard : Node) (body : List Node)
  -- patterns
  | matchValue (value : Node)
  | matchSingleton (value : Constant)
  | matchSequence (patterns : List Node)
  | matchMapping (keys patterns : List Node) (rest : Option String)
  | matchClass (cls : Node) (patterns : List Node) (kwdAttrs : List String)
      (kwdPatterns : List Node)
  | matchStar (name : Option String)
  | matchAs (pattern : Node) (name : Option String)
  | matchOr (patterns : List Node)
  -- nodes of other versions of the language
  | typeAlias (name : Node) (typeParams : List Node) (value : Node)
  | index (value : Node)
  | caseBody (body : List Node)
  | patternOf (pattern : Node)
  | patternKeyword (pattern : Node)
  | mark (m : Mark)
  deriving Inhabited, Repr

namespace Node

def className : Node → String
  | .absent => "NoneType"
  | .module .. => "Module"
  | .interactive _ => "Interactive"
  | .expression _ => "Expression"
  | .functionDef isAsync .. => if isAsync then "AsyncFunctionDef" else "FunctionDef"
  | .classDef .. => "ClassDef"
  | .returnStmt _ => "Return"
  | .delete _ => "Delete"
  | .assign .. => "Assign"
  | .augAssign .. => "AugAssign"
  | .annAssign .. => "AnnAssign"
  | .forStmt isAsync .. => if isAsync then "AsyncFor" else "For"
  | .whileStmt .. => "While"
  | .ifStmt .. => "If"
  | .withStmt isAsync .. => if isAsync then "AsyncWith" else "With"
  | .matchStmt .. => "Match"
  | .raise .. => "Raise"
  | .tryStmt isStar .. => if isStar then "TryStar" else "Try"
  | .assert .. => "Assert"
  | .importStmt _ => "Import"
  | .importFrom .. => "ImportFrom"
  | .global _ => "Global"
  | .nonlocal _ => "Nonlocal"
  | .exprStmt _ => "Expr"
  | .pass => "Pass"
  | .breakStmt => "Break"
  | .continueStmt => "Continue"
  | .boolOp .. => "BoolOp"
  | .namedExpr .. => "NamedExpr"
  | .binOp .. => "BinOp"
  | .unaryOp .. => "UnaryOp"
  | .lambda .. => "Lambda"
  | .ifExp .. => "IfExp"
  | .dict .. => "Dict"
  | .set _ => "Set"
  | .listComp .. => "ListComp"
  | .setComp .. => "SetComp"
  | .generatorExp .. => "GeneratorExp"
  | .dictComp .. => "DictComp"
  | .await _ => "Await"
  | .yield _ => "Yield"
  | .yieldFrom _ => "YieldFrom"
  | .compare .. => "Compare"
  | .call .. => "Call"
  | .formattedValue .. => "FormattedValue"
  | .joinedStr _ => "JoinedStr"
  | .constant .. => "Constant"
  | .attribute .. => "Attribute"
  | .subscript .. => "Subscript"
  | .starred .. => "Starred"
  | .name .. => "Name"
  | .list .. => "List"
  | .tuple .. => "Tuple"
  | .slice .. => "Slice"
  | .clause .. => "comprehension"
  | .handler .. => "ExceptHandler"
  | .params .. => "arguments"
  | .param .. => "arg"
  | .keyword .. => "keyword"
  | .alias .. => "alias"
  | .withItem .. => "withitem"
  | .matchCase .. => "match_case"
  | .matchValue _ => "MatchValue"
  | .matchSingleton _ => "MatchSingleton"
  | .matchSequence _ => "MatchSequence"
  | .matchMapping .. => "MatchMapping"
  | .matchClass .. => "MatchClass"
  | .matchStar _ => "MatchStar"
  | .matchAs .. => "MatchAs"
  | .matchOr _ => "MatchOr"
  | .typeAlias .. => "TypeAlias"
  | .index _ => "Index"
  | .caseBody _ => "MatchCase"
  | .patternOf _ => "MatchPattern"
  | .patternKeyword _ => "MatchKeyword"
  | .mark m => m.className

def isAbsent : Node → Bool
  | .absent => true
  | _ => false

/-- What a node holds as its value, if it is of a kind that has one. -/
inductive Held where
  | node (n : Node)
  | constant (c : Constant)

def value? : Node → Option Held
  | .returnStmt v | .assign _ v _ | .augAssign _ _ v | .annAssign _ _ v _ | .exprStmt v
  | .namedExpr _ v | .dictComp _ v _ | .await v | .yield v | .yieldFrom v
  | .formattedValue v _ _ | .attribute v _ _ | .subscript v _ _ | .starred v _ | .keyword _ v
  | .matchValue v | .typeAlias _ _ v | .index v => some (.node v)
  | .constant c _ | .matchSingleton c => some (.constant c)
  | _ => none

def constant? : Node → Option Constant
  | .constant c _ => some c
  | _ => none

def isStrConstant : Node → Bool
  | .constant c _ => c.isStr
  | _ => false

def isList : Node → Bool
  | .list .. => true
  | _ => false

def id? : Node → Option String
  | .name id _ => id
  | _ => none

def isName : Node → Bool
  | .name .. => true
  | _ => false

def binaryOp? : Node → Option BinaryOp
  | .mark (.binary op) => some op
  | _ => none

def unaryOp? : Node → Option UnaryOp
  | .mark (.unary op) => some op
  | _ => none

def boolOp? : Node → Option BoolOp
  | .mark (.bool op) => some op
  | _ => none

def compareOp? : Node → Option CompareOp
  | .mark (.compare op) => some op
  | _ => none

end Node

/-- A name as it is written; one that is not given is written `None`. -/
def shownName (name : Option String) : String := name.getD "None"

/-- What the tag table and the choice of a form go by: the kind of a constant's value, and the
kind of node for everything else. -/
def Node.tag (n : Node) : String :=
  match n.constant? with
  | some c => c.typeName
  | none => n.className

end LuauCompiler
