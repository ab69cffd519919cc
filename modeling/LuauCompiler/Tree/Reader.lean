import LuauCompiler.Tree.Basic

/-! A tree arrives as JSON: a node is an object whose field `_` names its kind. An operator or a way of
access may also be given by its bare name. A missing list is empty, a missing access is `Load`, and any
other missing field is vacant. A value that is no node of a known kind leaves its place vacant. -/

namespace LuauCompiler

def readInt? (text : String) : Option Int :=
  let digits (cs : List Char) : Option Nat :=
    if cs.isEmpty || !cs.all Char.isDigit then none else some (Double.digitsValue cs)
  match text.toList with
  | '-' :: rest => (digits rest).map fun n => -Int.ofNat n
  | '+' :: rest => (digits rest).map Int.ofNat
  | rest => (digits rest).map Int.ofNat

namespace Constant

def hexBytes : List Char → List UInt8
  | a :: b :: rest => UInt8.ofNat ((Json.hexValues? [a, b]).getD 0) :: hexBytes rest
  | _ => []

/-- Null, truth values, texts and integers stand for themselves; the other kinds are objects with
one field that names the kind. -/
def ofJson : Json → Constant
  | .bool b => .bool b
  | .int n => .int n
  | .real x => .float x
  | .str s => .str s
  | .obj [("int", .str s)] => .int ((readInt? s).getD 0)
  | .obj [("float", .str s)] => .float ((Double.read? s).getD .nan)
  | .obj [("complex", .arr [.str re, .str im])] =>
    .complex ((Double.read? re).getD .nan) ((Double.read? im).getD .nan)
  | .obj [("bytes", .str s)] => .bytes (hexBytes s.toList)
  | .obj [("ellipsis", _)] => .ellipsis
  | _ => .none

end Constant

def Node.ofWord (name : String) : Node :=
  match Mark.all.find? fun m => m.className = name with
  | some m => .mark m
  | none => .absent

/-- An operator or a way of access: a bare name, or a node. -/
def Node.ofWordOr (json : Json) (node : Node) : Node :=
  match json with
  | .str word => .ofWord word
  | _ => node

/-- A field of an object, read both as data and as the node or nodes that it may hold. -/
structure FieldValue where
  json : Json
  node : Node
  nodes : List Node

structure Fields where
  values : List (String × FieldValue)

namespace Fields

def json? (f : Fields) (key : String) : Option Json :=
  (f.values.lookup key).map (·.json)

def node (f : Fields) (key : String) : Node :=
  match f.values.lookup key with
  | some v => v.node
  | none => .absent

def nodes (f : Fields) (key : String) : List Node :=
  match f.values.lookup key with
  | some v => v.nodes
  | none => []

def text? (f : Fields) (key : String) : Option String :=
  match f.json? key with
  | some (.str s) => some s
  | _ => none

def int? (f : Fields) (key : String) : Option Int :=
  match f.json? key with
  | some (.int n) => some n
  | _ => none

def texts (f : Fields) (key : String) : List String :=
  match f.json? key with
  | some (.arr items) => items.filterMap fun | .str s => some s | _ => none
  | _ => []

def constant (f : Fields) (key : String) : Constant :=
  match f.json? key with
  | some j => .ofJson j
  | none => .none

def word (f : Fields) (key : String) : Node :=
  match f.values.lookup key with
  | some v => .ofWordOr v.json v.node
  | none => .absent

def words (f : Fields) (key : String) : List Node :=
  match f.values.lookup key with
  | some ⟨.arr items, _, nodes⟩ => List.zipWith .ofWordOr items nodes
  | _ => []

def access (f : Fields) (key : String) : Node :=
  if (f.values.lookup key).isNone then .mark (.access .load) else f.word key

end Fields

def Node.ofFields (cls : String) (f : Fields) : Node :=
  match cls with
  | "Module" => .module (f.nodes "body") (f.nodes "type_ignores")
  | "Interactive" => .interactive (f.nodes "body")
  | "Expression" => .expression (f.node "body")
  | "FunctionDef" | "AsyncFunctionDef" =>
    .functionDef (cls = "AsyncFunctionDef") (f.text? "name") (f.node "args") (f.nodes "body")
      (f.nodes "decorator_list") (f.node "returns") (f.text? "type_comment")
  | "ClassDef" =>
    .classDef (f.text? "name") (f.nodes "bases") (f.nodes "keywords") (f.nodes "body")
      (f.nodes "decorator_list")
  | "Return" => .returnStmt (f.node "value")
  | "Delete" => .delete (f.nodes "targets")
  | "Assign" => .assign (f.nodes "targets") (f.node "value") (f.text? "type_comment")
  | "AugAssign" => .augAssign (f.node "target") (f.word "op") (f.node "value")
  | "AnnAssign" =>
    .annAssign (f.node "target") (f.node "annotation") (f.node "value") (f.int? "simple")
  | "For" | "AsyncFor" =>
    .forStmt (cls = "AsyncFor") (f.node "target") (f.node "iter") (f.nodes "body")
      (f.nodes "orelse") (f.text? "type_comment")
  | "While" => .whileStmt (f.node "test") (f.nodes "body") (f.nodes "orelse")
  | "If" => .ifStmt (f.node "test") (f.nodes "body") (f.nodes "orelse")
  | "With" | "AsyncWith" =>
    .withStmt (cls = "AsyncWith") (f.nodes "items") (f.nodes "body") (f.text? "type_comment")
  | "Match" => .matchStmt (f.node "subject") (f.nodes "cases")
  | "Raise" => .raise (f.node "exc") (f.node "cause")
  | "Try" | "TryStar" =>
    .tryStmt (cls = "TryStar") (f.nodes "body") (f.nodes "handlers") (f.nodes "orelse")
      (f.nodes "finalbody")
  | "Assert" => .assert (f.node "test") (f.node "msg")
  | "Import" => .importStmt (f.nodes "names")
  | "ImportFrom" => .importFrom (f.text? "module") (f.nodes "names") (f.int? "level")
  | "Global" => .global (f.texts "names")
  | "Nonlocal" => .nonlocal (f.texts "names")
  | "Expr" => .exprStmt (f.node "value")
  | "Pass" => .pass
  | "Break" => .breakStmt
  | "Continue" => .continueStmt
  | "BoolOp" => .boolOp (f.word "op") (f.nodes "values")
  | "NamedExpr" => .namedExpr (f.node "target") (f.node "value")
  | "BinOp" => .binOp (f.node "left") (f.word "op") (f.node "right")
  | "UnaryOp" => .unaryOp (f.word "op") (f.node "operand")
  | "Lambda" => .lambda (f.node "args") (f.node "body")
  | "IfExp" => .ifExp (f.node "test") (f.node "body") (f.node "orelse")
  | "Dict" => .dict (f.nodes "keys") (f.nodes "values")
  | "Set" => .set (f.nodes "elts")
  | "ListComp" => .listComp (f.node "elt") (f.nodes "generators")
  | "SetComp" => .setComp (f.node "elt") (f.nodes "generators")
  | "GeneratorExp" => .generatorExp (f.node "elt") (f.nodes "generators")
  | "DictComp" => .dictComp (f.node "key") (f.node "value") (f.nodes "generators")
  | "Await" => .await (f.node "value")
  | "Yield" => .yield (f.node "value")
  | "YieldFrom" => .yieldFrom (f.node "value")
  | "Compare" => .compare (f.node "left") (f.words "ops") (f.nodes "comparators")
  | "Call" => .call (f.node "func") (f.nodes "args") (f.nodes "keywords")
  | "FormattedValue" =>
    .formattedValue (f.node "value") (f.int? "conversion") (f.node "format_spec")
  | "JoinedStr" => .joinedStr (f.nodes "values")
  | "Constant" => .constant (f.constant "value") (f.text? "kind")
  | "Attribute" => .attribute (f.node "value") (f.text? "attr") (f.access "ctx")
  | "Subscript" => .subscript (f.node "value") (f.node "slice") (f.access "ctx")
  | "Starred" => .starred (f.node "value") (f.access "ctx")
  | "Name" => .name (f.text? "id") (f.access "ctx")
  | "List" => .list (f.nodes "elts") (f.access "ctx")
  | "Tuple" => .tuple (f.nodes "elts") (f.access "ctx")
  | "Slice" => .slice (f.node "lower") (f.node "upper") (f.node "step")
  | "comprehension" =>
    .clause (f.node "target") (f.node "iter") (f.nodes "ifs") (f.int? "is_async")
  | "ExceptHandler" => .handler (f.node "type") (f.text? "name") (f.nodes "body")
  | "arguments" =>
    .params (f.nodes "posonlyargs") (f.nodes "args") (f.node "vararg") (f.nodes "kwonlyargs")
      (f.nodes "kw_defaults") (f.node "kwarg") (f.nodes "defaults")
  | "arg" => .param (f.text? "arg") (f.node "annotation") (f.text? "type_comment")
  | "keyword" => .keyword (f.text? "arg") (f.node "value")
  | "alias" => .alias (f.text? "name") (f.text? "asname")
  | "withitem" => .withItem (f.node "context_expr") (f.node "optional_vars")
  | "match_case" => .matchCase (f.node "pattern") (f.node "guard") (f.nodes "body")
  | "MatchValue" => .matchValue (f.node "value")
  | "MatchSingleton" => .matchSingleton (f.constant "value")
  | "MatchSequence" => .matchSequence (f.nodes "patterns")
  | "MatchMapping" => .matchMapping (f.nodes "keys") (f.nodes "patterns") (f.text? "rest")
  | "MatchClass" =>
    .matchClass (f.node "cls") (f.nodes "patterns") (f.texts "kwd_attrs") (f.nodes "kwd_patterns")
  | "MatchStar" => .matchStar (f.text? "name")
  | "MatchAs" => .matchAs (f.node "pattern") (f.text? "name")
  | "MatchOr" => .matchOr (f.nodes "patterns")
  | "TypeAlias" => .typeAlias (f.node "name") (f.nodes "type_params") (f.node "value")
  | "Index" => .index (f.node "value")
  | "MatchCase" => .caseBody (f.nodes "body")
  | "MatchPattern" => .patternOf (f.node "pattern")
  | "MatchKeyword" => .patternKeyword (f.node "pattern")
  | _ => .ofWord cls

mutual

def Node.ofJson : Json → Node
  | .obj fields =>
    match fields.lookup "_" with
    | some (.str cls) => Node.ofFields cls ⟨fieldsOfJson fields⟩
    | _ => .absent
  | _ => .absent

def Node.listOfJson : Json → List Node
  | .arr items => nodesOfJson items
  | _ => []

def nodesOfJson : List Json → List Node
  | [] => []
  | item :: rest => Node.ofJson item :: nodesOfJson rest

def fieldsOfJson : List (String × Json) → List (String × FieldValue)
  | [] => []
  | (key, value) :: rest =>
    (key, ⟨value, Node.ofJson value, Node.listOfJson value⟩) :: fieldsOfJson rest

end

end LuauCompiler
