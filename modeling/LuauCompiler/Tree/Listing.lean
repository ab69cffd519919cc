import LuauCompiler.Text.Basic
import LuauCompiler.Tree.Basic

/-! A tree is listed on one line: each node as its kind with its fields in parentheses, lists in square
brackets, words and values as literals. A field that may be vacant is left out when it is. -/

namespace LuauCompiler.Listing

/-- The text of a field, `none` for one that is left out. -/
abbrev Field := Except Failure (Option String)

def listedText (text : String) : Field := .ok (some (Text.quote text))

def listedText? : Option String → Field
  | none => .ok none
  | some text => listedText text

def listedTexts (texts : List String) : Field :=
  .ok (some ("[" ++ Text.commaSeparated (texts.map Text.quote) ++ "]"))

def listedInt? : Option Int → Field
  | none => .ok none
  | some n => (Constant.intText n).map some

def listedInt : Option Int → Field
  | none => .ok (some "None")
  | some n => (Constant.intText n).map some

def listedName : Option String → Field
  | none => .ok (some "None")
  | some name => listedText name

instance : Coe (Except Failure String) Field := ⟨fun text => text.map some⟩

def optional (n : Node) (text : Except Failure String) : Field :=
  if n.isAbsent then .ok none else text.map some

instance : Coe (Except Failure (List String)) Field :=
  ⟨fun texts => texts.map fun ts => some ("[" ++ Text.commaSeparated ts ++ "]")⟩

def record (className : String) (fields : List (String × Field)) : Except Failure String := do
  let shown ← fields.mapM fun (name, text) =>
    text.map fun t => t.map fun t => name ++ "=" ++ t
  return className ++ "(" ++ Text.commaSeparated (shown.filterMap id) ++ ")"

mutual

def ofNode : Node → Except Failure String
  | .absent => .ok "None"
  | .module body typeIgnores =>
    record "Module" [("body", ofNodes body), ("type_ignores", ofNodes typeIgnores)]
  | .interactive body => record "Interactive" [("body", ofNodes body)]
  | .expression body => record "Expression" [("body", ofNode body)]
  | .functionDef isAsync name params body decorators returns typeComment =>
    record (if isAsync then "AsyncFunctionDef" else "FunctionDef")
      [("name", listedName name), ("args", ofNode params),
        ("body", ofNodes body), ("decorator_list", ofNodes decorators),
        ("returns", optional returns (ofNode returns)),
        ("type_comment", listedText? typeComment)]
  | .classDef name bases keywords body decorators =>
    record "ClassDef"
      [("name", listedName name), ("bases", ofNodes bases),
        ("keywords", ofNodes keywords), ("body", ofNodes body),
        ("decorator_list", ofNodes decorators)]
  | .returnStmt value => record "Return" [("value", optional value (ofNode value))]
  | .delete targets => record "Delete" [("targets", ofNodes targets)]
  | .assign targets value typeComment =>
    record "Assign"
      [("targets", ofNodes targets), ("value", ofNode value),
        ("type_comment", listedText? typeComment)]
  | .augAssign target op value =>
    record "AugAssign" [("target", ofNode target), ("op", ofNode op), ("value", ofNode value)]
  | .annAssign target hint value simple =>
    record "AnnAssign"
      [("target", ofNode target), ("annotation", ofNode hint),
        ("value", optional value (ofNode value)), ("simple", listedInt simple)]
  | .forStmt isAsync target iter body orElse typeComment =>
    record (if isAsync then "AsyncFor" else "For")
      [("target", ofNode target), ("iter", ofNode iter),
        ("body", ofNodes body), ("orelse", ofNodes orElse),
        ("type_comment", listedText? typeComment)]
  | .whileStmt test body orElse =>
    record "While" [("test", ofNode test), ("body", ofNodes body), ("orelse", ofNodes orElse)]
  | .ifStmt test body orElse =>
    record "If" [("test", ofNode test), ("body", ofNodes body), ("orelse", ofNodes orElse)]
  | .withStmt isAsync items body typeComment =>
    record (if isAsync then "AsyncWith" else "With")
      [("items", ofNodes items), ("body", ofNodes body),
        ("type_comment", listedText? typeComment)]
  | .matchStmt subject cases =>
    record "Match" [("subject", ofNode subject), ("cases", ofNodes cases)]
  | .raise exc cause =>
    record "Raise" [("exc", optional exc (ofNode exc)), ("cause", optional cause (ofNode cause))]
  | .tryStmt isStar body handlers orElse finalBody =>
    record (if isStar then "TryStar" else "Try")
      [("body", ofNodes body), ("handlers", ofNodes handlers),
        ("orelse", ofNodes orElse), ("finalbody", ofNodes finalBody)]
  | .assert test msg => record "Assert" [("test", ofNode test), ("msg", optional msg (ofNode msg))]
  | .importStmt names => record "Import" [("names", ofNodes names)]
  | .importFrom module names level =>
    record "ImportFrom"
      [("module", listedText? module), ("names", ofNodes names),
        ("level", listedInt? level)]
  | .global names => record "Global" [("names", listedTexts names)]
  | .nonlocal names => record "Nonlocal" [("names", listedTexts names)]
  | .exprStmt value => record "Expr" [("value", ofNode value)]
  | .pass => record "Pass" []
  | .breakStmt => record "Break" []
  | .continueStmt => record "Continue" []
  | .boolOp op values => record "BoolOp" [("op", ofNode op), ("values", ofNodes values)]
  | .namedExpr target value =>
    record "NamedExpr" [("target", ofNode target), ("value", ofNode value)]
  | .binOp left op right =>
    record "BinOp" [("left", ofNode left), ("op", ofNode op), ("right", ofNode right)]
  | .unaryOp op operand => record "UnaryOp" [("op", ofNode op), ("operand", ofNode operand)]
  | .lambda params body => record "Lambda" [("args", ofNode params), ("body", ofNode body)]
  | .ifExp test body orElse =>
    record "IfExp" [("test", ofNode test), ("body", ofNode body), ("orelse", ofNode orElse)]
  | .dict keys values => record "Dict" [("keys", ofNodes keys), ("values", ofNodes values)]
  | .set elts => record "Set" [("elts", ofNodes elts)]
  | .listComp elt clauses =>
    record "ListComp" [("elt", ofNode elt), ("generators", ofNodes clauses)]
  | .setComp elt clauses => record "SetComp" [("elt", ofNode elt), ("generators", ofNodes clauses)]
  | .generatorExp elt clauses =>
    record "GeneratorExp" [("elt", ofNode elt), ("generators", ofNodes clauses)]
  | .dictComp key value clauses =>
    record "DictComp"
      [("key", ofNode key), ("value", ofNode value),
        ("generators", ofNodes clauses)]
  | .await value => record "Await" [("value", ofNode value)]
  | .yield value => record "Yield" [("value", optional value (ofNode value))]
  | .yieldFrom value => record "YieldFrom" [("value", ofNode value)]
  | .compare left ops comparators =>
    record "Compare"
      [("left", ofNode left), ("ops", ofNodes ops),
        ("comparators", ofNodes comparators)]
  | .call func args keywords =>
    record "Call" [("func", ofNode func), ("args", ofNodes args), ("keywords", ofNodes keywords)]
  | .formattedValue value conversion formatSpec =>
    record "FormattedValue"
      [("value", ofNode value), ("conversion", listedInt conversion),
        ("format_spec", optional formatSpec (ofNode formatSpec))]
  | .joinedStr values => record "JoinedStr" [("values", ofNodes values)]
  | .constant value kind => record "Constant" [("value", value.literal), ("kind", listedText? kind)]
  | .attribute value attr access =>
    record "Attribute" [("value", ofNode value), ("attr", listedName attr), ("ctx", ofNode access)]
  | .subscript value slice access =>
    record "Subscript" [("value", ofNode value), ("slice", ofNode slice), ("ctx", ofNode access)]
  | .starred value access => record "Starred" [("value", ofNode value), ("ctx", ofNode access)]
  | .name id access => record "Name" [("id", listedName id), ("ctx", ofNode access)]
  | .list elts access => record "List" [("elts", ofNodes elts), ("ctx", ofNode access)]
  | .tuple elts access => record "Tuple" [("elts", ofNodes elts), ("ctx", ofNode access)]
  | .slice lower upper step =>
    record "Slice"
      [("lower", optional lower (ofNode lower)), ("upper", optional upper (ofNode upper)),
        ("step", optional step (ofNode step))]
  | .clause target iter filters isAsync =>
    record "comprehension"
      [("target", ofNode target), ("iter", ofNode iter),
        ("ifs", ofNodes filters), ("is_async", listedInt isAsync)]
  | .handler type name body =>
    record "ExceptHandler"
      [("type", optional type (ofNode type)), ("name", listedText? name),
        ("body", ofNodes body)]
  | .params posOnly regular rest kwOnly kwDefaults kwRest defaults =>
    record "arguments"
      [("posonlyargs", ofNodes posOnly), ("args", ofNodes regular),
        ("vararg", optional rest (ofNode rest)), ("kwonlyargs", ofNodes kwOnly),
        ("kw_defaults", ofNodes kwDefaults), ("kwarg", optional kwRest (ofNode kwRest)),
        ("defaults", ofNodes defaults)]
  | .param name hint typeComment =>
    record "arg"
      [("arg", listedName name), ("annotation", optional hint (ofNode hint)),
        ("type_comment", listedText? typeComment)]
  | .keyword name value => record "keyword" [("arg", listedText? name), ("value", ofNode value)]
  | .alias name asName => record "alias" [("name", listedName name), ("asname", listedText? asName)]
  | .withItem context vars =>
    record "withitem"
      [("context_expr", ofNode context), ("optional_vars", optional vars (ofNode vars))]
  | .matchCase pattern guard body =>
    record "match_case"
      [("pattern", ofNode pattern), ("guard", optional guard (ofNode guard)),
        ("body", ofNodes body)]
  | .matchValue value => record "MatchValue" [("value", ofNode value)]
  | .matchSingleton value => record "MatchSingleton" [("value", value.literal)]
  | .matchSequence patterns => record "MatchSequence" [("patterns", ofNodes patterns)]
  | .matchMapping keys patterns rest =>
    record "MatchMapping"
      [("keys", ofNodes keys), ("patterns", ofNodes patterns),
        ("rest", listedText? rest)]
  | .matchClass cls patterns kwdAttrs kwdPatterns =>
    record "MatchClass"
      [("cls", ofNode cls), ("patterns", ofNodes patterns),
        ("kwd_attrs", listedTexts kwdAttrs), ("kwd_patterns", ofNodes kwdPatterns)]
  | .matchStar name => record "MatchStar" [("name", listedText? name)]
  | .matchAs pattern name =>
    record "MatchAs" [("pattern", optional pattern (ofNode pattern)), ("name", listedText? name)]
  | .matchOr patterns => record "MatchOr" [("patterns", ofNodes patterns)]
  | .typeAlias name typeParams value =>
    record "TypeAlias"
      [("name", ofNode name), ("type_params", ofNodes typeParams),
        ("value", ofNode value)]
  | .index value => record "Index" [("value", ofNode value)]
  | .caseBody body => record "MatchCase" [("body", ofNodes body)]
  | .patternOf pattern => record "MatchPattern" [("pattern", ofNode pattern)]
  | .patternKeyword pattern => record "MatchKeyword" [("pattern", ofNode pattern)]
  | .mark m => .ok (m.className ++ "()")

def ofNodes : List Node → Except Failure (List String)
  | [] => .ok []
  | n :: rest => do return (← ofNode n) :: (← ofNodes rest)

end

end LuauCompiler.Listing
