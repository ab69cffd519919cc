import LuauCompiler.Compile.Call
import LuauCompiler.Compile.Comprehension
import LuauCompiler.Compile.Definition
import LuauCompiler.Compile.Import
import LuauCompiler.Compile.Literal
import LuauCompiler.Compile.Operator
import LuauCompiler.Compile.Place
import LuauCompiler.Compile.Statement

/-! Each kind of node is compiled by the rule of its construct from the steps that compile its parts. A
kind without a rule of its own emits the code of its parts one after another. -/

namespace LuauCompiler.Compile

def part? (n : Node) (c : Compile Unit) : Option (Compile Unit) :=
  if n.isAbsent then none else some c

def present (n : Node) (c : Compile Unit) : Compile Unit :=
  if n.isAbsent then pure () else c

def presentEach (ns : List Node) (cs : List (Compile Unit)) : Compile Unit :=
  each (List.zipWith present ns cs)

mutual

/-- Emits the code of a node into the block at hand. -/
def visit (config : Option Config) : Node → Compile Unit
  | .absent => fail .missingPart
  | .module body _ => moduleBody (visits config body)
  | .interactive body => presentEach body (visits config body)
  | .expression body => present body (visit config body)
  | .functionDef isAsync name params body decorators returns _ =>
    if isAsync then do
      present params (visit config params)
      presentEach body (visits config body)
      presentEach decorators (visits config decorators)
      present returns (visit config returns)
    else
      functionDefinition name params (visits config decorators) (visits config body)
        (defaultsOf config params)
  | .classDef name bases _ body _ =>
    classDefinition config name (visits config bases) (visits config body)
  | .returnStmt value => returnStatement value (visit config value)
  | .delete targets => delete (visits config targets)
  | .assign targets value _ => assign targets value (visits config targets) (visit config value)
  | .augAssign target op value => augmentedAssign (visit config target) op (visit config value)
  | .annAssign target hint value _ =>
    annotatedAssign (visit config target) (visit config value) (visit config hint)
      (callOf config hint)
  | .forStmt isAsync target iter body orElse _ =>
    if isAsync then do
      present target (visit config target)
      present iter (visit config iter)
      presentEach body (visits config body)
      presentEach orElse (visits config orElse)
    else forLoop iter (visit config target) (visit config iter) (visits config body)
  | .whileStmt test body _ => whileLoop (visit config test) (visits config body)
  | .ifStmt test body orElse =>
    branch (visit config test) (visits config body) (otherwiseOf config orElse)
  | .withStmt isAsync items body _ =>
    if isAsync then
      withStatement "task.spawn(function()" "end)" (itemsOf config items) (visits config body)
    else withStatement "do" "end" (itemsOf config items) (visits config body)
  | .matchStmt subject cases => matchStatement (visit config subject) (casesOf config cases)
  | .raise exc _ => raiseError (visit config exc)
  | .tryStmt isStar body handlers orElse finalBody =>
    if isStar then do
      presentEach body (visits config body)
      presentEach handlers (visits config handlers)
      presentEach orElse (visits config orElse)
      presentEach finalBody (visits config finalBody)
    else
      tryStatement (visits config body) (handlersOf config handlers) (visits config finalBody)
  | .assert test _ => assertion (visit config test)
  | .importStmt names => each (names.map importModule)
  | .importFrom module names _ => each (names.map (importMember (module.getD "")))
  | .global names => declareGlobals names
  | .nonlocal names => declareNonlocals names
  | .exprStmt value => expressionStatement value (visit config value)
  | .pass => pure ()
  | .breakStmt => emit "break"
  | .continueStmt => emit "continue"
  | .boolOp op values => boolOperation op (visits config values)
  | .namedExpr target value => do
    present target (visit config target)
    present value (visit config value)
  | .binOp left op right =>
    binaryOperation left op right (visit config left) (visit config right)
  | .unaryOp op operand => unaryOperation op (visit config operand)
  | .lambda params body => lambda params (visit config body)
  | .ifExp test body orElse =>
    conditional (visit config test) (visit config body) (visit config orElse)
  | .dict keys values => dictDisplay (visits config keys) (visits config values)
  | .set elts => listDisplay (visits config elts)
  | .listComp elt clauses => listComprehension (visit config elt) (clausesOf config clauses)
  | .setComp elt clauses => setComprehension (visit config elt) (clausesOf config clauses)
  | .generatorExp elt clauses => generatorExpression (visit config elt) (clausesOf config clauses)
  | .dictComp key value clauses =>
    dictComprehension (visit config key) (visit config value) (clausesOf config clauses)
  | .await value => present value (visit config value)
  | .yield value => yieldValue (visit config value)
  | .yieldFrom value => yieldFromValue (visit config value)
  | .compare left ops comparators =>
    comparison (visit config left) ops (comparators.zip (visits config comparators))
  | .call func args keywords =>
    call none func args (visit config func) (visits config args) (keywordsOf config keywords)
  | .formattedValue value _ _ => interpolation (visit config value)
  | .joinedStr values => interpolated (values.zip (visits config values))
  | .constant value _ => constant value
  | .attribute value attr _ => memberAccess (visit config value) attr
  | .subscript value slice _ => subscript (visit config value) (visit config slice)
  | .starred value _ => starred (visit config value)
  | .name id _ => nameReference id
  | .list elts _ => listDisplay (visits config elts)
  | .tuple elts _ => tupleDisplay (visits config elts)
  | .slice lower upper step =>
    slice (part? lower (visit config lower)) (part? upper (visit config upper))
      (part? step (visit config step))
  | .clause target iter filters _ => do
    present target (visit config target)
    present iter (visit config iter)
    presentEach filters (visits config filters)
  | .handler type _ body => do
    present type (visit config type)
    presentEach body (visits config body)
  | .params posOnly regular rest kwOnly kwDefaults kwRest defaults => do
    presentEach posOnly (visits config posOnly)
    presentEach regular (visits config regular)
    present rest (visit config rest)
    presentEach kwOnly (visits config kwOnly)
    presentEach kwDefaults (visits config kwDefaults)
    present kwRest (visit config kwRest)
    presentEach defaults (visits config defaults)
  | .param _ hint _ => present hint (visit config hint)
  | .keyword _ value => present value (visit config value)
  | .alias .. => pure ()
  | .withItem context vars => do
    present context (visit config context)
    present vars (visit config vars)
  | .matchCase pattern guard body => do
    present pattern (visit config pattern)
    present guard (visit config guard)
    presentEach body (visits config body)
  | .matchValue value => discard (inline (visit config value))
  | .matchAs pattern _ => discard (inline (visit config pattern))
  | .patternOf pattern => discard (inline (visit config pattern))
  | .patternKeyword pattern => discard (inline (visit config pattern))
  | .matchSingleton _ | .matchSequence _ | .matchMapping .. | .matchClass .. | .matchStar _
  | .matchOr _ => fail .missingPart
  | .typeAlias name _ value => typeAlias config name (visit config value)
  | .index value => do emit (← inline (visit config value))
  | .caseBody body => block (visits config body)
  | .mark _ => pure ()

def visits (config : Option Config) : List Node → List (Compile Unit)
  | [] => []
  | n :: rest => visit config n :: visits config rest

def defaultsOf (config : Option Config) : Node → List (Compile Unit)
  | .params _ _ _ _ _ _ defaults => visits config defaults
  | _ => []

def callOf (config : Option Config) : Node → Option (String → Compile Unit)
  | .call func args keywords =>
    some fun receiver =>
      call (some receiver) func args (visit config func) (visits config args)
        (keywordsOf config keywords)
  | _ => none

def testOf (config : Option Config) : Node → Option (Compile Unit)
  | .ifStmt test _ _ => some (visit config test)
  | _ => none

/-- What an else part stands for: one that starts with a branching statement goes on testing. -/
def otherwiseOf (config : Option Config) : List Node → Otherwise
  | [] => .nothing
  | n :: rest =>
    match testOf config n with
    | some test => .elseIf test (visit config n)
    | none => .orElse (visit config n :: visits config rest)

def clauseOf (config : Option Config) : Node → Clause
  | .clause target iter filters _ =>
    ⟨some (visit config target), some (visit config iter), some (visits config filters)⟩
  | .forStmt _ target iter _ _ _ =>
    ⟨some (visit config target), some (visit config iter), none⟩
  | .augAssign target _ _ => ⟨some (visit config target), none, none⟩
  | .annAssign target _ _ _ => ⟨some (visit config target), none, none⟩
  | .namedExpr target _ => ⟨some (visit config target), none, none⟩
  | _ => .empty

def clausesOf (config : Option Config) : List Node → List Clause
  | [] => []
  | n :: rest => clauseOf config n :: clausesOf config rest

/-- A keyword argument, or the value that a node of another kind has. -/
def keywordOf (config : Option Config) : Node → NamedArgument
  | .keyword name value => ⟨.name name, some (visit config value)⟩
  | .returnStmt value | .assign _ value _ | .augAssign _ _ value | .annAssign _ _ value _
  | .exprStmt value | .namedExpr _ value | .dictComp _ value _ | .await value | .yield value
  | .yieldFrom value | .formattedValue value _ _ | .attribute value _ _ | .subscript value _ _
  | .starred value _ | .matchValue value | .typeAlias _ _ value | .index value =>
    ⟨.missing, some (visit config value)⟩
  | _ => ⟨.missing, none⟩

def keywordsOf (config : Option Config) : List Node → List NamedArgument
  | [] => []
  | n :: rest => keywordOf config n :: keywordsOf config rest

def itemOf (config : Option Config) : Node → Option WithItem
  | .withItem context vars => some ⟨visit config context, part? vars (visit config vars)⟩
  | _ => none

def itemsOf (config : Option Config) : List Node → List (Option WithItem)
  | [] => []
  | n :: rest => itemOf config n :: itemsOf config rest

def caseOf (config : Option Config) : Node → Option Case
  | .matchCase pattern _ body => some ⟨pattern, some (visits config body)⟩
  | .matchAs pattern _ | .patternOf pattern | .patternKeyword pattern => some ⟨pattern, none⟩
  | _ => none

def casesOf (config : Option Config) : List Node → List (Option Case)
  | [] => []
  | n :: rest => caseOf config n :: casesOf config rest

def handlerOf (config : Option Config) : Node → Option Handler
  | .handler type name body => some ⟨type, name, visits config body⟩
  | _ => none

def handlersOf (config : Option Config) : List Node → List (Option Handler)
  | [] => []
  | n :: rest => handlerOf config n :: handlersOf config rest

end

/-- Compiles a node that stands by itself. A pattern for one value emits nothing; its text is the
result. -/
def evaluate (config : Option Config) (n : Node) : Compile (Option String) :=
  match n with
  | .matchValue value => do return some (← inline (visit config value))
  | .matchAs pattern _ => do return some (← inline (visit config pattern))
  | .patternOf pattern => do return some (← inline (visit config pattern))
  | .patternKeyword pattern => do return some (← inline (visit config pattern))
  | n => do
    visit config n
    return none

end LuauCompiler.Compile
