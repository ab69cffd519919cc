import LuauCompiler.Proofs.Expressions
import LuauCompiler.Proofs.Stacks

/-! What is emitted for each statement, as a relation between trees and code. The relation keeps of
the state only what decides about the code: the class at hand, the declared names and the
generators known so far. -/
namespace LuauCompiler

/-- The part of the state that statements are translated by. -/
structure Scene where
  className : String
  docstring : Bool
  locals : SymbolStack (Option String)
  generators : List (Option String)

namespace Scene

def inner (a : Scene) : Scene := { a with locals := a.locals.push }

def resume (a b : Scene) : Scene := { a with generators := b.generators }

@[simp] theorem knows_inner (a : Scene) (name : Option String) :
    a.inner.locals.knows name = a.locals.knows name :=
  a.locals.knows_push name

@[simp] theorem locals_resume (a b : Scene) : (a.resume b).locals = a.locals := rfl

end Scene

/-- The statement goes on with the branches if it starts an else part. -/
def Node.isBranch : Node → Bool
  | .ifStmt .. => true
  | _ => false

def State.scene (s : State) : Scene := ⟨s.frames.top.className,s.frames.top.docstring,s.locals,s.generators⟩

namespace Compile

variable {config : Option Config}

theorem isBranch_of_testOf (noTest : testOf config n = none) : n.isBranch = false := by
  cases n with
  | ifStmt => cases noTest
  | _ => rfl

/-- What a branch does after its first body. -/
def proceed : Otherwise → Compile Unit
  | .nothing => emit "end"
  | .elseIf test statement => do
    emit ("elseif " ++ (← inline test) ++ " then")
    withoutEnds statement
    emit "end"
  | .orElse body => do
    emit "else"
    block body
    emit "end"

theorem branch_proceeds (test : Compile Unit) (body : List (Compile Unit)) (otherwise : Otherwise) :
    branch test body otherwise = (do
      emit ("if " ++ (← inline test) ++ " then")
      block body
      proceed otherwise) := by
  cases otherwise <;> rfl

theorem eq_branch_of_testOf (tested : testOf config n = some test) :
    ∃ e body orElse, n = .ifStmt e body orElse ∧ test = visit config e := by
  cases n with
  | ifStmt e body orElse => exact ⟨e,body,orElse,rfl,(Option.some.inj tested).symm⟩
  | _ => cases tested

/-- The text of an expression on one line, translated in the first scene. -/
def Reads (config : Option Config) (a : Scene) (e : Node) (text : String) (b : Scene) : Prop :=
  b = a.resume b ∧ ∃ s t, s.scene = a ∧ t.scene = b ∧ Gives (inline (visit config e)) s text t

def Spells (config : Option Config) (a : Scene) (e : Node) (lines : List String) (b : Scene) :
    Prop :=
  b = a.resume b ∧ ∃ s t, s.scene = a ∧ t.scene = b ∧ s.output = .block [] ∧
    Gives (visit config e) s () t ∧ t.output = .block (lines.map .line)

variable {a b : Scene}

theorem Reads.locals (reads : Reads config a e text b) : b.locals = a.locals := by
  rw [reads.1]
  rfl

theorem Reads.className (reads : Reads config a e text b) : b.className = a.className := by
  rw [reads.1]
  rfl

inductive ReadsAll (config : Option Config) : Scene → List Node → List String → Scene → Prop
  | nil {a : Scene} : ReadsAll config a [] [] a
  | cons {a b c : Scene} (first : Reads config a e text b) (rest : ReadsAll config b es texts c) :
    ReadsAll config a (e :: es) (text :: texts) c

theorem ReadsAll.locals (reads : ReadsAll config a es texts b) : b.locals = a.locals := by
  induction reads with
  | nil => rfl
  | cons first _ ih => exact ih.trans first.locals

/-- The name is declared unless it is known. -/
inductive Introduces : Scene → String → String → Scene → Prop
  | known {a : Scene} (known : a.locals.knows (some name) = true) : Introduces a name "" a
  | unknown {a : Scene} (unknown : a.locals.knows (some name) = false)
    (added : a.locals.add? (some name) = some locals) : Introduces a name "local " { a with locals }

theorem introduces_knows (introduced : Introduces a name keyword b) :
    keyword = (if a.locals.knows (some name) = true then "" else "local ") ∧
      b.className = a.className ∧ ∀ other, b.locals.knows (some other) = true ↔
        other = name ∨ a.locals.knows (some other) = true := by
  cases introduced with
  | known known =>
    refine ⟨by simp [known],rfl,fun other => ?_⟩
    constructor
    · exact .inr
    · rintro (rfl | inside)
      · exact known
      · exact inside
  | unknown unknown added =>
    refine ⟨by simp [unknown],rfl,fun other => ?_⟩
    rw [SymbolStack.knows_add added,Option.some.injEq]

/-- The name is declared if it satisfies a condition. -/
def IntroducesIf (condition : Bool) (a : Scene) (name keyword : String) (b : Scene) : Prop :=
  if condition then Introduces a name keyword b else keyword = "" ∧ b = a

/-- The statements that take one line. -/
inductive LineOf (config : Option Config) : Scene → Node → String → Scene → Prop
  | assign {a b c d : Scene} (target_read : Reads config a first target b)
    (value_read : Reads config b value text c)
    (introduced : IntroducesIf (Text.isWord (qualified a.className target)) c
      (qualified a.className target) keyword d) :
    LineOf config a (.assign (first :: others) value typeComment)
      (keyword ++ qualified a.className target ++ " = " ++ text) d
  | augAssign {a b c : Scene} (operator : op.binaryOp? = some binary)
    (target_read : Reads config a target place b) (value_read : Reads config b value text c)
    (written : binaryText? binary place text = some operation) :
    LineOf config a (.augAssign target op value) (place ++ " = " ++ parenthesised operation) c
  /-- What is emitted for a value without a text is left open. -/
  | annAssign {a b c d e f : Scene} (target_read : Reads config a target place b)
    (value_read : Reads config b value text c)
    (full_name : full = if a.className = typeClass then place else qualified a.className place)
    (introduced : IntroducesIf (!Text.hasChar full '.') c full keyword d)
    (hint_read : Reads config d hint hintText e) (aside : f = e.resume f)
    (written : text ≠ "" → line = keyword ++ full ++ " = " ++ text ∧ f = e) :
    LineOf config a (.annAssign target hint value simple) line f
  | returned {a b c : Scene} (first_read : Reads config a value recorded b)
    (second_read : Reads config b value text c) :
    LineOf config a (.returnStmt value) ("return " ++ text) c
  | deleted {a b : Scene} (targets_read : ReadsAll config a targets texts b) :
    LineOf config a (.delete targets) (Text.commaSeparated texts ++ " = " ++
      Text.commaSeparated (texts.map fun _ => "nil")) b
  | asserted {a b : Scene} (test_read : Reads config a test text b) :
    LineOf config a (.assert test msg) ("assert(" ++ text ++ ")") b
  | raised {a b : Scene} (exc_read : Reads config a exc text b) :
    LineOf config a (.raise exc cause) ("error(" ++ text ++ ")") b
  | broken {a : Scene} : LineOf config a .breakStmt "break" a
  | continued {a : Scene} : LineOf config a .continueStmt "continue" a

/-- The lines in front of the body of a with statement, in the order of the items. -/
inductive ItemLines (config : Option Config) : Scene → List Node → List String → Scene → Prop
  | nil {a : Scene} : ItemLines config a [] [] a
  | bare {a b c : Scene} (context_read : Reads config a context text b)
    (rest : ItemLines config b items lines c) :
    ItemLines config a (.withItem context .absent :: items) (text :: lines) c
  | bound {a b c d : Scene} (vars_read : Reads config a vars binding b)
    (context_read : Reads config b context text c) (rest : ItemLines config c items lines d) :
    ItemLines config a (.withItem context vars :: items) (("local " ++ binding ++ " = " ++ text) :: lines) d

/-- The lines in front of the body of a function: defaults, given last first, and the table of the
remaining arguments. -/
def leadLines (given values : List String) (rest : Option String) : List String :=
  (List.zipWith defaultLine given.reverse values).reverse ++ rest.toList

def connections (name : String) (decorators : List String) : List String :=
  (decorators.filter (!isMethodKind ·)).map fun text => name ++ " = " ++ text ++ ":Connect(" ++ name ++ ")"

/-- The kinds of rows of nodes that are translated together. -/
inductive Row where
  | statement
  | body
  /-- What follows when the test of a branch fails. -/
  | otherwise
  | handlers (chained : Bool) (position : Nat)
  | cases (subject : Node) (isFirst : Bool)

/-- The lines at the head of a handler that goes by the name of an error. -/
def handlerHead (position : Nat) (errorName : String) (name : Option String) : List String :=
  ((if position = 0 then "if" else "elseif") ++ " err:find('" ++ errorName ++ "') then") ::
    (name.map fun name => "\tlocal " ++ name ++ " = err").toList

/-- What is emitted for a row of nodes, from one scene to another. -/
inductive Emits (config : Option Config) : Row → Scene → List Node → List Code → Scene → Prop
  | nil {a : Scene} : Emits config .body a [] [] a
  | cons {a b c : Scene} (first : Emits config .statement a [n] code b)
    (others : Emits config .body b ns rest c) : Emits config .body a (n :: ns) (code ++ rest) c
  | pass {a : Scene} : Emits config .statement a [.pass] [] a
  | global {a : Scene} : Emits config .statement a [.global names] [] a
  | line {a b : Scene} (written : LineOf config a n text b) : Emits config .statement a [n] [.line text] b
  | expression {a b : Scene}
    (spelled : Spells config { a.inner with docstring := value.constant?.isSome } value lines b) :
    Emits config .statement a [.exprStmt value] (lines.map .line ++ [.void]) (a.resume b)
  | branch {a b c d : Scene} {body orElse : List Node} (test_read : Reads config a test text b)
    (inside : Emits config .body b.inner body code c)
    (others : Emits config .otherwise (b.resume c) orElse rest d) :
    Emits config .statement a [.ifStmt test body orElse]
      (.line ("if " ++ text ++ " then") :: .block code :: rest ++ [.line "end"]) d
  | nothing {a : Scene} : Emits config .otherwise a [] [] a
  /-- The test is translated twice, and the nodes after the statement are dropped. -/
  | elseIf {a b c d e : Scene} {body orElse dropped : List Node}
    (test_read : Reads config a test text b) (second_read : Reads config b test again c)
    (inside : Emits config .body c.inner body code d)
    (others : Emits config .otherwise (c.resume d) orElse rest e) :
    Emits config .otherwise a (.ifStmt test body orElse :: dropped)
      (.line ("elseif " ++ text ++ " then") :: .block code :: rest) e
  | orElse {a b : Scene} (noTest : testOf config n = none)
    (inside : Emits config .body a.inner (n :: ns) code b) :
    Emits config .otherwise a (n :: ns) [.line "else",.block code] (a.resume b)
  | whileLoop {a b c : Scene} {body orElse : List Node} (test_read : Reads config a test text b)
    (inside : Emits config .body b.inner body code c) :
    Emits config .statement a [.whileStmt test body orElse]
      [.line ("while " ++ text ++ " do"),.block code,.line "end"] (b.resume c)
  | forLoop {a b c d : Scene} {body orElse : List Node}
    (target_read : Reads config a target place b) (iter_read : Reads config b iter text c)
    (noGenerator : c.generators.contains (some (Text.dropGroups text)) = false)
    (inside : Emits config .body c.inner body code d) :
    Emits config .statement a [.forStmt false target iter body orElse typeComment]
      [.line (loopHeader overText place text),.block code,.line "end"] (c.resume d)
  | generatorLoop {a b c d : Scene} {body orElse : List Node}
    (target_read : Reads config a target place b) (iter_read : Reads config b iter text c)
    (isGenerator : c.generators.contains (some (Text.dropGroups text)) = true)
    (written : generatorHeader (Text.dropGroups text) place text = .ok header)
    (inside : Emits config .body c.inner body code d) :
    Emits config .statement a [.forStmt false target iter body orElse typeComment]
      [.line header,.block code,.line "end)"] (c.resume d)
  | function {a b c d e f : Scene} (params_given : regular.mapM paramName = .ok (given.map some))
    (rest_given : restLine (if rest.isAbsent then none else some rest) = .ok restText)
    (decorators_read : ReadsAll config a decorators.reverse markers b)
    (introduced : IntroducesIf (!Text.hasChar (qualified a.className name) '.') b
      (qualified a.className name) keyword c)
    (inside : Emits config .body { c.inner with className := "" } body code d)
    (defaults_read : ReadsAll config (c.resume d) defaults.reverse values e)
    (decorators_again : ReadsAll config e decorators.reverse connected f)
    (enough : values.length ≤ given.length) :
    Emits config .statement a [.functionDef false (some name)
        (.params posOnly regular rest kwOnly kwDefaults kwRest defaults) body decorators returns
        typeComment]
      (.line (keyword ++ " function " ++ qualified a.className name ++ "(" ++ Text.commaSeparated
          ((if takesSelf markers then ["self"] else []) ++ given ++
            if rest.isAbsent then [] else ["..."]) ++ ")") ::
        .block ((leadLines given values restText).map .line ++ code) ::
        (if d.generators.contains (some name) then [.line (generatorEnd name)] else []) ++
        .line "end" :: (connections (qualified a.className name) connected).map .line) f
  | classOf {a b c d : Scene} {name keyword : String} {bases keywords body decorators : List Node}
    {texts : List String} {code : List Code} {r : Bool}
    (bases_read : ReadsAll config a bases texts b)
    (introduced : IntroducesIf a.className.isEmpty b name keyword c)
    (inside : Emits config .body { c.inner with className := name } body code d) :
    Emits config .statement a [.classDef (some name) bases keywords body decorators]
      ([.line (keyword ++ qualified a.className name ++ " = class(function(" ++ name ++ ")"),
        .block (code ++ [.line ("return " ++ name)]),
        .line ("end, \x7b" ++ Text.commaSeparated texts ++ "\x7d)")] ++
        if r then [.line ("return " ++ qualified a.className name)] else []) (c.resume d)
  | withItems {a b c : Scene} (inside : Emits config .body a.inner body code b)
    (items_read : ItemLines config (a.resume b) items lines c) :
    Emits config .statement a [.withStmt false items body typeComment]
      [.line "do",.block (lines.reverse.map .line ++ code),.line "end"] c
  | tried {a b c d : Scene} {body handlers orElse finalBody : List Node}
    (inside : Emits config .body a.inner body code b)
    (handled : Emits config (.handlers ((handlersOf config handlers).head?.any isNamed) 0)
      (a.resume b) handlers handling c)
    (finally_inside : Emits config .body c.inner finalBody final d) :
    Emits config .statement a [.tryStmt false body handlers orElse finalBody]
      ([.line "--> try statement start:",.line "xpcall(function()",.block code,
        .line "end, function(err)"] ++ handling ++
        [.line "end)",.block final,.line "--> try statement end"]) (c.resume d)
  | noHandlers {a : Scene} {position : Nat} : Emits config (.handlers chained position) a [] [] a
  | handler {a b c : Scene} {position : Nat} (inside : Emits config .body a.inner body code b)
    (others : Emits config (.handlers chained (position + 1)) (a.resume b) ns rest c) :
    Emits config (.handlers chained position) a (.handler type name body :: ns)
      (.line ("--> try: " ++ toString position) ::
        (if type.isName then (handlerHead position (shownName type.id?) name).map .line else []) ++
        .block code :: (if ns.isEmpty && chained then [.line "end"] else []) ++ rest) c
  | matched {a b : Scene} (inside : Emits config (.cases subject true) a cases code b) :
    Emits config .statement a [.matchStmt subject cases] (code ++ [.line "end"]) b
  | noCases {a : Scene} : Emits config (.cases subject isFirst) a [] [] a
  | case {a b c d : Scene} {subject pattern guard : Node} {constant : Constant}
    (subject_read : Reads config a subject text b)
    (compared : pattern.value? = some (.node (.constant constant kind)))
    (written : caseLiteral constant = .ok literal) (inside : Emits config .body b.inner body code c)
    (others : Emits config (.cases subject false) (b.resume c) ns rest d) :
    Emits config (.cases subject isFirst) a (.matchCase pattern guard body :: ns)
      (.line ((if isFirst then "" else "else") ++ "if " ++ text ++ " == " ++ literal ++ " then") ::
        .block code :: rest) d

end Compile

end LuauCompiler
