import LuauCompiler.Proofs.CallTexts

/-! The calls of a tree and those of its code. A construct writes the calls of its parts once, but the
middle of a comparison chain, the target of an augmented assignment and the subject of a match are
written again, and some operators are calls themselves. -/
namespace LuauCompiler

namespace Node

/-- The function that an arithmetic operator calls. -/
def operatorWords : Node → List String
  | .mark (.binary .floorDiv) => ["math.floor"]
  | .mark (.binary .lShift) => ["bit32.lshift"]
  | .mark (.binary .rShift) => ["bit32.rshift"]
  | .mark (.binary .bitOr) => ["bit32.bor"]
  | .mark (.binary .bitAnd) => ["bit32.band"]
  | .mark (.binary .bitXor) => ["bit32.bxor"]
  | .mark (.unary .invert) => ["bit32.bnot"]
  | _ => []

/-- A negated test for membership looks like a call. -/
def linkWords (op : Node) : List String := if op.compareOp? = some .notIn then ["not"] else []

def literalWords : Node → List String
  | .matchValue (.constant c _) =>
    match Compile.caseLiteral c with
    | .ok text => openings text
    | .error _ => []
  | _ => []

def calledName : Node → List String
  | .name (some own) _ => [own]
  | _ => []

mutual

/-- What stands in front of the opening parentheses in the code of a tree. -/
def written : Node → List String
  | .binOp left op right => op.operatorWords ++ (left.written ++ right.written)
  | .unaryOp op operand => op.operatorWords ++ operand.written
  | .boolOp _ values => rowWritten values
  | .compare left ops comparators => chainWritten left.written ops comparators
  | .ifExp test body orElse => test.written ++ (body.written ++ orElse.written)
  | .subscript value key _ => value.written ++ key.written
  | .attribute value _ _ => value.written
  | .call func args _ => func.calledName ++ rowWritten args
  | .exprStmt value => value.written
  | .returnStmt value => value.written
  | .assign targets value _ => firstWritten targets ++ value.written
  | .augAssign target op value =>
    target.written ++ (op.operatorWords ++ (target.written ++ value.written))
  | .ifStmt test body orElse => test.written ++ (rowWritten body ++ otherwiseWritten orElse)
  | .whileStmt test body _ => test.written ++ rowWritten body
  | .matchStmt subject cases => casesWritten subject.written cases
  | .matchCase pattern _ body => pattern.literalWords ++ rowWritten body
  | _ => []

def rowWritten : List Node → List String
  | [] => []
  | n :: rest => n.written ++ rowWritten rest

def firstWritten : List Node → List String
  | [] => []
  | n :: _ => n.written

/-- The left side is written with the first link, and each comparator with the links on both sides. -/
def chainWritten (left : List String) : List Node → List Node → List String
  | op :: ops,n :: rest => op.linkWords ++ (left ++ (n.written ++
      if ops.isEmpty then [] else chainWritten n.written ops rest))
  | _,_ => []

def otherwiseWritten : List Node → List String
  | [] => []
  | n :: rest => n.written ++ if n.isBranch then [] else rowWritten rest

/-- The subject is written with each case. -/
def casesWritten (subject : List String) : List Node → List String
  | [] => []
  | n :: rest => subject ++ (n.written ++ casesWritten subject rest)

end

mutual

def called : Node → List String
  | .binOp left _ right => left.called ++ right.called
  | .unaryOp _ operand => operand.called
  | .boolOp _ values => rowCalled values
  | .compare left _ comparators => left.called ++ rowCalled comparators
  | .ifExp test body orElse => test.called ++ (body.called ++ orElse.called)
  | .subscript value key _ => value.called ++ key.called
  | .attribute value _ _ => value.called
  | .call func args keywords => func.calledName ++ (rowCalled args ++ rowCalled keywords)
  | .keyword _ value => value.called
  | .exprStmt value => value.called
  | .returnStmt value => value.called
  | .assign targets value _ => rowCalled targets ++ value.called
  | .augAssign target _ value => target.called ++ value.called
  | .ifStmt test body orElse | .whileStmt test body orElse => test.called ++ (rowCalled body ++ rowCalled orElse)
  | .matchStmt subject cases => subject.called ++ rowCalled cases
  | .matchCase _ guard body => guard.called ++ rowCalled body
  | _ => []

def rowCalled : List Node → List String
  | [] => []
  | n :: rest => n.called ++ rowCalled rest

end

mutual

/-- What is written without a call in the tree, or again: the calls of operators and literals, and
those of middle comparators, augmented targets and the subjects of further cases. -/
def again : Node → List String
  | .binOp left op right => op.operatorWords ++ (left.again ++ right.again)
  | .unaryOp op operand => op.operatorWords ++ operand.again
  | .boolOp _ values => rowAgain values
  | .compare left ops comparators => left.again ++ chainAgain ops comparators
  | .ifExp test body orElse => test.again ++ (body.again ++ orElse.again)
  | .subscript value key _ => value.again ++ key.again
  | .attribute value _ _ => value.again
  | .call _ args _ => rowAgain args
  | .exprStmt value => value.again
  | .returnStmt value => value.again
  | .assign targets value _ => firstAgain targets ++ value.again
  | .augAssign target op value =>
    target.written ++ (op.operatorWords ++ (target.again ++ value.again))
  | .ifStmt test body orElse => test.again ++ (rowAgain body ++ otherwiseAgain orElse)
  | .whileStmt test body _ => test.again ++ rowAgain body
  | .matchStmt subject cases => subject.again ++ casesAgain subject.written cases
  | .matchCase pattern _ body => pattern.literalWords ++ rowAgain body
  | _ => []

def rowAgain : List Node → List String
  | [] => []
  | n :: rest => n.again ++ rowAgain rest

def firstAgain : List Node → List String
  | [] => []
  | n :: _ => n.again

def chainAgain : List Node → List Node → List String
  | op :: ops,n :: rest => op.linkWords ++ (n.again ++
      if ops.isEmpty then [] else n.written ++ chainAgain ops rest)
  | _,_ => []

def otherwiseAgain : List Node → List String
  | [] => []
  | n :: rest => n.again ++ if n.isBranch then [] else rowAgain rest

def casesAgain (subject : List String) : List Node → List String
  | [] => []
  | n :: rest => n.again ++ if rest.isEmpty then [] else subject ++ casesAgain subject rest

end

end Node

inductive CallPart where
  | expression
  | statement
  | case

/-- Statements over names, integers, operators, subscripts, attributes and calls of names. -/
inductive CallTree : CallPart → Node → Prop
  /-- Compiling a vacant part fails. -/
  | absent : CallTree .expression .absent
  | name (plain : '(' ∉ own.toList) : CallTree .expression (.name (some own) access)
  | int : CallTree .expression (.constant (.int value) kind)
  | binOp (first : CallTree .expression left) (second : CallTree .expression right) :
    CallTree .expression (.binOp left op right)
  | unaryOp (inside : CallTree .expression operand) : CallTree .expression (.unaryOp op operand)
  | boolOp (parts : ∀ e ∈ values, CallTree .expression e) : CallTree .expression (.boolOp op values)
  | compare {left : Node} {ops comparators : List Node} (first : CallTree .expression left)
    (others : ∀ e ∈ comparators, CallTree .expression e) :
    CallTree .expression (.compare left ops comparators)
  | ifExp (first : CallTree .expression test) (second : CallTree .expression body)
    (third : CallTree .expression orElse) : CallTree .expression (.ifExp test body orElse)
  | subscript (object : CallTree .expression value) (inside : CallTree .expression key) :
    CallTree .expression (.subscript value key access)
  | member (plain : '(' ∉ (shownName attr).toList) (object : CallTree .expression value) :
    CallTree .expression (.attribute value attr access)
  | call (plain : '(' ∉ own.toList) (parts : ∀ e ∈ args, CallTree .expression e) :
    CallTree .expression (.call (.name (some own) access) args keywords)
  | exprStmt (expr : CallTree .expression value) : CallTree .statement (.exprStmt value)
  | returnStmt (expr : CallTree .expression value) : CallTree .statement (.returnStmt value)
  | assign (target : CallTree .expression first) (expr : CallTree .expression value) :
    CallTree .statement (.assign (first :: others) value comment)
  | augAssign (place : CallTree .expression target) (expr : CallTree .expression value) :
    CallTree .statement (.augAssign target op value)
  | ifStmt (expr : CallTree .expression test) (inside : ∀ n ∈ body, CallTree .statement n)
    (others : ∀ n ∈ orElse, CallTree .statement n) : CallTree .statement (.ifStmt test body orElse)
  | whileStmt (expr : CallTree .expression test) (inside : ∀ n ∈ body, CallTree .statement n) :
    CallTree .statement (.whileStmt test body orElse)
  | matchStmt {subject : Node} {cases : List Node} (expr : CallTree .expression subject)
    (inside : ∀ c ∈ cases, CallTree .case c) : CallTree .statement (.matchStmt subject cases)
  | matchCase {guard : Node} (inside : ∀ n ∈ body, CallTree .statement n) :
    CallTree .case (.matchCase (.matchValue (.constant c kind)) guard body)

section

open Node

variable {g : String}

/-- The calls of a part are in the tree, or they are written again. -/
def Covered (g : String) (n : Node) : Prop := endings g n.written ≤ endings g n.called + endings g n.again

theorem row_covered (parts : ∀ n ∈ ns, Covered g n) :
    endings g (rowWritten ns) ≤ endings g (rowCalled ns) + endings g (rowAgain ns) := by
  induction ns with
  | nil => simp [rowWritten]
  | cons n rest ih =>
    have first := parts n (by simp)
    have later := ih fun m member => parts m (by simp [member])
    simp only [Covered,rowWritten,rowCalled,rowAgain,endings_append] at first ⊢
    omega

theorem chain_covered (left : List String) (ops : List Node)
    (parts : ∀ n ∈ comparators, Covered g n) : endings g (chainWritten left ops comparators) ≤
      endings g left + endings g (rowCalled comparators) + endings g (chainAgain ops comparators) := by
  induction comparators generalizing left ops with
  | nil => cases ops <;> simp [chainWritten]
  | cons n rest ih =>
    cases ops with
    | nil => simp [chainWritten]
    | cons op ops =>
      have first := parts n (by simp)
      have later := ih n.written ops fun m member => parts m (by simp [member])
      simp only [Covered,chainWritten,rowCalled,chainAgain,endings_append] at first ⊢
      split
      · simp only [endings_nil]
        omega
      · simp only [endings_append]
        omega

theorem otherwise_covered (parts : ∀ n ∈ ns, Covered g n) :
    endings g (otherwiseWritten ns) ≤ endings g (rowCalled ns) + endings g (otherwiseAgain ns) := by
  cases ns with
  | nil => simp [otherwiseWritten]
  | cons n rest =>
    have first := parts n (by simp)
    have later := row_covered fun m member => parts m (List.mem_cons_of_mem n member)
    simp only [Covered,otherwiseWritten,rowCalled,otherwiseAgain,endings_append] at first ⊢
    split
    · simp only [endings_nil]
      omega
    · omega

theorem cases_covered (subject : List String) (parts : ∀ n ∈ ns, Covered g n) :
    endings g (casesWritten subject ns) ≤
      endings g subject + endings g (rowCalled ns) + endings g (casesAgain subject ns) := by
  induction ns with
  | nil => simp [casesWritten]
  | cons n rest ih =>
    have first := parts n (by simp)
    have later := ih fun m member => parts m (by simp [member])
    simp only [Covered,casesWritten,rowCalled,casesAgain,endings_append] at first ⊢
    cases rest with
    | nil =>
      simp [casesWritten]
      omega
    | cons m rest =>
      simp only [List.isEmpty_cons,Bool.false_eq_true,if_false,endings_append]
      omega

theorem tree_covered (tree : CallTree part n) : Covered g n := by
  induction tree with
  | absent | name | int => exact Nat.zero_le _
  | unaryOp | binOp | ifExp | subscript | augAssign =>
    simp only [Covered,written,called,again,endings_append] at *
    omega
  | boolOp _ parts => exact row_covered parts
  | @compare left ops comparators _ _ first parts =>
    have links := chain_covered left.written ops parts
    simp only [Covered,written,called,again,endings_append] at first ⊢
    omega
  | member _ _ object => exact object
  | call _ _ parts =>
    have row := row_covered parts
    simp only [Covered,written,called,again,endings_append]
    omega
  | exprStmt _ value | returnStmt _ value => exact value
  | assign _ _ target value =>
    simp only [Covered,written,called,again,firstWritten,firstAgain,rowCalled,endings_append]
      at target value ⊢
    omega
  | ifStmt _ _ _ test body orElse =>
    have row := row_covered body
    have other := otherwise_covered orElse
    simp only [Covered,written,called,again,endings_append] at test ⊢
    omega
  | whileStmt _ _ test body =>
    have row := row_covered body
    simp only [Covered,written,called,again,endings_append] at test ⊢
    omega
  | @matchStmt subject cases _ _ first parts =>
    have row := cases_covered subject.written parts
    simp only [Covered,written,called,again,endings_append] at first ⊢
    omega
  | matchCase _ body =>
    have row := row_covered body
    simp only [Covered,written,called,again,endings_append]
    omega

end

end LuauCompiler
