import LuauCompiler.Proofs.Grammar
import LuauCompiler.Proofs.Outcomes

/-! Expressions over names, texts, lists and operators: the tree of each, the text that it is compiled
to, and the Luau expression that this text is meant to be. -/
namespace LuauCompiler

open Luau (Expr Operator)

inductive Term where
  | name (id : String)
  | text (value : String)
  | list (items : List Term)
  | unary (op : UnaryOp) (operand : Term)
  /-- A comparison with one operator, which is no test for membership. -/
  | compare (op : CompareOp) (signed : (Compile.compareSign? op).isSome = true) (left right : Term)
  | conditional (test body orElse : Term)
  | binary (op : BinaryOp) (left right : Term)
  | boolean (op : BoolOp) (first : Term) (more : List Term)
  | member (object : Term) (field : String)
  | subscript (object index : Term)

namespace Term

def load : Node := .mark (.access .load)

mutual

def node : Term → Node
  | .name id => .name (some id) load
  | .text value => .constant (.str value) none
  | .list items => .list (nodes items) load
  | .unary op operand => .unaryOp (.mark (.unary op)) operand.node
  | .compare op _ left right => .compare left.node [.mark (.compare op)] [right.node]
  | .conditional test body orElse => .ifExp test.node body.node orElse.node
  | .binary op left right => .binOp left.node (.mark (.binary op)) right.node
  | .boolean op first more => .boolOp (.mark (.bool op)) (first.node :: nodes more)
  | .member object field => .attribute object.node (some field) load
  | .subscript object index => .subscript object.node index.node load

def nodes : List Term → List Node
  | [] => []
  | e :: rest => e.node :: nodes rest

end

def isText : Term → Bool
  | .text _ => true
  | _ => false

def isList : Term → Bool
  | .list _ => true
  | _ => false

/-- The text of an operation; the flags tell which operands are text constants. -/
def operationText (op : BinaryOp) (leftIsText rightIsText : Bool) (left right : String) : String :=
  match op, leftIsText, rightIsText with
  | .mult, true, _ => "string.rep(" ++ left ++ "," ++ right ++ ")"
  | .mult, false, true => "string.rep(" ++ right ++ "," ++ left ++ ")"
  | .add, true, true => left ++ " .. " ++ right
  | .add, true, false => left ++ " .. tostring(" ++ right ++ ")"
  | .add, false, true => "tostring(" ++ left ++ ") .. " ++ right
  | op, _, _ => Compile.parenthesised ((Compile.binaryText? op left right).getD "")

def objectText (object : String) : String :=
  if Compile.isLiteralText object then "(" ++ object ++ ")" else object

mutual

/-- The text that the expression is compiled to. -/
def source : Term → String
  | .name id => id
  | .text value => Text.quote value
  | .list items => Compile.bracedList (sources items)
  | .unary op operand => Compile.unaryText op operand.source
  | .compare op _ left right =>
    Compile.infixText (shownName (Compile.compareSign? op)) left.source right.source
  | .conditional test body orElse =>
    test.source ++ " and " ++ body.source ++ " or " ++ orElse.source
  | .binary op left right => operationText op left.isText right.isText left.source right.source
  | .boolean op first more => Compile.parenthesised
      (String.intercalate (Compile.boolSign op) (first.source :: sources more))
  | .member object field => objectText object.source ++ "." ++ field
  | .subscript object index => object.source ++ Compile.indexText index.source

def sources : List Term → List String
  | [] => []
  | e :: rest => e.source :: sources rest

end

mutual

/-- The expression is compiled: nothing in it is refused. -/
def accepted : Term → Bool
  | .name _ | .text _ => true
  | .list items => allAccepted items
  | .unary _ operand => operand.accepted
  | .compare _ _ left right => left.accepted && right.accepted
  | .conditional test body orElse => test.accepted && body.accepted && orElse.accepted
  | .binary op left right =>
    Compile.isSupported op && left.accepted && right.accepted && !(op == .add && left.isList && !right.isList)
  | .boolean _ first more => first.accepted && allAccepted more
  | .member object _ => object.accepted
  | .subscript object index =>
    index.accepted && object.accepted && !reservedWords.contains object.source

def allAccepted : List Term → Bool
  | [] => true
  | e :: rest => e.accepted && allAccepted rest

end

mutual

def quotes : Term → Bool
  | .name _ => false
  | .text _ => true
  | .list items => anyQuotes items
  | .unary _ operand => operand.quotes
  | .compare _ _ left right => left.quotes || right.quotes
  | .conditional test body orElse => test.quotes || body.quotes || orElse.quotes
  | .binary _ left right => left.quotes || right.quotes
  | .boolean _ first more => first.quotes || anyQuotes more
  | .member object _ => object.quotes
  | .subscript object index => index.quotes || object.quotes

def anyQuotes : List Term → Bool
  | [] => false
  | e :: rest => e.quotes || anyQuotes rest

end

/-! ## The meant expression -/

/-- The operator of a comparison that has a sign. -/
def comparisonOperator : CompareOp → Operator
  | .notEq | .isNot => .ne
  | .lt => .lt
  | .ltE => .le
  | .gt => .gt
  | .gtE => .ge
  | _ => .eq

def boolOperator : BoolOp → Operator
  | .and => .and
  | .or => .or

def libraryCall (library function : String) (args : List Expr) : Expr :=
  .call (.member (.name library) function) args

/-- An arithmetic operation: the operators that the target lacks are calls. -/
def plainImage (op : BinaryOp) (left right : Expr) : Expr :=
  match op with
  | .add => .binary .add left right
  | .sub => .binary .sub left right
  | .mult => .binary .mul left right
  | .div => .binary .div left right
  | .mod => .binary .mod left right
  | .pow => .binary .pow left right
  | .floorDiv => libraryCall "math" "floor" [.binary .div left right]
  | .lShift => libraryCall "bit32" "lshift" [left,right]
  | .rShift => libraryCall "bit32" "rshift" [left,right]
  | .bitOr => libraryCall "bit32" "bor" [left,right]
  | .bitAnd => libraryCall "bit32" "band" [left,right]
  | .bitXor => libraryCall "bit32" "bxor" [left,right]
  | .matMult => .table []

def operationImage (op : BinaryOp) (leftIsText rightIsText : Bool) (left right : Expr) : Expr :=
  match op, leftIsText, rightIsText with
  | .mult, true, _ => libraryCall "string" "rep" [left,right]
  | .mult, false, true => libraryCall "string" "rep" [right,left]
  | .add, true, true => .binary .concat left right
  | .add, true, false => .binary .concat left (.call (.name "tostring") [right])
  | .add, false, true => .binary .concat (.call (.name "tostring") [left]) right
  | op, _, _ => .group (plainImage op left right)

def unaryImage (op : UnaryOp) (operand : Expr) : Expr :=
  match op with
  | .uSub => .unary .minus operand
  | .uAdd => operand
  | .not => .unary .not operand
  | .invert => libraryCall "bit32" "bnot" [operand]

def chainImage (op : Operator) (first : Expr) (more : List Expr) : Expr := more.foldl (.binary op) first

mutual

/-- The Luau expression with the same operands in the same places. -/
def image : Term → Expr
  | .name id => .name id
  | .text value => .text (Text.quote value)
  | .list items => .table (images items)
  | .unary op operand => unaryImage op operand.image
  | .compare op _ left right => .binary (comparisonOperator op) left.image right.image
  | .conditional test body orElse =>
    .binary .or (.binary .and test.image body.image) orElse.image
  | .binary op left right => operationImage op left.isText right.isText left.image right.image
  | .boolean op first more => .group (chainImage (boolOperator op) first.image (images more))
  | .member object field =>
    .member (if Compile.isLiteralText object.source then .group object.image else object.image) field
  | .subscript object index => .index object.image index.image

def images : List Term → List Expr
  | [] => []
  | e :: rest => e.image :: images rest

end

mutual

/-- The expression and all expressions inside of it. -/
def parts : Term → List Term
  | .name id => [.name id]
  | .text value => [.text value]
  | .list items => .list items :: allParts items
  | .unary op operand => .unary op operand :: operand.parts
  | .compare op signed left right => .compare op signed left right :: left.parts ++ right.parts
  | .conditional test body orElse =>
    .conditional test body orElse :: test.parts ++ body.parts ++ orElse.parts
  | .binary op left right => .binary op left right :: left.parts ++ right.parts
  | .boolean op first more => .boolean op first more :: first.parts ++ allParts more
  | .member object field => .member object field :: object.parts
  | .subscript object index => .subscript object index :: object.parts ++ index.parts

def allParts : List Term → List Term
  | [] => []
  | e :: rest => e.parts ++ allParts rest

end

/-! ## Compiling an expression -/

@[simp] theorem node_isStrConstant (e : Term) : e.node.isStrConstant = e.isText := by
  cases e <;> simp [node,Node.isStrConstant,isText,Constant.isStr]

@[simp] theorem node_isList (e : Term) : e.node.isList = e.isList := by
  cases e <;> simp [node,Node.isList,isList]

end Term

namespace Compile

open Term

variable {config : Option Config} {s t : State}

theorem gives_inline_of_line (step : ∀ t, Gives c { s with output := .block [] } () t ↔
      ok ∧ t = { s with output := .block [.line line] }) (text : String) (t : State) :
    Gives (inline c) s text t ↔ ok ∧ text = line ∧ t = s := by
  rw [gives_inline]
  constructor
  · rintro ⟨u,lines,run,read,rfl,rfl⟩
    obtain ⟨holds,rfl⟩ := (step u).mp run
    cases read
    exact ⟨holds,rfl,rfl⟩
  · rintro ⟨holds,rfl,rfl⟩
    exact ⟨_,[text],(step _).mpr ⟨holds,rfl⟩,rfl,rfl,rfl⟩

/-- From a state without tags the expression is compiled to its source on a line of its own, and to
nothing else. -/
def Written (config : Option Config) (e : Term) : Prop :=
  ∀ s t before, s.tags = [] → (e.quotes = true → s.frames.top.docstring = false) →
    s.output = .block before → (Gives (visit config e.node) s () t ↔
      e.accepted = true ∧ t = { s with output := .block (before ++ [.line e.source]) })

section

variable (written : Written config e) (untagged : s.tags = [])
    (plain : e.quotes = true → s.frames.top.docstring = false)

include written untagged plain

theorem Written.text (text : String) (t : State) :
    Gives (inline (visit config e.node)) s text t ↔ e.accepted = true ∧ text = e.source ∧ t = s :=
  gives_inline_of_line (fun t => written { s with output := .block [] } t [] untagged plain rfl) text t

theorem Written.text_bind (f : String → Compile α) (a : α) :
    Gives (inline (visit config e.node) >>= f) s a t ↔ e.accepted = true ∧ Gives (f e.source) s a t := by
  rw [gives_bind]
  constructor
  · rintro ⟨text,u,first,rest⟩
    obtain ⟨accepted,rfl,rfl⟩ := (written.text untagged plain text u).mp first
    exact ⟨accepted,rest⟩
  · rintro ⟨accepted,rest⟩
    exact ⟨_,s,(written.text untagged plain _ s).mpr ⟨accepted,rfl,rfl⟩,rest⟩

end

/-- The operand counts as a list in a sum. -/
def listLike (tags : List (String × String)) (n : Node) (text : String) : Bool :=
  tags.lookup text == some "list" || n.isList

/-- The operand counts as a text in a sum or a product. -/
def textLike (tags : List (String × String)) (n : Node) (text : String) : Bool :=
  n.isStrConstant || tags.lookup text == some "str"

theorem product_eq (a b : Node) (left right : String) : product a b left right s =
    (.ok (operationText .mult (textLike s.tags a left) (textLike s.tags b right) left right),s) := by
  have first : Gives (isText a left) s (textLike s.tags a left) s := rfl
  have second : Gives (isText b right) s (textLike s.tags b right) s := rfl
  rw [product,bind_of_gives first]
  cases textLike s.tags a left with
  | true => rfl
  | false =>
    rw [if_neg (by simp),bind_of_gives second]
    cases textLike s.tags b right <;> rfl

theorem sum_eq (a b : Node) (left right : String) : sum a b left right s =
    if listLike s.tags a left && !listLike s.tags b right then reject "Not supported." s
    else (.ok (operationText .add (textLike s.tags a left) (textLike s.tags b right) left right),s) := by
  have first : Gives (isListLike a left) s (listLike s.tags a left) s := rfl
  have second : Gives (isListLike b right) s (listLike s.tags b right) s := rfl
  have third : Gives (isText a left) s (textLike s.tags a left) s := rfl
  have fourth : Gives (isText b right) s (textLike s.tags b right) s := rfl
  rw [sum,bind_of_gives first]
  cases listLike s.tags a left with
  | false =>
    refine (bind_of_gives third).trans ((bind_of_gives fourth).trans ?_)
    cases textLike s.tags a left <;> cases textLike s.tags b right <;> rfl
  | true =>
    rw [if_pos rfl,bind_of_gives second]
    cases listLike s.tags b right with
    | false => rfl
    | true =>
      refine (bind_of_gives third).trans ((bind_of_gives fourth).trans ?_)
      cases textLike s.tags a left <;> cases textLike s.tags b right <;> rfl

theorem binaryOperation_run (known : op.binaryOp? = some k) (supported : isSupported k = true)
    (first : Gives (inline c) s left u) (second : Gives (inline d) u right v) :
    binaryOperation a op b c d s =
      if k == .add && listLike v.tags a left && !listLike v.tags b right then reject "Not supported." v
      else emit (operationText k (textLike v.tags a left) (textLike v.tags b right) left right) v := by
  have operator : Gives (binaryOperator op) s k s := by
    rw [binaryOperator,known]
    simp [supported]
  rw [binaryOperation,bind_of_gives operator,bind_of_gives first,bind_of_gives second]
  cases k with
  | mult => exact bind_of_gives (product_eq a b left right)
  | add =>
    have run := sum_eq a b left right (s := v)
    simp only [BEq.rfl,Bool.true_and]
    split at run
    · rename_i refused
      rw [if_pos refused]
      exact bind_of_error run
    · rename_i fine
      rw [if_neg fine]
      exact bind_of_gives run
  | matMult => cases supported
  | _ => rfl

theorem gives_binaryOperation (first : Written config e) (second : Written config d) (op : BinaryOp)
    (untagged : s.tags = [])
    (plain : e.quotes = true ∨ d.quotes = true → s.frames.top.docstring = false)
    (out : s.output = .block before) :
    Gives (binaryOperation e.node (.mark (.binary op)) d.node (visit config e.node)
        (visit config d.node)) s () t ↔
      (Term.binary op e d).accepted = true ∧
        t = { s with output := .block (before ++ [.line (Term.binary op e d).source]) } := by
  have known : binaryOperator (.mark (.binary op)) =
      if isSupported op then pure op else fail .unknownKey := rfl
  have left := first.text untagged fun given => plain (.inl given)
  have right := second.text untagged fun given => plain (.inr given)
  have shown : ∀ k : Term, textLike s.tags k.node k.source = k.isText ∧
      listLike s.tags k.node k.source = k.isList := by
    intro k
    simp [textLike,listLike,untagged]
  rw [Term.accepted,Term.source]
  by_cases supported : isSupported op = true
  · by_cases accepted : e.accepted = true ∧ d.accepted = true
    · rw [Gives,binaryOperation_run rfl supported ((left ..).mpr ⟨accepted.1,rfl,rfl⟩)
        ((right ..).mpr ⟨accepted.2,rfl,rfl⟩),(shown e).1,(shown e).2,(shown d).1,(shown d).2]
      cases op == .add && e.isList && !d.isList with
      | true => simp [reject]
      | false => simp [← Gives.eq_def,supported,accepted,out]
    · rw [binaryOperation,known,if_pos supported,gives_pure_bind]
      simp only [gives_bind,left]
      grind
  · simp [binaryOperation,known,supported]

theorem texts_cons (first : ∀ text t, Gives (inline c) s text t ↔ ok ∧ text = line ∧ t = s)
    (rest : ∀ texts t, Gives (inlineEach cs) s texts t ↔ oks ∧ texts = lines ∧ t = s)
    (texts : List String) (t : State) :
    Gives (inlineEach (c :: cs)) s texts t ↔ (ok ∧ oks) ∧ texts = line :: lines ∧ t = s := by
  have row : Gives (inlineEach (c :: cs)) s texts t ↔ ∃ a u, Gives (inline c) s a u ∧
      ∃ later, Gives (inlineEach cs) u later t ∧ texts = a :: later := gives_all_cons
  rw [row]
  constructor
  · rintro ⟨a,u,front,later,behind,rfl⟩
    obtain ⟨holds,rfl,rfl⟩ := (first a u).mp front
    obtain ⟨hold,rfl,rfl⟩ := (rest later t).mp behind
    exact ⟨⟨holds,hold⟩,rfl,rfl⟩
  · rintro ⟨⟨holds,hold⟩,rfl,rfl⟩
    exact ⟨line,t,(first _ _).mpr ⟨holds,rfl,rfl⟩,lines,(rest _ _).mpr ⟨hold,rfl,rfl⟩,rfl⟩

mutual

theorem term_written (config : Option Config) (e : Term) : Written config e := by
  intro s t before untagged plain out
  cases e with
  | name id =>
    change Gives (emit id) s () t ↔ _
    simp [accepted,source,out]
  | text value =>
    change Gives (textConstant value) s () t ↔ _
    simp [textConstant,plain rfl,accepted,source,out]
  | list items =>
    have texts := terms_written config items s untagged plain
    change Gives (listDisplay (visits config (nodes items))) s () t ↔ _
    simp [listDisplay,accepted,source,gives_bind,texts,out,and_assoc]
  | unary op operand =>
    have inner := term_written config operand
    change Gives (inline (visit config operand.node) >>= fun text => emit (unaryText op text)) s () t ↔ _
    rw [inner.text_bind untagged plain]
    simp [accepted,source,out]
  | compare op signed left right =>
    have first := term_written config left
    have second := term_written config right
    simp only [quotes,Bool.or_eq_true] at plain
    have linked (a b : String) : link (.mark (.compare op)) right.node a b =
        pure (infixText (shownName (compareSign? op)) a b) := by
      cases op <;> first | rfl | cases signed
    have chained (a : String) : chain a [.mark (.compare op)] [(right.node,visit config right.node)] =
        inline (visit config right.node) >>= fun b => pure (infixText (shownName (compareSign? op)) a b) := by
      simp only [chain,linked]
      rfl
    change Gives (inline (visit config left.node) >>= fun a =>
      chain a [.mark (.compare op)] [(right.node,visit config right.node)] >>= emit) s () t ↔ _
    rw [first.text_bind untagged fun given => plain (.inl given),chained,gives_bind]
    simp only [second.text_bind untagged fun given => plain (.inr given)]
    simp [accepted,source,out,and_assoc]
  | conditional test body orElse =>
    have first := term_written config test
    have second := term_written config body
    have third := term_written config orElse
    simp only [quotes,Bool.or_eq_true] at plain
    change Gives (conditional (visit config test.node) (visit config body.node)
      (visit config orElse.node)) s () t ↔ _
    rw [conditional,first.text_bind untagged fun given => plain (.inl (.inl given)),
      second.text_bind untagged fun given => plain (.inl (.inr given)),
      third.text_bind untagged fun given => plain (.inr given)]
    simp [accepted,source,out,and_assoc]
  | binary op left right =>
    simp only [quotes,Bool.or_eq_true] at plain
    exact gives_binaryOperation (term_written config left) (term_written config right) op untagged plain out
  | boolean op first more =>
    have head := term_written config first
    simp only [quotes,Bool.or_eq_true] at plain
    have texts := texts_cons (head.text untagged fun given => plain (.inl given))
      (terms_written config more s untagged fun given => plain (.inr given))
    change Gives (inlineEach (visit config first.node :: visits config (nodes more)) >>= fun texts =>
      emit (parenthesised (String.intercalate (boolSign op) texts))) s () t ↔ _
    rw [gives_bind]
    simp [accepted,source,texts,out,and_assoc]
  | member object field =>
    have inner := term_written config object
    change Gives (memberAccess (visit config object.node) (some field)) s () t ↔ _
    rw [memberAccess,inner.text_bind untagged plain]
    simp [accepted,source,objectText,shownName,out]
  | subscript object index =>
    have first := term_written config index
    have second := term_written config object
    simp only [quotes,Bool.or_eq_true] at plain
    change Gives (Compile.subscript (visit config object.node) (visit config index.node)) s () t ↔ _
    rw [Compile.subscript,first.text_bind untagged fun given => plain (.inl given),
      second.text_bind untagged fun given => plain (.inr given),accepted,source]
    cases reservedWords.contains object.source <;> simp [out,and_assoc]

theorem terms_written (config : Option Config) (es : List Term) (s : State) (untagged : s.tags = [])
    (plain : anyQuotes es = true → s.frames.top.docstring = false) (texts : List String)
    (t : State) : Gives (inlineEach (visits config (nodes es))) s texts t ↔
      allAccepted es = true ∧ texts = sources es ∧ t = s := by
  cases es with
  | nil => simp [nodes,visits,inlineEach,allAccepted,sources]
  | cons e rest =>
    have first := term_written config e
    simp only [anyQuotes,Bool.or_eq_true] at plain
    have later := terms_written config rest s untagged fun given => plain (.inr given)
    have front := first.text untagged fun given => plain (.inl given)
    simp [nodes,visits,allAccepted,sources,texts_cons front later,and_assoc]

end

end Compile

end LuauCompiler
