import LuauCompiler.Proofs.Built
import LuauCompiler.Proofs.Run

/-! The rules with their parts left open. A node is compiled by a rule that takes any steps in place
of the compilations of its parts, so that what a rule makes of its parts can be told from what the
parts do: a part is visited from a state if the outcome of the rule depends on what it gives there. -/
namespace LuauCompiler.Compile

def keywordLabel : Node → Label
  | .keyword name _ => .name name
  | _ => .missing

def valueNode? (n : Node) : Option Node :=
  match n.value? with
  | some (.node value) => some value
  | _ => none

section

variable (part : Node → Compile Unit)

def defaultsWith : Node → List (Compile Unit)
  | .params _ _ _ _ _ _ defaults => defaults.map part
  | _ => []

def otherwiseWith : List Node → Otherwise
  | [] => .nothing
  | .ifStmt test body orElse :: _ => .elseIf (part test) (part (.ifStmt test body orElse))
  | n :: rest => .orElse (part n :: rest.map part)

def clauseWith : Node → Clause
  | .clause target iter filters _ => ⟨some (part target),some (part iter),some (filters.map part)⟩
  | .forStmt _ target iter _ _ _ => ⟨some (part target),some (part iter),none⟩
  | .augAssign target _ _ | .annAssign target _ _ _ | .namedExpr target _ =>
    ⟨some (part target),none,none⟩
  | _ => .empty

def keywordWith (n : Node) : NamedArgument := ⟨keywordLabel n,(valueNode? n).map part⟩

def callWith : Node → Option (String → Compile Unit)
  | .call func args keywords =>
    some fun receiver =>
      call (some receiver) func args (part func) (args.map part) (keywords.map (keywordWith part))
  | _ => none

def itemWith : Node → Option WithItem
  | .withItem context vars => some ⟨part context,part? vars (part vars)⟩
  | _ => none

def caseWith : Node → Option Case
  | .matchCase pattern _ body => some ⟨pattern,some (body.map part)⟩
  | .matchAs pattern _ | .patternOf pattern | .patternKeyword pattern => some ⟨pattern,none⟩
  | _ => none

def handlerWith : Node → Option Handler
  | .handler type name body => some ⟨type,name,body.map part⟩
  | _ => none

def presents (ns : List Node) : Compile Unit := presentEach ns (ns.map part)

/-- The rule of a node, with any steps in place of the compilations of its parts. -/
def visitWith (config : Option Config) : Node → Compile Unit
  | .module body _ => moduleBody (body.map part)
  | .interactive body => presents part body
  | .expression n | .await n | .param _ n _ | .keyword _ n => presents part [n]
  | .functionDef isAsync name params body decorators returns _ =>
    if isAsync then presents part (params :: body ++ decorators ++ [returns])
    else
      functionDefinition name params (decorators.map part) (body.map part) (defaultsWith part params)
  | .classDef name bases _ body _ => classDefinition config name (bases.map part) (body.map part)
  | .returnStmt value => returnStatement value (part value)
  | .delete targets => delete (targets.map part)
  | .assign targets value _ => assign targets value (targets.map part) (part value)
  | .augAssign target op value => augmentedAssign (part target) op (part value)
  | .annAssign target hint value _ =>
    annotatedAssign (part target) (part value) (part hint) (callWith part hint)
  | .forStmt isAsync target iter body orElse _ =>
    if isAsync then presents part (target :: iter :: body ++ orElse)
    else forLoop iter (part target) (part iter) (body.map part)
  | .whileStmt test body _ => whileLoop (part test) (body.map part)
  | .ifStmt test body orElse => branch (part test) (body.map part) (otherwiseWith part orElse)
  | .withStmt isAsync items body _ =>
    if isAsync then
      withStatement "task.spawn(function()" "end)" (items.map (itemWith part)) (body.map part)
    else withStatement "do" "end" (items.map (itemWith part)) (body.map part)
  | .matchStmt subject cases => matchStatement (part subject) (cases.map (caseWith part))
  | .raise exc _ => raiseError (part exc)
  | .tryStmt isStar body handlers orElse finalBody =>
    if isStar then presents part (body ++ handlers ++ orElse ++ finalBody)
    else tryStatement (body.map part) (handlers.map (handlerWith part)) (finalBody.map part)
  | .assert test _ => assertion (part test)
  | .exprStmt value => expressionStatement value (part value)
  | .boolOp op values => boolOperation op (values.map part)
  | .namedExpr m n | .withItem m n => presents part [m,n]
  | .binOp left op right => binaryOperation left op right (part left) (part right)
  | .unaryOp op operand => unaryOperation op (part operand)
  | .lambda params body => lambda params (part body)
  | .ifExp test body orElse => conditional (part test) (part body) (part orElse)
  | .dict keys values => dictDisplay (keys.map part) (values.map part)
  | .set elts | .list elts _ => listDisplay (elts.map part)
  | .tuple elts _ => tupleDisplay (elts.map part)
  | .listComp elt clauses => listComprehension (part elt) (clauses.map (clauseWith part))
  | .setComp elt clauses => setComprehension (part elt) (clauses.map (clauseWith part))
  | .generatorExp elt clauses => generatorExpression (part elt) (clauses.map (clauseWith part))
  | .dictComp key value clauses =>
    dictComprehension (part key) (part value) (clauses.map (clauseWith part))
  | .yield value => yieldValue (part value)
  | .yieldFrom value => yieldFromValue (part value)
  | .compare left ops comparators =>
    comparison (part left) ops (comparators.zip (comparators.map part))
  | .call func args keywords =>
    call none func args (part func) (args.map part) (keywords.map (keywordWith part))
  | .formattedValue value _ _ => interpolation (part value)
  | .joinedStr values => interpolated (values.zip (values.map part))
  | .attribute value attr _ => memberAccess (part value) attr
  | .subscript value slice _ => subscript (part value) (part slice)
  | .starred value _ => starred (part value)
  | .slice lower upper step =>
    slice (part? lower (part lower)) (part? upper (part upper)) (part? step (part step))
  | .clause target iter filters _ => presents part (target :: iter :: filters)
  | .handler type _ body => presents part (type :: body)
  | .params posOnly regular rest kwOnly kwDefaults kwRest defaults =>
    presents part (posOnly ++ regular ++ rest :: kwOnly ++ kwDefaults ++ kwRest :: defaults)
  | .matchCase pattern guard body => presents part (pattern :: guard :: body)
  | .matchValue n | .matchAs n _ | .patternOf n | .patternKeyword n => discard (inline (part n))
  | .typeAlias name _ value => typeAlias config name (part value)
  | .index value => do emit (← inline (part value))
  | .caseBody body => block (body.map part)
  | n => visit config n

end

section

variable (part : Node → Compile Unit)

theorem presents_cons (n : Node) (rest : List Node) :
    presents part (n :: rest) = present n (part n) >>= fun _ => presents part rest := rfl

theorem presents_append (ms ns : List Node) :
    presents part (ms ++ ns) = presents part ms >>= fun _ => presents part ns := by
  induction ms with
  | nil => rfl
  | cons m rest ih =>
    rw [List.cons_append,presents_cons,presents_cons,bind_assoc,ih]

theorem bind_presents_nil (c : Compile Unit) : (c >>= fun _ => presents part []) = c := by
  funext s
  change (c >>= fun _ => pure ()) s = c s
  simp only [bind,pure]
  split <;> rename_i result <;> rw [result]

end

section

variable (config : Option Config)

theorem defaultsOf_eq (n : Node) : defaultsOf config n = defaultsWith (visit config) n := by
  cases n with
  | params => exact visits_eq_map config _
  | _ => rfl

theorem otherwiseOf_eq (ns : List Node) : otherwiseOf config ns = otherwiseWith (visit config) ns := by
  cases ns with
  | nil => rfl
  | cons n rest =>
    rw [otherwiseOf,visits_eq_map]
    cases n <;> rfl

theorem clauseOf_eq (n : Node) : clauseOf config n = clauseWith (visit config) n := by
  cases n with
  | clause => rw [clauseOf,clauseWith,visits_eq_map]
  | _ => rfl

theorem keywordOf_eq (n : Node) : keywordOf config n = keywordWith (visit config) n := by
  cases n <;> rfl

theorem callOf_eq (n : Node) : callOf config n = callWith (visit config) n := by
  cases n with
  | call =>
    rw [callOf,callWith,visits_eq_map,keywordsOf_eq_map,funext (keywordOf_eq config)]
  | _ => rfl

theorem itemOf_eq (n : Node) : itemOf config n = itemWith (visit config) n := by
  cases n <;> rfl

theorem itemsOf_eq (ns : List Node) : itemsOf config ns = ns.map (itemWith (visit config)) := by
  induction ns with
  | nil => rfl
  | cons n rest ih => rw [itemsOf,itemOf_eq,ih,List.map_cons]

theorem caseOf_eq (n : Node) : caseOf config n = caseWith (visit config) n := by
  cases n with
  | matchCase => rw [caseOf,caseWith,visits_eq_map]
  | _ => rfl

theorem casesOf_eq (ns : List Node) : casesOf config ns = ns.map (caseWith (visit config)) := by
  induction ns with
  | nil => rfl
  | cons n rest ih => rw [casesOf,caseOf_eq,ih,List.map_cons]

theorem handlerOf_eq (n : Node) : handlerOf config n = handlerWith (visit config) n := by
  cases n with
  | handler => rw [handlerOf,handlerWith,visits_eq_map]
  | _ => rfl

theorem handlersOf_eq (ns : List Node) : handlersOf config ns = ns.map (handlerWith (visit config)) := by
  induction ns with
  | nil => rfl
  | cons n rest ih => rw [handlersOf,handlerOf_eq,ih,List.map_cons]

/-- A node is compiled by its rule from the compilations of its parts. -/
theorem visit_eq_visitWith (n : Node) : visit config n = visitWith (visit config) config n := by
  have clauses (ns : List Node) : clausesOf config ns = ns.map (clauseWith (visit config)) := by
    rw [clausesOf_eq_map,funext (clauseOf_eq config)]
  have keywords (ns : List Node) : keywordsOf config ns = ns.map (keywordWith (visit config)) := by
    rw [keywordsOf_eq_map,funext (keywordOf_eq config)]
  have several (ns : List Node) : presents (visit config) ns = presentEach ns (visits config ns) := by
    rw [visits_eq_map,presents]
  cases n with
  -- Kinds without a rule of their own compile their parts one after another.
  | expression | await | param | keyword | namedExpr | withItem =>
    simp only [visitWith,presents_cons,bind_presents_nil]
    rfl
  | interactive | clause | handler | matchCase | params =>
    simp only [visitWith,presents_cons,presents_append,bind_assoc]
    simp only [several]
    rfl
  | functionDef | forStmt | tryStmt =>
    simp only [visitWith,presents_cons,presents_append,bind_presents_nil,bind_assoc]
    simp only [several,← visits_eq_map,← defaultsOf_eq,← handlersOf_eq]
    rfl
  | _ =>
    simp only [visitWith,← visits_eq_map,← otherwiseOf_eq,← clauses,← keywords,← callOf_eq,← itemsOf_eq,
      ← casesOf_eq] <;> rfl

end

/-- While `n` is compiled from `s`, its part `m` is visited from `t`: the outcome depends on what `m`
gives there. -/
def Calls (config : Option Config) (n : Node) (s : State) (m : Node) (t : State) : Prop :=
  ∃ part : Node → Compile Unit, (∀ k u, (k = m → u ≠ t) → part k u = visit config k u) ∧
    visitWith part config n s ≠ visit config n s

/-- The nodes that are visited while a tree is compiled, each with the node whose rule visits it and
with the state that it is visited from. -/
inductive Visited (config : Option Config) (root : Node) (start : State) :
    Option Node → Node → State → Prop
  | root : Visited config root start none root start
  | part (outer : Visited config root start caller n s) (calls : Calls config n s m t) :
    Visited config root start (some n) m t

variable {α : Type} {config : Option Config} {m : Node} {s t : State} {e : Failure}

/-- From `s` the step fails with `e`. -/
def Fails (c : Compile α) (s : State) (e : Failure) : Prop := (c s).1 = .error e

namespace Fails

theorem first (fails : Fails c s e) : Fails (c >>= f) s e := by
  simp only [Fails,bind] at fails ⊢
  split <;> rename_i result <;> rw [result] at fails
  · cases fails
  · cases fails
    rfl

theorem update (fails : Fails (f ()) (g s) e) : Fails (update g >>= f) s e := fails

theorem nested (fails : Fails c { s with output := .block [] } e) : Fails (nested c) s e := by
  simp only [Fails,Compile.nested] at fails ⊢
  split <;> rename_i result <;> rw [result] at fails
  · cases fails
  · cases fails
    rfl

end Fails

open Classical in
/-- The compilations of all nodes, but one that fails when it is visited from a given state. -/
noncomputable def failingAt (config : Option Config) (m : Node) (t : State) (e : Failure) (k : Node) :
    Compile Unit :=
  fun u => if k = m ∧ u = t then (.error e,u) else visit config k u

theorem failingAt_fails (config : Option Config) (m : Node) (t : State) (e : Failure) :
    Fails (failingAt config m t e m) t e := by
  simp [Fails,failingAt]

theorem calls_of_fails (fails : ∀ e, Fails (visitWith (failingAt config m t e) config n) s e) :
    Calls config n s m t := by
  -- One of two failures is not what the compilation itself ends with.
  obtain ⟨e,other⟩ : ∃ e, (visit config n s).1 ≠ .error e := by
    by_cases last : (visit config n s).1 = .error .lastFrame
    · exact ⟨.outOfRange,by simp [last]⟩
    · exact ⟨.lastFrame,last⟩
  refine ⟨failingAt config m t e,fun k u elsewhere => ?_,fun same => ?_⟩
  · simp only [failingAt,ite_eq_right_iff,and_imp]
    exact fun here there => absurd there (elsewhere here)
  · exact other (same ▸ fails e)

theorem expressionStatement_proceeds (value : Node) (s : State) :
    ∃ u, ∀ run, expressionStatement value run s = (do
      within (fun f => { f with docstring := value.constant?.isSome }) (spread run)
      emitEntry .void : Compile Unit) u := by
  unfold expressionStatement recordConstant
  cases value.constant? with
  | none => exact ⟨s,fun _ => rfl⟩
  | some c =>
    simp only [bind,get]
    cases s.functions.reverse with
    | nil => exact ⟨s,fun _ => rfl⟩
    | cons last earlier => exact ⟨_,fun _ => rfl⟩

theorem statement_calls_value (config : Option Config) (value : Node) (s : State) :
    ∃ t, Calls config (.exprStmt value) s value t := by
  obtain ⟨u,proceeds⟩ := expressionStatement_proceeds value s
  let framed := { u with frames := u.frames.push fun f => { f with docstring := value.constant?.isSome } }
  refine ⟨{ framed.openBlock with output := .block [] },calls_of_fails fun e => ?_⟩
  rw [Fails,visitWith,proceeds]
  exact Fails.first (.update (.first (.update (.first (.nested (failingAt_fails ..))))))

theorem list_calls_head (config : Option Config) (elt : Node) (rest : List Node) (access : Node)
    (s : State) : Calls config (.list (elt :: rest) access) s elt { s with output := .block [] } := by
  refine calls_of_fails fun e => ?_
  have inside := (failingAt_fails config elt { s with output := .block [] } e).nested (s := s)
  exact .first (.first (.first inside))

end LuauCompiler.Compile
